import Mathlib.Data.List.Perm.Subperm
import TorrentNode.Workers.Common

/-!
# The window of the status cache

The main worker and the script worker each go through the blocks, in threads of their
own, and put the statuses they save into one cache under the number of their block. Only
the main worker takes statuses out again: at the end of block `n` those that are listed
under `n - maxCountElementsTxsCache`. A run is any order of these steps.
-/

namespace TorrentNode

namespace StatusWindow

/-- The cache with what the two workers have come to. -/
structure State where
  cache : StatusCache
  /-- The last block that the main worker finished; it works on the next one. -/
  mainBlock : Nat
  /-- The same for the script worker. -/
  scriptBlock : Nat
  /-- The saved statuses, by the block and the transaction. -/
  recorded : List (Nat × Blob)
  deriving DecidableEq

/-- What a worker does that concerns the cache. -/
inductive Action where
  /-- `saveTransactionStatus` of the main worker. -/
  | mainSaves (status : TransactionStatus)
  /-- The main worker has written its batch. -/
  | mainEnds
  /-- `saveTransactionStatus` of the script worker. -/
  | scriptSaves (status : TransactionStatus)
  /-- The script worker has written its batch. -/
  | scriptEnds
  deriving DecidableEq

/-- A worker saves the status of a transaction while it is at this block. -/
def save (s : State) (block : Nat) (status : TransactionStatus) : State :=
  { s with
    cache := s.cache.addValue status.transaction (UInt64.ofNat block) status
    recorded := (block, status.transaction) :: s.recorded }

/-- The attribute that the main worker removes at the end of a block. -/
def leaving (m : UInt64) (block : Nat) : UInt64 := UInt64.ofNat block - m

/-- What an action does. -/
def step (m : UInt64) (s : State) : Action → State
  | .mainSaves status => save s (s.mainBlock + 1) status
  | .mainEnds =>
    { s with
      cache := s.cache.remove (leaving m (s.mainBlock + 1))
      mainBlock := s.mainBlock + 1 }
  | .scriptSaves status => save s (s.scriptBlock + 1) status
  | .scriptEnds => { s with scriptBlock := s.scriptBlock + 1 }

/-- What these actions do, one after the other. -/
def run (m : UInt64) (s : State) (actions : List Action) : State := actions.foldl (step m) s

/-- The cache is empty at the start; the workers go on from their records. -/
def start (mainBlock scriptBlock : Nat) : State :=
  { cache := { map := ∅, attributes := ∅ }, mainBlock, scriptBlock, recorded := [] }

/-- The transaction has a status in the last `m` blocks, or in a later one. -/
def InWindow (m : UInt64) (s : State) (hash : Blob) : Prop :=
  ∃ e ∈ s.recorded, e.2 = hash ∧ s.mainBlock < e.1 + m.toNat

instance {m : UInt64} {s : State} {hash : Blob} : Decidable (InWindow m s hash) :=
  inferInstanceAs (Decidable (∃ e ∈ s.recorded, _))

/-- **The cache knows the transactions of the window.** -/
def Kept (m : UInt64) (s : State) : Prop :=
  ∀ hash, (s.cache.getValue hash).isSome ↔ InWindow m s hash

/-- The transactions that are listed under an attribute. -/
def listed (c : StatusCache) (attr : UInt64) : List Blob := (c.attributes.find? attr).getD []

/-- When a step is in order. The script worker saves statuses of transactions of the window only,
and no transaction of the block that leaves the window has a status in a later one. -/
def Allowed (m : UInt64) (s : State) : Action → Prop
  | .mainEnds => ∀ e ∈ s.recorded, UInt64.ofNat e.1 = leaving m (s.mainBlock + 1) →
      ∀ e' ∈ s.recorded, e'.2 = e.2 → e'.1 + m.toNat ≤ s.mainBlock + 1
  | .scriptSaves status =>
      s.mainBlock < s.scriptBlock + 1 + m.toNat ∨ InWindow m s status.transaction
  | _ => True

instance {m : UInt64} {s : State} : ∀ {a : Action}, Decidable (Allowed m s a)
  | .mainSaves _ => inferInstanceAs (Decidable True)
  | .mainEnds => inferInstanceAs (Decidable (∀ e ∈ s.recorded, _ → ∀ e' ∈ s.recorded, _))
  | .scriptSaves _ => inferInstanceAs (Decidable (_ ∨ _))
  | .scriptEnds => inferInstanceAs (Decidable True)

/-- Every step of the run is allowed. -/
def Met (m : UInt64) : State → List Action → Prop
  | _, [] => True
  | s, a :: actions => Allowed m s a ∧ Met m (step m s a) actions

instance decidableMet (m : UInt64) : ∀ (s : State) (actions : List Action),
    Decidable (Met m s actions)
  | _, [] => inferInstanceAs (Decidable True)
  | s, a :: actions =>
    haveI := decidableMet m (step m s a) actions
    inferInstanceAs (Decidable (Allowed m s a ∧ Met m (step m s a) actions))

/-! ## What a step preserves -/

/-- What is listed in the cache: every status of the window is, under its block, and nothing that
was not recorded. -/
structure Lists (m : UInt64) (s : State) : Prop where
  window : ∀ e ∈ s.recorded, s.mainBlock < e.1 + m.toNat →
    e.2 ∈ listed s.cache (UInt64.ofNat e.1)
  recorded : ∀ attr, ∀ hash ∈ listed s.cache attr,
    ∃ e ∈ s.recorded, e.2 = hash ∧ UInt64.ofNat e.1 = attr

theorem isSome_getValue_addValue {c : StatusCache} {key hash : Blob} {attr : UInt64}
    {value : TransactionStatus} :
    ((c.addValue key attr value).getValue hash).isSome ↔
      hash = key ∨ (c.getValue hash).isSome := by
  unfold StatusCache.addValue StatusCache.getValue
  by_cases heq : hash = key
  · subst heq
    refine iff_of_true ?_ (Or.inl rfl)
    cases hf : c.map.find? hash with
    | none => rw [OrdMap.find?_emplace_of_none hf, if_pos rfl]; rfl
    | some old => rw [OrdMap.find?_emplace_of_some hf]; rfl
  · rw [OrdMap.find?_emplace_ne heq, or_iff_right heq]

theorem listed_addValue {c : StatusCache} {key : Blob} {attr attr' : UInt64}
    {value : TransactionStatus} :
    listed (c.addValue key attr value) attr' =
      if attr' = attr then listed c attr ++ [key] else listed c attr' := by
  unfold listed StatusCache.addValue
  rw [OrdMap.find?_insert]
  split
  · rfl
  · rfl

theorem find?_foldl_erase {hash : Blob} : ∀ (keys : List Blob) (map : OrdMap Blob TransactionStatus),
    (keys.foldl OrdMap.erase map).find? hash = if hash ∈ keys then none else map.find? hash
  | [], _ => rfl
  | key :: keys, map => by
      rw [List.foldl_cons, find?_foldl_erase keys, OrdMap.find?_erase]
      by_cases heq : hash = key
      · simp [heq]
      · simp [heq]

theorem getValue_remove {c : StatusCache} {attr : UInt64} {hash : Blob} :
    (c.remove attr).getValue hash = if hash ∈ listed c attr then none else c.getValue hash := by
  unfold StatusCache.remove StatusCache.getValue listed
  cases c.attributes.find? attr with
  | none => simp
  | some keys => exact find?_foldl_erase keys c.map

theorem listed_remove {c : StatusCache} {attr attr' : UInt64} :
    listed (c.remove attr) attr' = if attr' = attr then [] else listed c attr' := by
  unfold StatusCache.remove
  cases hf : c.attributes.find? attr with
  | none =>
      show listed c attr' = _
      split
      · rename_i heq
        rw [heq]
        exact congrArg (·.getD []) hf
      · rfl
  | some keys =>
      show ((c.attributes.erase attr).find? attr').getD [] = _
      rw [OrdMap.find?_erase]
      split
      · rfl
      · rfl

theorem inWindow_save {m : UInt64} {s : State} {block : Nat} {status : TransactionStatus}
    {hash : Blob} :
    InWindow m (save s block status) hash ↔
      status.transaction = hash ∧ s.mainBlock < block + m.toNat ∨ InWindow m s hash := by
  unfold InWindow save
  simp only [List.mem_cons, exists_eq_or_imp]

theorem kept_start {m : UInt64} {a b : Nat} : Kept m (start a b) := by
  intro _
  refine iff_of_false (by simp [start, StatusCache.getValue]) ?_
  rintro ⟨_, h, _⟩
  exact absurd h List.not_mem_nil

theorem lists_start {m : UInt64} {a b : Nat} : Lists m (start a b) where
  window _ h := absurd h List.not_mem_nil
  recorded _ _ h := absurd h List.not_mem_nil

/-- Saving a status keeps the window iff the transaction is in it then. -/
theorem kept_save {m : UInt64} {s : State} {block : Nat} {status : TransactionStatus}
    (h : Kept m s) :
    Kept m (save s block status) ↔ InWindow m (save s block status) status.transaction := by
  constructor
  · intro hkept
    exact (hkept status.transaction).mp (isSome_getValue_addValue.mpr (Or.inl rfl))
  · intro hin hash
    show ((s.cache.addValue status.transaction _ status).getValue hash).isSome ↔ _
    rw [isSome_getValue_addValue, h hash, inWindow_save]
    constructor
    · rintro (rfl | hwindow)
      · exact inWindow_save.mp hin
      · exact Or.inr hwindow
    · rintro (⟨rfl, _⟩ | hwindow)
      · exact Or.inl rfl
      · exact Or.inr hwindow

theorem lists_save {m : UInt64} {s : State} {block : Nat} {status : TransactionStatus}
    (h : Lists m s) : Lists m (save s block status) where
  window e he hlive := by
    show e.2 ∈ listed (s.cache.addValue status.transaction _ status) _
    rw [listed_addValue]
    rcases List.mem_cons.mp he with rfl | he
    · rw [if_pos rfl]
      exact List.mem_append_right _ List.mem_cons_self
    · have hold := h.window e he hlive
      split
      · rename_i heq
        rw [heq] at hold
        exact List.mem_append_left _ hold
      · exact hold
  recorded attr hash hmem := by
    have hmem : hash ∈ listed (s.cache.addValue status.transaction _ status) attr := hmem
    rw [listed_addValue] at hmem
    have hold : ∀ attr', hash ∈ listed s.cache attr' →
        ∃ e ∈ (save s block status).recorded, e.2 = hash ∧ UInt64.ofNat e.1 = attr' := by
      intro attr' hlisted
      obtain ⟨e, he, heq⟩ := h.recorded attr' hash hlisted
      exact ⟨e, List.mem_cons_of_mem _ he, heq⟩
    split at hmem
    · rename_i hattr
      rcases List.mem_append.mp hmem with hmem | hmem
      · rw [hattr]
        exact hold _ hmem
      · exact ⟨_, List.mem_cons_self, (List.mem_singleton.mp hmem).symm, hattr.symm⟩
    · exact hold attr hmem

/-- What the cache still knows when the main worker has finished a block. -/
theorem isSome_getValue_mainEnds {m : UInt64} {s : State} (h : Kept m s) {hash : Blob} :
    ((step m s .mainEnds).cache.getValue hash).isSome ↔
      hash ∉ listed s.cache (leaving m (s.mainBlock + 1)) ∧ InWindow m s hash := by
  show ((s.cache.remove _).getValue hash).isSome ↔ _
  rw [getValue_remove, ← h hash]
  split
  · rename_i hmem
    exact iff_of_false (by simp) (fun hnot => hnot.1 hmem)
  · rename_i hmem
    rw [and_iff_right hmem]

theorem inWindow_of_mainEnds {m : UInt64} {s : State} {hash : Blob}
    (h : InWindow m (step m s .mainEnds) hash) : InWindow m s hash := by
  obtain ⟨e, he, heq, hlive⟩ := h
  have hlive : s.mainBlock + 1 < e.1 + m.toNat := hlive
  exact ⟨e, he, heq, by omega⟩

/-- The attribute that is removed is the one of the block that leaves the window. -/
theorem leaving_eq {m : UInt64} {block k : Nat} (h : k + m.toNat = block) :
    UInt64.ofNat k = leaving m block := by
  unfold leaving
  rw [← h, UInt64.ofNat_add, UInt64.ofNat_toNat, UInt64.add_sub_cancel]

theorem kept_mainEnds {m : UInt64} {s : State} (h : Kept m s) (hlists : Lists m s)
    (hallowed : Allowed m s .mainEnds) : Kept m (step m s .mainEnds) := by
  intro hash
  rw [isSome_getValue_mainEnds h]
  constructor
  · rintro ⟨hmem, e, he, rfl, hlive⟩
    refine ⟨e, he, rfl, ?_⟩
    -- otherwise it is the block that leaves, and the transaction is listed there
    by_contra hout
    have hout : ¬ s.mainBlock + 1 < e.1 + m.toNat := hout
    have hblock : e.1 + m.toNat = s.mainBlock + 1 := by omega
    exact hmem (leaving_eq hblock ▸ hlists.window e he hlive)
  · intro hin
    refine ⟨fun hmem => ?_, inWindow_of_mainEnds hin⟩
    obtain ⟨e', he', rfl, hattr⟩ := hlists.recorded _ hash hmem
    obtain ⟨e, he, heq, hlive⟩ := hin
    have hle := hallowed e' he' hattr e he heq
    have hlive : s.mainBlock + 1 < e.1 + m.toNat := hlive
    omega

/-- The converse; the number of a block is a `size_t`. -/
theorem allowed_of_kept_mainEnds {m : UInt64} {s : State} (h : Kept m s) (hlists : Lists m s)
    (hsize : s.mainBlock + 1 < 2 ^ 64) (hkept : Kept m (step m s .mainEnds)) :
    Allowed m s .mainEnds := by
  intro e he hattr e' he' heq
  by_contra hlive
  have hin : InWindow m (step m s .mainEnds) e.2 := ⟨e', he', heq, Nat.lt_of_not_le hlive⟩
  have hnot := ((isSome_getValue_mainEnds h).mp ((hkept e.2).mpr hin)).1
  rw [← hattr] at hnot
  refine hnot (hlists.window e he ?_)
  -- a block that left the window before would have the number of the one that leaves it now
  by_contra hout
  have hsum : UInt64.ofNat (e.1 + m.toNat) = UInt64.ofNat (s.mainBlock + 1) := by
    rw [UInt64.ofNat_add, UInt64.ofNat_toNat, hattr]
    unfold leaving
    rw [UInt64.sub_add_cancel]
  have hsmall : e.1 + m.toNat < 2 ^ 64 := by omega
  have hsum := congrArg UInt64.toNat hsum
  rw [UInt64.toNat_ofNat_of_lt' hsmall, UInt64.toNat_ofNat_of_lt' hsize] at hsum
  omega

theorem lists_mainEnds {m : UInt64} {s : State} (h : Lists m s)
    (hallowed : Allowed m s .mainEnds) : Lists m (step m s .mainEnds) where
  window e he hlive := by
    have hlive : s.mainBlock + 1 < e.1 + m.toNat := hlive
    show e.2 ∈ listed (s.cache.remove _) _
    rw [listed_remove]
    split
    · rename_i hattr
      have hle := hallowed e he hattr e he rfl
      omega
    · exact h.window e he (by omega)
  recorded attr hash hmem := by
    have hmem : hash ∈ listed (s.cache.remove _) attr := hmem
    rw [listed_remove] at hmem
    split at hmem
    · exact absurd hmem List.not_mem_nil
    · exact h.recorded attr hash hmem

/-- A status saved by the script worker is in the window iff this is allowed. -/
theorem inWindow_scriptSaves {m : UInt64} {s : State} {status : TransactionStatus} :
    InWindow m (step m s (.scriptSaves status)) status.transaction ↔
      Allowed m s (.scriptSaves status) := by
  unfold step Allowed
  rw [inWindow_save, eq_self_iff_true, true_and]

/-- **An allowed step keeps the window.** -/
theorem kept_step {m : UInt64} {s : State} {a : Action} (h : Kept m s) (hlists : Lists m s)
    (hallowed : Allowed m s a) : Kept m (step m s a) := by
  cases a with
  | mainSaves status =>
      refine (kept_save h).mpr (inWindow_save.mpr (Or.inl ⟨rfl, ?_⟩))
      omega
  | mainEnds => exact kept_mainEnds h hlists hallowed
  | scriptSaves status => exact (kept_save h).mpr (inWindow_scriptSaves.mpr hallowed)
  | scriptEnds => exact h

/-- **And only an allowed step does.** -/
theorem allowed_of_kept {m : UInt64} {s : State} {a : Action} (h : Kept m s) (hlists : Lists m s)
    (hsize : s.mainBlock + 1 < 2 ^ 64) (hkept : Kept m (step m s a)) : Allowed m s a := by
  cases a with
  | mainSaves status => trivial
  | mainEnds => exact allowed_of_kept_mainEnds h hlists hsize hkept
  | scriptSaves status => exact inWindow_scriptSaves.mp ((kept_save h).mp hkept)
  | scriptEnds => trivial

theorem lists_step {m : UInt64} {s : State} {a : Action} (h : Lists m s)
    (hallowed : Allowed m s a) : Lists m (step m s a) := by
  cases a with
  | mainSaves status => exact lists_save h
  | mainEnds => exact lists_mainEnds h hallowed
  | scriptSaves status => exact lists_save h
  | scriptEnds => exact ⟨h.window, h.recorded⟩

/-! ## What a run preserves -/

theorem kept_run {m : UInt64} : ∀ (actions : List Action) {s : State}, Kept m s → Lists m s →
    Met m s actions → Kept m (run m s actions) ∧ Lists m (run m s actions)
  | [], _, hkept, hlists, _ => ⟨hkept, hlists⟩
  | _ :: actions, _, hkept, hlists, hmet =>
      kept_run actions (kept_step hkept hlists hmet.1) (lists_step hlists hmet.1) hmet.2

theorem mainBlock_le_step (m : UInt64) (s : State) (a : Action) :
    s.mainBlock ≤ (step m s a).mainBlock := by
  cases a with
  | mainEnds => exact Nat.le_succ _
  | _ => exact le_refl _

theorem mainBlock_le_run (m : UInt64) : ∀ (actions : List Action) (s : State),
    s.mainBlock ≤ (run m s actions).mainBlock
  | [], _ => le_refl _
  | a :: actions, s => (mainBlock_le_step m s a).trans (mainBlock_le_run m actions (step m s a))

/-- The condition on a run is exact: a run that keeps the window at every moment, up to a block
whose number is a `size_t`, takes allowed steps only. -/
theorem met_of_kept {m : UInt64} : ∀ (actions : List Action) {s : State}, Kept m s → Lists m s →
    (run m s actions).mainBlock + 1 < 2 ^ 64 →
    (∀ done, done <+: actions → Kept m (run m s done)) → Met m s actions
  | [], _, _, _, _, _ => trivial
  | a :: actions, s, hkept, hlists, hsize, hall => by
      have hfirst : Kept m (step m s a) :=
        hall [a] (List.cons_prefix_cons.mpr ⟨rfl, List.nil_prefix⟩)
      have hle : s.mainBlock ≤ (run m s (a :: actions)).mainBlock :=
        mainBlock_le_run m (a :: actions) s
      have hallowed := allowed_of_kept hkept hlists (by omega) hfirst
      refine ⟨hallowed, met_of_kept actions hfirst (lists_step hlists hallowed) hsize ?_⟩
      exact fun done hdone => hall (a :: done) (List.cons_prefix_cons.mpr ⟨rfl, hdone⟩)

/-- Both workers have processed block `n`, and none has begun the next one. -/
def BothProcessed (s : State) (n : Nat) : Prop :=
  s.mainBlock = n ∧ s.scriptBlock = n ∧ ∀ e ∈ s.recorded, e.1 ≤ n

instance {s : State} {n : Nat} : Decidable (BothProcessed s n) :=
  inferInstanceAs (Decidable (_ ∧ _ ∧ _))

/-- The statuses that were recorded for the blocks in `(n - m, n]`. -/
def window (m : UInt64) (s : State) (n : Nat) : List (Nat × Blob) :=
  s.recorded.filter (fun e => n < e.1 + m.toNat && decide (e.1 ≤ n))

theorem inWindow_iff_window {m : UInt64} {s : State} {n : Nat} (h : BothProcessed s n)
    {hash : Blob} : InWindow m s hash ↔ hash ∈ (window m s n).map Prod.snd := by
  obtain ⟨rfl, _, hle⟩ := h
  unfold InWindow window
  simp only [List.mem_map, List.mem_filter, Bool.and_eq_true, decide_eq_true_eq]
  constructor
  · rintro ⟨e, he, heq, hlive⟩
    exact ⟨e, ⟨he, hlive, hle e he⟩, heq⟩
  · rintro ⟨e, ⟨he, hlive, _⟩, heq⟩
    exact ⟨e, he, heq, hlive⟩

/-- What the cache holds is a set of transactions of the window. -/
theorem length_le_window {m : UInt64} {s : State} {n : Nat} (hkept : Kept m s)
    (h : BothProcessed s n) : s.cache.map.entries.length ≤ (window m s n).length := by
  have hnodup : (s.cache.map.entries.map Prod.fst).Nodup :=
    List.pairwise_map.mpr (s.cache.map.increasing.imp (fun hlt => ne_of_lt hlt))
  have hsub : s.cache.map.entries.map Prod.fst ⊆ (window m s n).map Prod.snd := by
    intro hash hmem
    obtain ⟨e, he, rfl⟩ := List.mem_map.mp hmem
    refine (inWindow_iff_window h).mp ((hkept e.1).mp ?_)
    exact Option.isSome_iff_exists.mpr ⟨e.2, OrdMap.mem_entries.mp he⟩
  have hle := (List.subperm_of_subset hnodup hsub).length_le
  rwa [List.length_map, List.length_map] at hle

/-- **In a run whose steps are all allowed, the cache knows the transactions of the last `m`
blocks and no others, each time when both workers have processed the same block.** -/
theorem getValue_iff_window {m : UInt64} {a b n : Nat} {actions : List Action}
    (hmet : Met m (start a b) actions) (hn : BothProcessed (run m (start a b) actions) n) :
    (∀ hash, ((run m (start a b) actions).cache.getValue hash).isSome ↔
      ∃ e ∈ (run m (start a b) actions).recorded,
        e.2 = hash ∧ n < e.1 + m.toNat ∧ e.1 ≤ n) ∧
    (run m (start a b) actions).cache.map.entries.length ≤
      (window m (run m (start a b) actions) n).length := by
  have hkept := (kept_run actions kept_start lists_start hmet).1
  refine ⟨fun hash => ?_, length_le_window hkept hn⟩
  rw [hkept hash, inWindow_iff_window hn]
  unfold window
  simp only [List.mem_map, List.mem_filter, Bool.and_eq_true, decide_eq_true_eq]
  constructor
  · rintro ⟨e, ⟨he, hlive⟩, heq⟩
    exact ⟨e, he, heq, hlive⟩
  · rintro ⟨e, he, heq, hlive⟩
    exact ⟨e, ⟨he, hlive⟩, heq⟩

/-- A status of a transaction that is told apart by one byte. -/
def statusOf (byte : UInt8) : TransactionStatus :=
  TransactionStatus.new (Blob.replicate 1 byte Blob.byte_fits) 0

/-- Three blocks with statuses of both workers; the script worker is up to a block behind. -/
def threeBlocks : List Action :=
  [.mainSaves (statusOf 1), .mainEnds, .scriptSaves (statusOf 2), .mainSaves (statusOf 3),
    .scriptEnds, .mainEnds, .scriptSaves (statusOf 4), .scriptEnds, .mainEnds, .scriptEnds]

theorem getValue_iff_window_threeBlocks :
    (∀ hash, ((run 2 (start 0 0) threeBlocks).cache.getValue hash).isSome ↔
      ∃ e ∈ (run 2 (start 0 0) threeBlocks).recorded,
        e.2 = hash ∧ 3 < e.1 + (2 : UInt64).toNat ∧ e.1 ≤ 3) ∧
    (run 2 (start 0 0) threeBlocks).cache.map.entries.length ≤
      (window 2 (run 2 (start 0 0) threeBlocks) 3).length :=
  getValue_iff_window (by decide) (by decide)

/-- Without a window the script worker fills the cache for good as soon as it is behind. -/
def lateScript : List Action := [.mainEnds, .scriptSaves (statusOf 1), .scriptEnds]

theorem getValue_ne_window_lateScript :
    ¬ ∀ (m : UInt64) (a b n : Nat) (actions : List Action),
      BothProcessed (run m (start a b) actions) n →
        (∀ hash, ((run m (start a b) actions).cache.getValue hash).isSome ↔
          ∃ e ∈ (run m (start a b) actions).recorded,
            e.2 = hash ∧ n < e.1 + m.toNat ∧ e.1 ≤ n) ∧
        (run m (start a b) actions).cache.map.entries.length ≤
          (window m (run m (start a b) actions) n).length := by
  intro h
  have hle := (h 0 0 0 1 lateScript (by decide)).2
  exact absurd hle (by decide)

/-- A transaction with statuses in two blocks goes with the first of them. -/
example : (run 1 (start 0 0) [.mainSaves (statusOf 1), .mainEnds, .mainSaves (statusOf 1),
    .mainEnds]).cache.map.entries = [] := by decide

end StatusWindow

end TorrentNode
