import Mathlib.Data.List.Nodup
import TorrentNode.BlockSource.Network

/-!
# The batches of a block source

Each entry has a block number at which it is due: a block of the chain and a sign
block before it at its own number, a sign block behind it at the next one. However a
batch is put together, its entries come in the order in which they are due, numbered
from the next block to read on, and each sign block is there under a name once.
-/

namespace TorrentNode

namespace NetworkBlockSource

/-! ## Entries in their places -/

namespace AdvancedBlock

/-- The next block to read when the entry is handed over. -/
def due (a : AdvancedBlock) : Nat :=
  match a.pos with
  | .afterBlock => a.header.number + 1
  | _ => a.header.number

/-- An entry that is not behind another in the order of a batch. -/
def Precedes (a b : AdvancedBlock) : Prop :=
  (a.pos = .beforeBlock → b.pos = .block → a.header.number ≤ b.header.number) ∧
  (a.pos = .block → b.pos = .beforeBlock → a.header.number < b.header.number) ∧
  (a.pos = .afterBlock → b.pos = .block → a.header.number < b.header.number) ∧
  (a.pos = .block → b.pos = .afterBlock → a.header.number ≤ b.header.number)

theorem isBlock_iff {a : AdvancedBlock} : a.isBlock = true ↔ a.pos = .block := by
  simp [isBlock]

theorem due_of_isBlock {a : AdvancedBlock} (h : a.isBlock = true) : a.due = a.header.number := by
  rw [due, isBlock_iff.mp h]

/-- What the order of the keys says. -/
theorem of_key_lt {a b : AdvancedBlock} (h : a.key < b.key) :
    a.header.number < b.header.number ∨
      a.header.number = b.header.number ∧ a.pos.index ≤ b.pos.index := by
  rcases Prod.Lex.toLex_lt_toLex.mp h with h | ⟨hn, h⟩
  · exact Or.inl h
  · refine Or.inr ⟨hn, ?_⟩
    rcases Prod.Lex.toLex_lt_toLex.mp h with h | ⟨hp, -⟩
    · exact Nat.le_of_lt h
    · exact Nat.le_of_eq (congrArg BlockPos.index hp)

end AdvancedBlock

/-- The numbers of the blocks of the chain. -/
def blockNumbers (l : List AdvancedBlock) : List Nat :=
  (l.filter AdvancedBlock.isBlock).map (fun a => a.header.number)

/-- Each entry is due when its turn comes, from this next block to read on. -/
def Placed : Nat → List AdvancedBlock → Prop
  | _, [] => True
  | n, a :: l => a.due = n ∧ Placed (if a.isBlock then n + 1 else n) l

theorem placed_append {n : Nat} : ∀ {l l' : List AdvancedBlock},
    Placed n (l ++ l') ↔ Placed n l ∧ Placed (n + l.countP AdvancedBlock.isBlock) l'
  | [], l' => by simp [Placed]
  | a :: l, l' => by
      rw [List.cons_append, Placed, Placed, placed_append, List.countP_cons, and_assoc]
      cases a.isBlock <;> simp [Nat.add_comm, Nat.add_left_comm]

/-- Blocks in their places are numbered one after the other. -/
theorem Placed.blockNumbers : ∀ {n : Nat} {l : List AdvancedBlock}, Placed n l →
    blockNumbers l = List.range' n (l.countP AdvancedBlock.isBlock)
  | _, [], _ => rfl
  | n, a :: l, h => by
      obtain ⟨hdue, hrest⟩ := h
      have ih := Placed.blockNumbers hrest
      unfold NetworkBlockSource.blockNumbers at ih ⊢
      by_cases hb : a.isBlock = true
      · rw [if_pos hb] at ih
        rw [List.filter_cons_of_pos hb, List.map_cons, ih, List.countP_cons_of_pos hb,
          List.range'_succ, ← AdvancedBlock.due_of_isBlock hb, hdue]
      · rw [if_neg hb] at ih
        rw [List.filter_cons_of_neg hb, ih, List.countP_cons_of_neg hb]

theorem Placed.le_due : ∀ {n : Nat} {l : List AdvancedBlock}, Placed n l → ∀ a ∈ l, n ≤ a.due
  | n, b :: l, h, a, ha => by
      obtain ⟨hdue, hrest⟩ := h
      rcases List.mem_cons.mp ha with rfl | ha
      · exact Nat.le_of_eq hdue.symm
      · have hle := Placed.le_due hrest a ha
        split at hle <;> omega

/-- Entries in their places are in order. -/
theorem Placed.precedes : ∀ {n : Nat} {l : List AdvancedBlock}, Placed n l →
    l.Pairwise AdvancedBlock.Precedes
  | _, [], _ => List.Pairwise.nil
  | n, a :: l, h => by
      obtain ⟨hdue, hrest⟩ := h
      refine List.pairwise_cons.mpr ⟨?_, Placed.precedes hrest⟩
      intro b hb
      have hle := Placed.le_due hrest b hb
      -- what is behind a block is due later than the block
      refine ⟨?_, ?_, ?_, ?_⟩ <;> intro hpa hpb <;>
        simp [AdvancedBlock.isBlock, AdvancedBlock.due, hpa, hpb] at hle hdue <;> omega

/-- What was delivered before an entry: all blocks below the one it is due at. -/
theorem Placed.before {n : Nat} {l pre post : List AdvancedBlock} {a : AdvancedBlock}
    (h : Placed n l) (hl : l = pre ++ a :: post) :
    NetworkBlockSource.blockNumbers pre = List.range' n (a.due - n) := by
  subst hl
  obtain ⟨hpre, hdue, -⟩ := placed_append.mp h
  rw [hpre.blockNumbers, hdue, Nat.add_sub_cancel_left]

/-- **Entries in the order of their keys are in their places**, when the blocks among them are
numbered one after the other and the sign blocks lie around those. -/
theorem placed_of_increasing : ∀ {n k : Nat} {l : List AdvancedBlock},
    l.Pairwise (fun a b => a.key < b.key) →
    blockNumbers l = List.range' n k →
    (∀ a ∈ l, n ≤ a.due ∧ a.header.number < n + k) → Placed n l
  | _, _, [], _, _, _ => trivial
  -- By induction on the entries: the first is a block, or it is due at the next one.
  | n, k, a :: l, hlt, hnum, hin => by
      obtain ⟨hhead, htail⟩ := List.pairwise_cons.mp hlt
      obtain ⟨hdue, hnumber⟩ := hin a List.mem_cons_self
      have hrest : ∀ b ∈ l, n ≤ b.due ∧ b.header.number < n + k :=
        fun b hb => hin b (List.mem_cons_of_mem _ hb)
      unfold blockNumbers at hnum
      by_cases hb : a.isBlock = true
      · -- the first block is the next one to read
        rw [List.filter_cons_of_pos hb, List.map_cons] at hnum
        cases k with
        | zero => simp at hnum
        | succ k =>
          rw [List.range'_succ] at hnum
          obtain ⟨hna, hnum⟩ := List.cons.inj hnum
          refine ⟨(AdvancedBlock.due_of_isBlock hb).trans hna, ?_⟩
          rw [if_pos hb]
          refine placed_of_increasing htail hnum (fun b hbl => ?_)
          obtain ⟨hdueb, hnb⟩ := hrest b hbl
          refine ⟨?_, by omega⟩
          have hkey := AdvancedBlock.of_key_lt (hhead b hbl)
          rw [AdvancedBlock.isBlock_iff.mp hb] at hkey
          cases hpb : b.pos with
          | beforeBlock => simp [BlockPos.index, hpb, AdvancedBlock.due] at hkey hdueb ⊢; omega
          | block =>
            have hmem : b.header.number ∈ List.range' (n + 1) k := by
              rw [← hnum]
              exact List.mem_map.mpr
                ⟨b, List.mem_filter.mpr ⟨hbl, AdvancedBlock.isBlock_iff.mpr hpb⟩, rfl⟩
            rw [AdvancedBlock.due, hpb]
            exact (List.mem_range'_1.mp hmem).1
          | afterBlock => simp [BlockPos.index, hpb, AdvancedBlock.due] at hkey hdueb ⊢; omega
      · rw [List.filter_cons_of_neg hb] at hnum
        refine ⟨?_, ?_⟩
        · -- otherwise the block it is due at would be behind it, with a smaller key
          by_contra hne
          have hk : 0 < k := by
            cases hpa : a.pos <;> simp [AdvancedBlock.due, hpa] at hdue hne <;> omega
          have hfirst : n ∈ (l.filter AdvancedBlock.isBlock).map (fun a => a.header.number) := by
            rw [hnum]
            exact List.mem_range'_1.mpr ⟨Nat.le_refl _, by omega⟩
          obtain ⟨b, hbl, hbn⟩ := List.mem_map.mp hfirst
          obtain ⟨hbl, hbb⟩ := List.mem_filter.mp hbl
          have hkey := AdvancedBlock.of_key_lt (hhead b hbl)
          rw [AdvancedBlock.isBlock_iff.mp hbb] at hkey
          cases hpa : a.pos with
          | block => exact hb (AdvancedBlock.isBlock_iff.mpr hpa)
          | beforeBlock =>
            simp [AdvancedBlock.due, hpa, BlockPos.index] at hkey hdue hne
            omega
          | afterBlock =>
            simp [AdvancedBlock.due, hpa, BlockPos.index] at hkey hdue hne
            omega
        · rw [if_neg hb]
          exact placed_of_increasing htail hnum hrest

/-! ## What a batch is made of -/

variable {env : Env} {timeline : BlocksTimeline}

/-- The same source with other caches and another map. -/
def withLoaded (s : NetworkBlockSource) (g : GetNewBlocksFromServer)
    (m : OrdMap Key AdvancedBlock) : NetworkBlockSource :=
  { s with getterBlocks := g, advancedBlocks := m }

theorem readAdvanced_pos (env : Env) (s : NetworkBlockSource) (n : Nat) :
    (readAdvanced env s n).1.pos = .block := by
  unfold readAdvanced
  split
  · rfl
  · split <;> rfl

/-- The entries of a map, each under its own key. -/
def keyed (l : List AdvancedBlock) : List (Key × AdvancedBlock) := l.map (fun a => (a.key, a))

/-- **The loop over the new blocks** leaves entries numbered one after the other. -/
theorem loadAdvanced_ok : ∀ {k n : Nat} {s s' : NetworkBlockSource} {old : List AdvancedBlock},
    loadAdvanced env (List.range' n k) s = (.ok (), s') →
    s.advancedBlocks.entries = keyed old → (∀ a ∈ old, a.header.number < n) →
    ∃ blocks g m, s' = s.withLoaded g m ∧ m.entries = keyed (old ++ blocks) ∧
      blocks.map (fun a => a.header.number) = List.range' n k ∧ ∀ a ∈ blocks, a.isBlock = true
  | 0, n, s, s', old, h, hold, _ => by
      cases h
      exact ⟨[], s.getterBlocks, s.advancedBlocks, rfl, by rw [List.append_nil]; exact hold, rfl,
        by simp⟩
  -- By induction on the blocks: each is put behind all that are there.
  | k + 1, n, s, s', old, h, hold, hlt => by
      rw [List.range'_succ, loadAdvanced] at h
      rcases hread : readAdvanced env s n with ⟨a, g⟩
      have hblock : a.isBlock = true :=
        AdvancedBlock.isBlock_iff.mpr (by rw [← readAdvanced_pos env s n, hread])
      rw [hread] at h
      dsimp only at h
      by_cases hcrash : a.exception = some .crash
      · rw [if_pos hcrash] at h
        cases h
      rw [if_neg hcrash] at h
      by_cases hn : n = a.header.number
      · rw [if_pos hn] at h
        -- Its number is greater, so its key is.
        have hbehind : ∀ e ∈ s.advancedBlocks.entries, e.1 < a.key := by
          rw [hold]
          rintro e he
          obtain ⟨b, hb, rfl⟩ := List.mem_map.mp he
          exact Prod.Lex.toLex_lt_toLex.mpr (Or.inl (hn ▸ hlt b hb))
        have hnone : s.advancedBlocks.find? a.key = none := by
          cases hf : s.advancedBlocks.find? a.key with
          | none => rfl
          | some b => exact absurd (hbehind _ (OrdMap.mem_entries.mpr hf)) (lt_irrefl _)
        have hentries : (s.advancedBlocks.emplace a.key a).entries = keyed (old ++ [a]) := by
          rw [OrdMap.entries_emplace_of_none hnone, OrdMap.put_of_forall_lt hbehind, hold]
          simp [keyed]
        obtain ⟨blocks, g', m, rfl, hm, hnum, hall⟩ := loadAdvanced_ok h hentries (by
          intro b hb
          rcases List.mem_append.mp hb with hb | hb
          · exact Nat.lt_succ_of_lt (hlt b hb)
          · rw [List.mem_singleton.mp hb, ← hn]
            exact Nat.lt_succ_self n)
        refine ⟨a :: blocks, g', m, rfl, ?_, ?_, ?_⟩
        · rw [hm, List.append_assoc]
          rfl
        · rw [List.map_cons, hnum, ← hn, List.range'_succ]
        · intro b hb
          rcases List.mem_cons.mp hb with rfl | hb
          · exact hblock
          · exact hall b hb
      · rw [if_neg hn] at h
        cases h

theorem loadAdvanced_withLoaded : ∀ {l : List Nat} {s s' : NetworkBlockSource} {r : Except Err Unit},
    loadAdvanced env l s = (r, s') → ∃ g m, s' = s.withLoaded g m
  | [], s, s', r, h => by
      cases h
      exact ⟨s.getterBlocks, s.advancedBlocks, rfl⟩
  | n :: l, s, s', r, h => by
      rw [loadAdvanced] at h
      dsimp only at h
      split at h
      · cases h
        exact ⟨_, s.advancedBlocks, rfl⟩
      · split at h
        · obtain ⟨g, m, rfl⟩ := loadAdvanced_withLoaded h
          exact ⟨g, m, rfl⟩
        · cases h
          exact ⟨_, s.advancedBlocks, rfl⟩

theorem withoutRepeats_spec : ∀ (seen : List Blob) (l : List AdditingBlock),
    (withoutRepeats seen l).Sublist l ∧
      ((withoutRepeats seen l).map AdditingBlock.hash).Nodup ∧
      ∀ b ∈ withoutRepeats seen l, b.hash ∉ seen
  | seen, [] => ⟨List.Sublist.refl _, List.nodup_nil, by simp [withoutRepeats]⟩
  | seen, b :: l => by
      rw [withoutRepeats]
      by_cases hin : b.hash ∈ seen
      · obtain ⟨hsub, hnd, hnot⟩ := withoutRepeats_spec seen l
        rw [if_pos hin]
        exact ⟨hsub.cons _, hnd, hnot⟩
      · obtain ⟨hsub, hnd, hnot⟩ := withoutRepeats_spec (b.hash :: seen) l
        rw [if_neg hin]
        refine ⟨hsub.cons_cons _, ?_, ?_⟩
        · rw [List.map_cons, List.nodup_cons]
          refine ⟨?_, hnd⟩
          intro hmem
          obtain ⟨c, hc, hcb⟩ := List.mem_map.mp hmem
          exact hnot c hc (hcb ▸ List.mem_cons_self)
        · intro c hc
          rcases List.mem_cons.mp hc with rfl | hc
          · exact hin
          · exact fun hcs => hnot c hc (List.mem_cons_of_mem _ hcs)

theorem advanced_isBlock (b : AdditingBlock) (dump : Blob) : (b.advanced dump).isBlock = false := by
  unfold AdvancedBlock.isBlock AdditingBlock.advanced
  cases b.afterBlock <;> rfl

/-- **The loop over the sign blocks** adds entries for these only. -/
theorem loadAdditings_withLoaded : ∀ {blocks : List AdditingBlock} {s s' : NetworkBlockSource}
    {r : Except Err Unit}, loadAdditings env blocks s = (r, s') →
    ∃ g m, s' = s.withLoaded g m ∧
      m.entries.filter (fun e => e.2.isBlock) =
        s.advancedBlocks.entries.filter (fun e => e.2.isBlock) ∧
      ∀ e ∈ m.entries, e ∈ s.advancedBlocks.entries ∨
        ∃ b ∈ blocks, ∃ dump, e = ((b.advanced dump).key, b.advanced dump)
  | [], s, s', r, h => by
      cases h
      exact ⟨s.getterBlocks, s.advancedBlocks, rfl, rfl, fun e he => Or.inl he⟩
  | b :: blocks, s, s', r, h => by
      rw [loadAdditings] at h
      split at h
      · cases h
        exact ⟨_, s.advancedBlocks, rfl, rfl, fun e he => Or.inl he⟩
      · rename_i dump g _
        obtain ⟨g', m, rfl, hfilter, hmem⟩ := loadAdditings_withLoaded h
        refine ⟨g', m, rfl, ?_, ?_⟩
        · rw [hfilter]
          exact OrdMap.filter_emplace (advanced_isBlock b dump)
        · intro e he
          rcases hmem e he with he | ⟨c, hc, d, hd⟩
          · rcases OrdMap.mem_entries_emplace he with he | he
            · exact Or.inr ⟨b, List.mem_cons_self, dump, he⟩
            · exact Or.inl he
          · exact Or.inr ⟨c, List.mem_cons_of_mem _ hc, d, hd⟩

/-! ## Parsed entries -/

theorem parseAdvanced_header (env : Env) (a : AdvancedBlock) :
    (parseAdvanced env a).header = a.header ∧ (parseAdvanced env a).pos = a.pos := by
  unfold parseAdvanced
  split
  · exact ⟨rfl, rfl⟩
  · split
    · exact ⟨rfl, rfl⟩
    · dsimp only
      split <;> exact ⟨rfl, rfl⟩

theorem parseAdvanced_key (a : AdvancedBlock) : (parseAdvanced env a).key = a.key := by
  obtain ⟨hheader, hpos⟩ := parseAdvanced_header env a
  rw [AdvancedBlock.key, AdvancedBlock.key, hheader, hpos]

theorem parseAdvanced_isBlock (a : AdvancedBlock) :
    (parseAdvanced env a).isBlock = a.isBlock := by
  rw [AdvancedBlock.isBlock, AdvancedBlock.isBlock, (parseAdvanced_header env a).2]

theorem visitParsed_hash {hash basename : Blob} {signBlock : Option BlockSignatureCheckResult}
    {tmp : NextBlockInfo} {bi : ParsedBlock} (h : visitParsed hash basename signBlock tmp = .ok bi) :
    bi.hash = hash := by
  cases tmp with
  | monostate => cases h
  | rejected => cases h
  | block b =>
    obtain ⟨heq, h⟩ := check_bind_eq_ok.mp h
    obtain rfl := Except.ok.inj h
    rw [← eq_of_beq heq]
    cases signBlock <;> rfl
  | sign b =>
    obtain ⟨heq, h⟩ := check_bind_eq_ok.mp h
    obtain rfl := Except.ok.inj h
    rw [← eq_of_beq heq]
    cases signBlock <;> rfl

/-- **What is parsed has the hash it was requested by.** -/
theorem parseAdvanced_hash {a : AdvancedBlock} (h : (parseAdvanced env a).exception = none) :
    env.fromHex (parseAdvanced env a).header.hash = .ok (parseAdvanced env a).bi.hash := by
  rw [(parseAdvanced_header env a).1]
  unfold parseAdvanced at h ⊢
  split
  · rename_i he
    rw [if_pos he] at h
    rw [h] at he
    cases he
  · rename_i he
    rw [if_neg he] at h
    split
    · rename_i heq
      rw [heq] at h
      cases h
    · rename_i signBlock heq
      rw [heq] at h
      dsimp only at h ⊢
      split
      · rename_i hparse
        rw [hparse] at h
        cases h
      · rename_i bi hparse
        obtain ⟨-, hparse⟩ := check_bind_eq_ok.mp hparse
        obtain ⟨hash, hhash, hparse⟩ := bind_eq_ok.mp hparse
        obtain ⟨tmp, -, hparse⟩ := bind_eq_ok.mp hparse
        obtain ⟨basename, -, hparse⟩ := bind_eq_ok.mp hparse
        rw [hhash, visitParsed_hash hparse]

/-! ## A batch -/

/-- A sign block that is not on the timeline. -/
def Fresh (env : Env) (timeline : BlocksTimeline) (b : AdditingBlock) : Prop :=
  ∃ hash, env.fromHex b.hash = .ok hash ∧ timeline.hashes.find? hash = none

/-- What a new batch of entries is, the sign blocks to load being these. -/
structure IsBatch (env : Env) (timeline : BlocksTimeline) (n : Nat) (L : List AdditingBlock)
    (entries : List AdvancedBlock) : Prop where
  placed : Placed n entries
  parsed : ∀ a ∈ entries, a.exception = none → env.fromHex a.header.hash = .ok a.bi.hash
  /-- Sign blocks are new to the timeline. -/
  fresh : ∀ a ∈ entries, a.isBlock = false →
    ∃ hash, env.fromHex a.header.hash = .ok hash ∧ timeline.hashes.find? hash = none
  /-- Each is there once: under its name, and under whatever else tells the names apart. -/
  once : ∀ {T : Type} (f : Blob → T),
    (∀ x ∈ L, ∀ y ∈ L, Fresh env timeline x → f x.hash = f y.hash → x.hash = y.hash) →
      ((entries.filter (fun a => !a.isBlock)).map (fun a => f a.header.hash)).Nodup

/-- The map of a batch: blocks numbered from `n` on, and entries of some of these sign blocks. -/
structure IsLoaded (n : Nat) (blocks : List AdvancedBlock) (L : List AdditingBlock)
    (m : OrdMap Key AdvancedBlock) : Prop where
  numbers : blocks.map (fun a => a.header.number) = List.range' n blocks.length
  isBlock : ∀ a ∈ blocks, a.isBlock = true
  filter : m.entries.filter (fun e => e.2.isBlock) = keyed blocks
  mem : ∀ e ∈ m.entries, e ∈ keyed blocks ∨
    ∃ b ∈ L, ∃ dump, e = ((b.advanced dump).key, b.advanced dump)

namespace IsLoaded

variable {n : Nat} {blocks : List AdvancedBlock} {L L' : List AdditingBlock}
  {m : OrdMap Key AdvancedBlock}

theorem key_eq (h : IsLoaded n blocks L m) {e : Key × AdvancedBlock} (he : e ∈ m.entries) :
    e.1 = e.2.key := by
  rcases h.mem e he with he | ⟨b, -, dump, rfl⟩
  · obtain ⟨a, -, rfl⟩ := List.mem_map.mp he
    rfl
  · rfl

/-- An entry that is not of a block is of a sign block. -/
theorem of_not_isBlock (h : IsLoaded n blocks L m) {e : Key × AdvancedBlock} (he : e ∈ m.entries)
    (hb : e.2.isBlock = false) : ∃ b ∈ L, ∃ dump, e = ((b.advanced dump).key, b.advanced dump) := by
  rcases h.mem e he with he | he
  · obtain ⟨a, ha, rfl⟩ := List.mem_map.mp he
    rw [show (a.key, a).2 = a from rfl, h.isBlock a ha] at hb
    cases hb
  · exact he

theorem placed (h : IsLoaded n blocks L m)
    (hin : ∀ b ∈ L, ∀ dump, n ≤ (b.advanced dump).due ∧ b.number < n + blocks.length) :
    Placed n ((m.mapValues (parseAdvanced env)).entries.map Prod.snd) := by
  have hentries : (m.mapValues (parseAdvanced env)).entries.map Prod.snd =
      m.entries.map (fun e => parseAdvanced env e.2) := by
    rw [OrdMap.mapValues, List.map_map]
    rfl
  have hnum : blockNumbers ((m.mapValues (parseAdvanced env)).entries.map Prod.snd) =
      List.range' n blocks.length := by
    rw [hentries, blockNumbers, List.filter_map, List.map_map, ← h.numbers]
    have hcongr : (AdvancedBlock.isBlock ∘ fun e : Key × AdvancedBlock => parseAdvanced env e.2) =
        fun e => e.2.isBlock := funext (fun e => parseAdvanced_isBlock e.2)
    rw [hcongr, h.filter, keyed, List.map_map]
    refine List.map_congr_left (fun a _ => ?_)
    rw [Function.comp_apply, Function.comp_apply, (parseAdvanced_header env a).1]
  refine placed_of_increasing (k := blocks.length) ?_ hnum ?_
  · rw [hentries, List.pairwise_map]
    refine m.increasing.imp_of_mem (fun he he' hlt => ?_)
    rw [parseAdvanced_key, parseAdvanced_key, ← h.key_eq he, ← h.key_eq he']
    exact hlt
  · rw [hentries]
    rintro a ha
    obtain ⟨e, he, rfl⟩ := List.mem_map.mp ha
    obtain ⟨hheader, hpos⟩ := parseAdvanced_header env e.2
    rw [AdvancedBlock.due, hpos, hheader, ← AdvancedBlock.due]
    rcases h.mem e he with he | ⟨b, hb, dump, rfl⟩
    · obtain ⟨c, hc, rfl⟩ := List.mem_map.mp he
      have hrange : c.header.number ∈ List.range' n blocks.length := by
        rw [← h.numbers]
        exact List.mem_map.mpr ⟨c, hc, rfl⟩
      rw [AdvancedBlock.due_of_isBlock (h.isBlock c hc)]
      exact List.mem_range'_1.mp hrange
    · exact hin b hb dump

/-- **What is loaded becomes a batch.** -/
theorem isBatch (h : IsLoaded n blocks L' m) (hsub : L'.Sublist L)
    (hnd : (L'.map AdditingBlock.hash).Nodup)
    (hnew : ∀ b ∈ L', Fresh env timeline b)
    (hin : ∀ b ∈ L, ∀ dump, n ≤ (b.advanced dump).due ∧ b.number < n + blocks.length) :
    IsBatch env timeline n L ((m.mapValues (parseAdvanced env)).entries.map Prod.snd) where
  placed := h.placed (fun b hb => hin b (hsub.subset hb))
  parsed := by
    intro a ha hnone
    obtain ⟨e, he, rfl⟩ := List.mem_map.mp ha
    obtain ⟨e, -, rfl⟩ := List.mem_map.mp he
    exact parseAdvanced_hash hnone
  fresh := by
    intro a ha hb
    obtain ⟨e', he', rfl⟩ := List.mem_map.mp ha
    obtain ⟨e, he, rfl⟩ := List.mem_map.mp he'
    rw [parseAdvanced_isBlock] at hb
    obtain ⟨b, hbl, dump, rfl⟩ := h.of_not_isBlock he hb
    rw [(parseAdvanced_header env _).1]
    exact hnew b hbl
  once := by
    intro T f hf
    rw [OrdMap.mapValues, List.map_map, List.filter_map, List.map_map]
    have hcongr : ∀ e : Key × AdvancedBlock,
        f (parseAdvanced env e.2).header.hash = f e.2.header.hash :=
      fun e => by rw [(parseAdvanced_header env e.2).1]
    refine List.Nodup.map_on ?_ ((m.increasing.imp (fun hlt he =>
      absurd (congrArg Prod.fst he) hlt.ne)).filter _)
    intro x hx y hy hxy
    obtain ⟨hx, hxb⟩ := List.mem_filter.mp hx
    obtain ⟨hy, hyb⟩ := List.mem_filter.mp hy
    simp only [Function.comp_apply, parseAdvanced_isBlock, Bool.not_eq_eq_eq_not,
      Bool.not_true] at hxb hyb hxy
    rw [hcongr, hcongr] at hxy
    obtain ⟨b, hbl, dump, rfl⟩ := h.of_not_isBlock hx hxb
    obtain ⟨c, hcl, dump', rfl⟩ := h.of_not_isBlock hy hyb
    -- two entries of one name are of one sign block, so they have one key
    obtain rfl : b = c := List.inj_on_of_nodup_map hnd hbl hcl
      (hf b (hsub.subset hbl) c (hsub.subset hcl) (hnew b hbl) hxy)
    have hx' := OrdMap.mem_entries.mp hx
    have hy' := OrdMap.mem_entries.mp hy
    rw [show (b.advanced dump').key = (b.advanced dump).key from rfl, hx'] at hy'
    rw [Option.some.inj hy']

end IsLoaded

/-- The same source with other caches, another map and these sign blocks behind the last. -/
def withAdditings (s : NetworkBlockSource) (g : GetNewBlocksFromServer)
    (m : OrdMap Key AdvancedBlock) (c : Option AfterBlocksAdditings) : NetworkBlockSource :=
  { s.withLoaded g m with afterBlocksAdditings := c }

/-- Where the sign blocks behind the last block belong. -/
def AfterLast (s : NetworkBlockSource) : Prop :=
  ∀ a, s.afterBlocksAdditings = some a → a.blockNumber + 1 = s.nextBlockToRead

theorem additings_frame {s s' : NetworkBlockSource} {r : Except Err (List AdditingBlock)}
    (h : s.additings env = (r, s')) :
    ∃ g m c, s' = s.withAdditings g m c ∧ (c = none ∨ c = s.afterBlocksAdditings) := by
  unfold additings at h
  split at h
  · split at h
    · cases h
      exact ⟨s.getterBlocks, s.advancedBlocks, _, rfl, Or.inr rfl⟩
    · dsimp only at h
      split at h
      · cases h
        exact ⟨s.getterBlocks, ∅, _, rfl, Or.inr rfl⟩
      · split at h <;> rename_i hload <;> cases h <;>
          obtain ⟨g, m, rfl⟩ := loadAdvanced_withLoaded hload <;>
          exact ⟨g, m, _, rfl, Or.inr rfl⟩
  · split at h <;> cases h
    · exact ⟨s.getterBlocks, s.advancedBlocks, _, rfl, Or.inr rfl⟩
    · exact ⟨s.getterBlocks, s.advancedBlocks, _, rfl, Or.inl rfl⟩

/-- A sign block that a header names lies at the block of the header. -/
theorem due_headerAdditings {header : MinimumBlockHeader} {b : AdditingBlock}
    (h : b ∈ headerAdditings header) (dump : Blob) :
    header.number ≤ (b.advanced dump).due ∧ b.number = header.number := by
  rcases List.mem_append.mp h with h | h
  · obtain ⟨hash, -, rfl⟩ := List.mem_map.mp h
    exact ⟨Nat.le_refl _, rfl⟩
  · obtain ⟨hash, -, rfl⟩ := List.mem_map.mp h
    exact ⟨Nat.le_succ _, rfl⟩

/-- **The first half of a batch**: its blocks of the chain, and sign blocks around them. -/
theorem additings_ok {s s' : NetworkBlockSource} {L : List AdditingBlock}
    (h : s.additings env = (.ok L, s')) (hafter : s.AfterLast) :
    ∃ g m blocks, s' = s.withAdditings g m none ∧ IsLoaded s.nextBlockToRead blocks [] m ∧
      ∀ b ∈ L, ∀ dump, s.nextBlockToRead ≤ (b.advanced dump).due ∧
        b.number < s.nextBlockToRead + blocks.length := by
  unfold additings at h
  split at h
  -- Blocks are loaded, with the sign blocks that their headers name;
  · rename_i hnone
    split at h
    · cases h
    · dsimp only at h
      split at h
      · cases h
      · split at h
        · cases h
        · rename_i hload
          obtain ⟨hL, hs⟩ := Prod.mk.inj h
          obtain ⟨blocks, g, m, rfl, hm, hnum, hall⟩ :=
            loadAdvanced_ok hload (show _ = keyed [] from rfl) (by simp)
          rw [List.nil_append] at hm
          have hlen : List.range' s.nextBlockToRead blocks.length =
              blocks.map (fun a => a.header.number) := by
            have hlength := congrArg List.length hnum
            rw [List.length_map, List.length_range'] at hlength
            rw [hnum, hlength]
          refine ⟨g, m, blocks, ?_, ⟨hlen.symm, hall, ?_, ?_⟩, ?_⟩
          · rw [← hs, ← hnone]
            rfl
          · rw [hm, List.filter_eq_self]
            intro e he
            obtain ⟨a, ha, rfl⟩ := List.mem_map.mp he
            exact hall a ha
          · intro e he
            exact Or.inl (hm ▸ he)
          · intro b hb dump
            rw [← Except.ok.inj hL] at hb
            obtain ⟨e, he, hb⟩ := List.mem_flatMap.mp hb
            rw [show (NetworkBlockSource.withLoaded _ g m).advancedBlocks = m from rfl, hm] at he
            obtain ⟨a, ha, rfl⟩ := List.mem_map.mp he
            have hrange : a.header.number ∈ List.range' s.nextBlockToRead blocks.length := by
              rw [hlen]
              exact List.mem_map.mpr ⟨a, ha, rfl⟩
            obtain ⟨hdue, hnumber⟩ := due_headerAdditings hb dump
            obtain ⟨hle, hlt⟩ := List.mem_range'_1.mp hrange
            exact ⟨hle.trans hdue, by rw [hnumber]; exact hlt⟩
  -- or there are none, and only the sign blocks behind the last are.
  · rename_i a hsome
    split at h
    · cases h
    · rename_i hempty
      obtain ⟨hL, hs⟩ := Prod.mk.inj h
      have hentries : s.advancedBlocks.entries = [] := not_not.mp hempty
      refine ⟨s.getterBlocks, s.advancedBlocks, [], hs.symm, ⟨rfl, by simp, ?_, ?_⟩, ?_⟩
      · rw [hentries]
        rfl
      · rw [hentries]
        simp
      · intro b hb dump
        rw [← Except.ok.inj hL] at hb
        obtain ⟨hash, -, rfl⟩ := List.mem_map.mp hb
        have hlast := hafter a hsome
        rw [List.length_nil, Nat.add_zero]
        exact ⟨Nat.le_of_eq hlast.symm, Nat.lt_of_succ_le (Nat.le_of_eq hlast)⟩

/-- **A new batch** from the next block to read on. -/
theorem nextBatch_ok {s s' : NetworkBlockSource} (h : s.nextBatch env timeline = (.ok (), s'))
    (hafter : s.AfterLast) :
    ∃ L, (s.additings env).1 = .ok L ∧
      IsBatch env timeline s.nextBlockToRead L s'.currentProcessedBlock ∧
      s'.nextBlockToRead = s.nextBlockToRead ∧ s'.afterBlocksAdditings = none := by
  unfold nextBatch at h
  split at h
  · cases h
  · rename_i L s₁ hadd
    split at h
    · cases h
    · rename_i s₂ hload
      obtain rfl := (Prod.mk.inj h).2
      obtain ⟨g, m, blocks, rfl, hloaded, hin⟩ := additings_ok hadd hafter
      unfold processAdditingBlocks at hload
      split at hload
      · cases hload
      · rename_i L' hfilter
        obtain ⟨hsub, hnew⟩ := BlocksTimeline.filter_eq_ok hfilter
        obtain ⟨hsub', hnd, -⟩ := withoutRepeats_spec [] L
        obtain ⟨g', m', rfl, hkept, hmem⟩ := loadAdditings_withLoaded hload
        have hloaded' : IsLoaded s.nextBlockToRead blocks L' m' := by
          refine ⟨hloaded.numbers, hloaded.isBlock, hkept.trans hloaded.filter, ?_⟩
          intro e he
          rcases hmem e he with he | he
          · rcases hloaded.mem e he with he | ⟨b, hb, -⟩
            · exact Or.inl he
            · cases hb
          · exact Or.inr he
        exact ⟨L, by rw [hadd], hloaded'.isBatch (hsub.trans hsub')
          (hnd.sublist (hsub.map _)) hnew hin, rfl, rfl⟩

theorem nextBatch_error {s s' : NetworkBlockSource} {e : Err}
    (h : s.nextBatch env timeline = (.error e, s')) :
    ∃ g m c, s' = s.withAdditings g m c ∧ (c = none ∨ c = s.afterBlocksAdditings) := by
  unfold nextBatch at h
  split at h
  · rename_i hadd
    cases h
    exact additings_frame hadd
  · rename_i L s₁ hadd
    obtain ⟨g, m, c, rfl, hc⟩ := additings_frame hadd
    split at h
    · rename_i hload
      cases h
      unfold processAdditingBlocks at hload
      split at hload
      · cases hload
        exact ⟨g, m, c, rfl, hc⟩
      · obtain ⟨g', m', rfl, -, -⟩ := loadAdditings_withLoaded hload
        exact ⟨g', m', c, rfl, hc⟩
    · cases h

end NetworkBlockSource

end TorrentNode
