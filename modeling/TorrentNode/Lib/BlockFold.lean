import Mathlib.Algebra.Group.Defs
import Mathlib.Data.List.Pairwise
import Mathlib.Order.Lattice

/-!
# Operations cut into blocks

A long list of operations can be run on one state, or cut into blocks, each of them
run on an empty state, and the results merged in order. Both show the same when what
is observed of a state adds up: an operation shifts it by an amount that does not
depend on the state, and a merge adds what it merges in. The operations may ask of the
state that it is not ahead of them, for an order on both.
-/

section

variable {ε α β γ : Type} {x : Except ε α} {y : Except ε β} {f : α → γ} {g : β → γ}

/-- Two computations that show the same throw the same or both return. -/
theorem Except.map_eq_map (h : x.map f = y.map g) :
    (∃ e, x = .error e ∧ y = .error e) ∨ ∃ a b, x = .ok a ∧ y = .ok b ∧ f a = g b := by
  cases x with
  | error e =>
      cases y with
      | error e' => exact Or.inl ⟨e, rfl, by cases h; rfl⟩
      | ok b => cases h
  | ok a =>
      cases y with
      | error e' => cases h
      | ok b => exact Or.inr ⟨a, b, rfl, rfl, Except.ok.inj h⟩

end

/-! ## Operations that shift -/

/-- Among the states that show something in `P`, the operation always throws the same, or always
shifts what is observed by the same, and that is in `P` too. -/
def Shifts {ε S M : Type} [Add M] (obs : S → M) (P : M → Prop) (f : S → Except ε S) : Prop :=
  ∃ r : Except ε M, (∀ x, r = .ok x → P x) ∧ ∀ s, P (obs s) → (f s).map obs = r.map (obs s + ·)

namespace Shifts

variable {ε S M : Type} {obs : S → M} {P : M → Prop}

section

variable [Add M]

theorem ok {f : S → S} {x : M} (hx : P x) (h : ∀ s, P (obs s) → obs (f s) = obs s + x) :
    Shifts (ε := ε) obs P (fun s => .ok (f s)) := by
  refine ⟨.ok x, ?_, fun s hs => congrArg Except.ok (h s hs)⟩
  rintro _ ⟨⟩
  exact hx

theorem error {e : ε} : Shifts obs P (fun _ => .error e) :=
  ⟨.error e, by rintro _ ⟨⟩, fun _ _ => rfl⟩

/-- A computation that does not look at the state first. -/
theorem lift {α : Type} {x : Except ε α} {f : α → S → Except ε S} (h : ∀ a, Shifts obs P (f a)) :
    Shifts obs P (fun s => x >>= fun a => f a s) := by
  cases x with
  | error e => exact error
  | ok a => exact h a

theorem ite {c : Prop} [Decidable c] {f g : S → Except ε S} (hf : Shifts obs P f)
    (hg : Shifts obs P g) : Shifts obs P (fun s => if c then f s else g s) := by
  split
  · exact hf
  · exact hg

end

variable [AddMonoid M]

theorem skip (h0 : P 0) : Shifts (ε := ε) obs P (fun s => .ok s) :=
  ok (f := fun s => s) h0 (fun _ _ => (add_zero _).symm)

theorem bind (hadd : ∀ {x y}, P x → P y → P (x + y)) {f g : S → Except ε S}
    (hf : Shifts obs P f) (hg : Shifts obs P g) : Shifts obs P (fun s => f s >>= g) := by
  obtain ⟨r, hr, hf⟩ := hf
  obtain ⟨r', hr', hg⟩ := hg
  -- If the first fails on one state it fails on all; else the shifts add up.
  cases r with
  | error e =>
      refine ⟨.error e, by rintro _ ⟨⟩, fun s hs => ?_⟩
      rcases Except.map_eq_map (hf s hs) with ⟨e', hfs, he⟩ | ⟨_, _, _, he, _⟩
      · cases he
        show (f s >>= g).map obs = _
        rw [hfs]
        rfl
      · cases he
  | ok x =>
      refine ⟨r'.map (x + ·), ?_, fun s hs => ?_⟩
      · intro z hz
        cases r' with
        | error e => cases hz
        | ok y =>
            cases hz
            exact hadd (hr x rfl) (hr' y rfl)
      · rcases Except.map_eq_map (hf s hs) with ⟨_, _, he⟩ | ⟨t, y, hfs, hy, ht⟩
        · cases he
        · cases hy
          have htP : P (obs t) := by
            rw [ht]
            exact hadd hs (hr _ rfl)
          show (f s >>= g).map obs = _
          rw [hfs]
          show (g t).map obs = _
          rw [hg t htP, ht]
          cases r' with
          | error e => rfl
          | ok z => exact congrArg Except.ok (add_assoc _ _ z)

end Shifts

/-! ## Blocks -/

/-- What the operations add, one after the other. -/
def totalDelta {ε A M : Type} [Add M] [Zero M] (delta : A → Except ε M) : List A → Except ε M
  | [] => .ok 0
  | a :: as => do
    let x ← delta a
    let y ← totalDelta delta as
    pure (x + y)

theorem totalDelta_append {ε A M : Type} [AddMonoid M] {delta : A → Except ε M} :
    ∀ {as bs : List A}, totalDelta delta (as ++ bs) = do
      let x ← totalDelta delta as
      let y ← totalDelta delta bs
      pure (x + y)
  | [], bs => by
      show totalDelta delta bs = (totalDelta delta bs).bind (fun y => .ok (0 + y))
      simp only [zero_add]
      cases totalDelta delta bs <;> rfl
  | a :: as, bs => by
      rw [List.cons_append, totalDelta, totalDelta, totalDelta_append]
      cases delta a with
      | error e => rfl
      | ok x =>
          cases totalDelta delta as with
          | error e => rfl
          | ok y =>
              cases totalDelta delta bs with
              | error e => rfl
              | ok z => exact congrArg Except.ok (add_assoc x y z).symm

/-- States that operations shift and that can be merged. -/
structure BlockFold (ε S M A N : Type) [AddMonoid M] [Preorder N] where
  op : S → A → Except ε S
  empty : S
  merge : S → S → S
  /-- What is observed of a state. -/
  obs : S → M
  rank : A → N
  /-- A state that shows this is not ahead of this rank. -/
  Within : M → N → Prop
  obs_empty : obs empty = 0
  obs_merge : ∀ s t, obs (merge s t) = obs s + obs t
  shifts_op : ∀ a, Shifts obs (Within · (rank a)) (op · a)
  within_zero : ∀ n, Within 0 n
  within_add : ∀ {x y n}, Within x n → Within y n → Within (x + y) n
  within_mono : ∀ {x m n}, Within x m → m ≤ n → Within x n

namespace BlockFold

variable {ε S M A N : Type} [AddMonoid M] [Preorder N] (d : BlockFold ε S M A N)

/-- What an operation adds: what it makes of an empty state. -/
def delta (a : A) : Except ε M := (d.op d.empty a).map d.obs

/-- Every operation comes at or after the rank of those before it, and of the state. -/
def Ordered (s : S) (as : List A) : Prop :=
  as.Pairwise (fun a b => d.rank a ≤ d.rank b) ∧ ∀ a ∈ as, d.Within (d.obs s) (d.rank a)

/-- The blocks one by one: each on an empty state, merged into what there is. -/
def inBlocks : S → List (List A) → Except ε S :=
  List.foldlM (fun s block => (block.foldlM d.op d.empty).map (d.merge s))

variable {d}

theorem within_empty (n : N) : d.Within (d.obs d.empty) n := by
  rw [d.obs_empty]
  exact d.within_zero n

theorem obs_op {s : S} {a : A} (hs : d.Within (d.obs s) (d.rank a)) :
    (d.op s a).map d.obs = (d.delta a).map (d.obs s + ·) := by
  obtain ⟨r, -, h⟩ := d.shifts_op a
  rw [h s hs, delta, h d.empty (within_empty _), d.obs_empty]
  cases r with
  | error e => rfl
  | ok x => exact congrArg (fun y => Except.ok (d.obs s + y)) (zero_add x).symm

theorem within_op {s s' : S} {a : A} (hs : d.Within (d.obs s) (d.rank a))
    (hop : d.op s a = .ok s') : d.Within (d.obs s') (d.rank a) := by
  obtain ⟨r, hr, h⟩ := d.shifts_op a
  rcases Except.map_eq_map (h s hs) with ⟨e, he, _⟩ | ⟨t, x, ht, hx, heq⟩
  · cases hop.symm.trans he
  · cases hop.symm.trans ht
    rw [heq]
    exact d.within_add hs (hr x hx)

theorem Ordered.tail {s s' : S} {a : A} {as : List A} (h : d.Ordered s (a :: as))
    (hop : d.op s a = .ok s') : d.Ordered s' as := by
  rw [Ordered, List.pairwise_cons] at h
  refine ⟨h.1.2, fun b hb => ?_⟩
  exact d.within_mono (within_op (h.2 a List.mem_cons_self) hop) (h.1.1 b hb)

/-- A run keeps within what its operations are at. -/
theorem within_foldlM {n : N} : ∀ {as : List A} {s s' : S}, d.Ordered s as →
    d.Within (d.obs s) n → (∀ a ∈ as, d.rank a ≤ n) → as.foldlM d.op s = .ok s' →
    d.Within (d.obs s') n
  | [], s, s', _, hs, _, h => by
      cases h
      exact hs
  | a :: as, s, s', hord, hs, hn, h => by
      rw [List.foldlM_cons] at h
      cases hop : d.op s a with
      | error e =>
          rw [hop] at h
          cases h
      | ok t =>
          rw [hop] at h
          have ht := within_op (hord.2 a List.mem_cons_self) hop
          exact within_foldlM (hord.tail hop) (d.within_mono ht (hn a List.mem_cons_self))
            (fun b hb => hn b (List.mem_cons_of_mem _ hb)) h

/-- **A run adds the sum of what its operations add.** -/
theorem obs_foldlM : ∀ {as : List A} {s : S}, d.Ordered s as →
    (as.foldlM d.op s).map d.obs = (totalDelta d.delta as).map (d.obs s + ·)
  | [], s, _ => by
      show Except.ok (d.obs s) = .ok (d.obs s + 0)
      rw [add_zero]
  | a :: as, s, hord => by
      rw [List.foldlM_cons, totalDelta]
      rcases Except.map_eq_map (obs_op (hord.2 a List.mem_cons_self)) with
        ⟨e, hop, hdelta⟩ | ⟨s', x, hop, hdelta, hs'⟩
      · rw [hop, hdelta]
        rfl
      · have ih := obs_foldlM (hord.tail hop)
        rw [hs'] at ih
        rw [hop, hdelta]
        show (as.foldlM d.op s').map d.obs = _
        rw [ih]
        cases totalDelta d.delta as with
        | error e => rfl
        | ok y => exact congrArg Except.ok (add_assoc _ x y)

/-- A run adds to any state what it makes of an empty one. -/
theorem obs_foldlM_from_empty {as : List A} {s t : S} (hord : d.Ordered s as)
    (h : as.foldlM d.op d.empty = .ok t) :
    ∃ s', as.foldlM d.op s = .ok s' ∧ d.obs s' = d.obs s + d.obs t := by
  have hempty : d.Ordered d.empty as := ⟨hord.1, fun a _ => within_empty _⟩
  have hscratch := obs_foldlM hempty
  have hrun := obs_foldlM hord
  rw [h] at hscratch
  cases hdelta : totalDelta d.delta as with
  | error e =>
      rw [hdelta] at hscratch
      cases hscratch
  | ok x =>
      rw [hdelta] at hscratch hrun
      have ht : d.obs t = x := by
        rw [Except.ok.inj hscratch, d.obs_empty]
        exact zero_add x
      rw [ht]
      cases hs' : as.foldlM d.op s with
      | error e =>
          rw [hs'] at hrun
          cases hrun
      | ok s' =>
          rw [hs'] at hrun
          exact ⟨s', rfl, Except.ok.inj hrun⟩

/-- **So does a run by blocks.** -/
theorem obs_inBlocks : ∀ {blocks : List (List A)} {s : S}, d.Ordered s blocks.flatten →
    (d.inBlocks s blocks).map d.obs = (totalDelta d.delta blocks.flatten).map (d.obs s + ·)
  | [], s, _ => by
      show Except.ok (d.obs s) = .ok (d.obs s + 0)
      rw [add_zero]
  | block :: blocks, s, hord => by
      rw [List.flatten_cons] at hord
      obtain ⟨hsorted, hwithin⟩ := hord
      obtain ⟨hblock, hrest, hcross⟩ := List.pairwise_append.mp hsorted
      have hempty : d.Ordered d.empty block := ⟨hblock, fun a _ => within_empty _⟩
      rw [List.flatten_cons, totalDelta_append]
      unfold inBlocks
      rw [List.foldlM_cons]
      rcases Except.map_eq_map (obs_foldlM hempty) with ⟨e, hrun, hdelta⟩ | ⟨t, x, hrun, hdelta, ht⟩
      · rw [hrun, hdelta]
        rfl
      · have hmerge : d.obs (d.merge s t) = d.obs s + x := by
          rw [d.obs_merge, ht, d.obs_empty, zero_add]
        -- the merged state is not ahead of the blocks to come
        have hord' : d.Ordered (d.merge s t) blocks.flatten := by
          refine ⟨hrest, fun b hb => ?_⟩
          rw [d.obs_merge]
          refine d.within_add (hwithin b (List.mem_append_right _ hb)) ?_
          exact within_foldlM hempty (within_empty _) (fun a ha => hcross a ha b hb) hrun
        have ih := obs_inBlocks hord'
        rw [hmerge] at ih
        rw [hrun, hdelta]
        show (d.inBlocks (d.merge s t) blocks).map d.obs = _
        rw [ih]
        cases totalDelta d.delta blocks.flatten with
        | error e => rfl
        | ok y => exact congrArg Except.ok (add_assoc _ x y)

/-- **The cut into blocks does not show.** -/
theorem obs_inBlocks_eq {blocks : List (List A)}
    (hsorted : blocks.flatten.Pairwise (fun a b => d.rank a ≤ d.rank b)) :
    (d.inBlocks d.empty blocks).map d.obs = (blocks.flatten.foldlM d.op d.empty).map d.obs := by
  have hord : d.Ordered d.empty blocks.flatten := ⟨hsorted, fun a _ => within_empty _⟩
  rw [obs_inBlocks hord, obs_foldlM hord]

end BlockFold
