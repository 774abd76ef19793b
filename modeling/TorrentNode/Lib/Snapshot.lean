import Mathlib.Logic.Basic
import Mathlib.Logic.Function.Basic

/-!
# Reading from a snapshot

Items are worked through in order. Each works on at most one cell: it reads the
cell and may leave a new value there. A program that takes what it reads from a
snapshot of the start, instead of from the cells as they are, does the same as
long as no item works on a cell that an item before it changed, and this is also
the only case where every item is given the current value.
-/

/-- Items `τ` that each work on at most one cell of type `κ`, holding a `V`. -/
structure CellProgram (τ κ V : Type) where
  /-- The cell an item works on. -/
  cell : τ → Option κ
  /-- What it leaves there, given what it reads; `none` if it writes nothing. -/
  left : τ → V → Option V

namespace CellProgram

variable {τ κ V : Type} [DecidableEq κ] (P : CellProgram τ κ V)

/-- Write what an item leaves when it reads from `seen`. -/
def write (seen σ : κ → V) (t : τ) : κ → V :=
  match P.cell t with
  | none => σ
  | some k =>
    match P.left t (seen k) with
    | none => σ
    | some v => Function.update σ k v

/-- The next cells: an item reads them as they are. -/
def step (σ : κ → V) (t : τ) : κ → V := P.write σ σ t

/-- **The sequential meaning** of a list of items. -/
def run (σ : κ → V) (ts : List τ) : κ → V := ts.foldl P.step σ

/-- All items read from the snapshot `σ₀`. -/
def snapshotRun (σ₀ σ : κ → V) (ts : List τ) : κ → V := ts.foldl (P.write σ₀) σ

/-- Along the sequential run every item finds in its cell what the snapshot holds there. -/
def Current (σ₀ : κ → V) : (κ → V) → List τ → Prop
  | _, [] => True
  | σ, t :: ts => (∀ k, P.cell t = some k → σ k = σ₀ k) ∧ Current σ₀ (P.step σ t) ts

/-- On the snapshot, the item changes this cell. -/
def Changes (σ₀ : κ → V) (t : τ) (k : κ) : Prop :=
  P.cell t = some k ∧ ∃ v, P.left t (σ₀ k) = some v ∧ v ≠ σ₀ k

/-- No item works on a cell that an item before it changes. -/
def Unshared (σ₀ : κ → V) (ts : List τ) : Prop :=
  ts.Pairwise (fun t t' => ∀ k, P.Changes σ₀ t k → P.cell t' ≠ some k)

variable {P} {σ₀ σ seen : κ → V} {t : τ} {ts : List τ} {k : κ}

theorem write_of_ne (h : P.cell t ≠ some k) : P.write seen σ t k = σ k := by
  unfold write
  cases hc : P.cell t with
  | none => rfl
  | some j =>
      have hne : k ≠ j := fun he => h (by rw [hc, he])
      cases hl : P.left t (seen j) with
      | none => simp only [hl]
      | some v => simp only [hl, Function.update_of_ne hne]

theorem write_self (h : P.cell t = some k) :
    P.write seen σ t k = (P.left t (seen k)).getD (σ k) := by
  unfold write
  cases hl : P.left t (seen k) with
  | none => simp only [h, hl, Option.getD_none]
  | some v => simp only [h, hl, Function.update_self, Option.getD_some]

/-- An item that reads its cell from the snapshot as it is does the same. -/
theorem write_eq_step (h : ∀ k, P.cell t = some k → σ k = σ₀ k) :
    P.write σ₀ σ t = P.step σ t := by
  unfold step write
  cases hc : P.cell t with
  | none => rfl
  | some k => simp only [h k hc]

/-- **With current reads the snapshot makes no difference.** -/
theorem snapshotRun_eq_run : ∀ {ts : List τ} {σ : κ → V}, P.Current σ₀ σ ts →
    P.snapshotRun σ₀ σ ts = P.run σ ts
  | [], _, _ => rfl
  | t :: ts, σ, h => by
      have ih := snapshotRun_eq_run h.2
      unfold snapshotRun run at ih ⊢
      rw [List.foldl_cons, List.foldl_cons, write_eq_step h.1]
      exact ih

/-- A changed cell is not worked on any more. -/
theorem Current.cell_ne : ∀ {ts : List τ} {σ : κ → V}, P.Current σ₀ σ ts → σ k ≠ σ₀ k →
    ∀ t ∈ ts, P.cell t ≠ some k
  | [], _, _, _, t, ht => absurd ht List.not_mem_nil
  | t' :: ts, σ, h, hk, t, ht => by
      have hhead : P.cell t' ≠ some k := fun hc => hk (h.1 k hc)
      rcases List.mem_cons.mp ht with rfl | ht
      · exact hhead
      · refine Current.cell_ne h.2 ?_ t ht
        rw [step, write_of_ne hhead]
        exact hk

theorem Current.unshared : ∀ {ts : List τ} {σ : κ → V}, P.Current σ₀ σ ts → P.Unshared σ₀ ts
  | [], _, _ => List.Pairwise.nil
  | t :: ts, σ, h => by
      refine List.Pairwise.cons ?_ (Current.unshared h.2)
      rintro t' ht' k ⟨hcell, v, hleft, hne⟩
      refine Current.cell_ne h.2 ?_ t' ht'
      rw [step, write_self hcell, h.1 k hcell, hleft]
      exact hne

theorem Unshared.current : ∀ {ts : List τ} {σ : κ → V}, P.Unshared σ₀ ts →
    (∀ t ∈ ts, ∀ k, P.cell t = some k → σ k = σ₀ k) → P.Current σ₀ σ ts
  | [], _, _, _ => trivial
  | t :: ts, σ, h, hσ => by
      obtain ⟨hhead, htail⟩ := List.pairwise_cons.mp h
      refine ⟨hσ t List.mem_cons_self, Unshared.current htail ?_⟩
      intro t' ht' k hcell
      have hold := hσ t' (List.mem_cons_of_mem _ ht') k hcell
      by_cases hc : P.cell t = some k
      · rw [step, write_self hc, hold]
        cases hl : P.left t (σ₀ k) with
        | none => rfl
        | some v =>
            -- writing back the value that was there is no change
            by_contra hne
            exact hhead t' ht' k ⟨hc, v, hl, hne⟩ hcell
      · rw [step, write_of_ne hc]
        exact hold

/-- **All reads are current exactly when no changed cell is worked on again.** -/
theorem current_iff_unshared : P.Current σ₀ σ₀ ts ↔ P.Unshared σ₀ ts :=
  ⟨Current.unshared, fun h => h.current (fun _ _ _ _ => rfl)⟩

/-- Reads are current when they are so at every position. -/
theorem current_iff_forall : ∀ {ts : List τ} {σ : κ → V}, P.Current σ₀ σ ts ↔
    ∀ pre t post, ts = pre ++ t :: post → ∀ k, P.cell t = some k → P.run σ pre k = σ₀ k
  | [], σ => by
      refine iff_of_true trivial ?_
      intro pre t post h
      exact absurd h (by simp)
  | t :: ts, σ => by
      have ih : P.Current σ₀ (P.step σ t) ts ↔ _ := current_iff_forall
      constructor
      · rintro ⟨hhead, htail⟩ pre t' post h k hcell
        cases pre with
        | nil =>
            obtain ⟨rfl, _⟩ := List.cons.inj h
            exact hhead k hcell
        | cons a pre =>
            obtain ⟨rfl, hrest⟩ := List.cons.inj h
            exact ih.mp htail pre t' post hrest k hcell
      · intro h
        refine ⟨h [] t ts rfl, ih.mpr ?_⟩
        intro pre t' post hrest k hcell
        exact h (t :: pre) t' post (by rw [hrest]; rfl) k hcell

/-- What a cell holds at the end comes from the items on it. -/
theorem snapshotRun_apply : ∀ {ts : List τ} {σ : κ → V}, P.snapshotRun σ₀ σ ts k =
    (ts.filter (fun t => P.cell t = some k)).foldl (fun v t => (P.left t (σ₀ k)).getD v) (σ k)
  | [], _ => rfl
  | t :: ts, σ => by
      have ih : P.snapshotRun σ₀ (P.write σ₀ σ t) ts k = _ := snapshotRun_apply
      unfold snapshotRun at ih ⊢
      rw [List.foldl_cons, ih]
      by_cases hc : P.cell t = some k
      · rw [List.filter_cons_of_pos (by simpa using hc), List.foldl_cons, write_self hc]
      · rw [List.filter_cons_of_neg (by simpa using hc), write_of_ne hc]

end CellProgram
