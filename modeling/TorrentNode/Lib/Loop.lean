import Mathlib.Combinatorics.Pigeonhole
import Mathlib.Data.Fintype.Card

/-!
# Loops that may go on for ever

A loop is a function that gives the next state, or nothing when the loop is left. It
ends where a measure falls in each round. Among finitely many states it ends soon or
never, for it is endless as soon as it comes to a state again.
-/

namespace Loop

variable {σ : Type} {next : σ → Option σ}

/-- The state after some rounds; nothing if the loop is left before. -/
def after (next : σ → Option σ) : Nat → σ → Option σ
  | 0, s => some s
  | k + 1, s => (next s).bind (after next k)

/-- The loop is left. -/
def Ends (next : σ → Option σ) (s : σ) : Prop := ∃ k, after next k s = none

/-- The states that the loop comes to. -/
inductive Reached (next : σ → Option σ) (s : σ) : σ → Prop where
  | start : Reached next s s
  | round {t u : σ} : Reached next s t → next t = some u → Reached next s u

theorem after_add (i j : Nat) :
    ∀ s : σ, after next (i + j) s = (after next i s).bind (after next j) := by
  induction i with
  | zero => intro s; rw [Nat.zero_add]; rfl
  | succ i ih =>
      intro s
      rw [Nat.add_right_comm, after, after]
      cases next s with
      | none => rfl
      | some t => exact ih t

theorem after_succ (k : Nat) (s : σ) : after next (k + 1) s = (after next k s).bind next := by
  rw [after_add k 1]
  cases after next k s with
  | none => rfl
  | some t =>
      change (next t).bind (after next 0) = next t
      cases next t <;> rfl

/-- A loop that was left stays left. -/
theorem after_of_le {i j : Nat} {s : σ} (h : after next i s = none) (hij : i ≤ j) :
    after next j s = none := by
  obtain ⟨k, rfl⟩ := Nat.exists_eq_add_of_le hij
  rw [after_add, h]
  rfl

theorem ends_round {s t : σ} (h : next s = some t) : Ends next s ↔ Ends next t := by
  constructor
  · rintro ⟨k, hk⟩
    cases k with
    | zero => cases hk
    | succ k =>
        rw [after, h] at hk
        exact ⟨k, hk⟩
  · rintro ⟨k, hk⟩
    exact ⟨k + 1, by rw [after, h]; exact hk⟩

theorem ends_of_left {s : σ} (h : next s = none) : Ends next s := ⟨1, by rw [after, h]; rfl⟩

/-- A loop ends exactly if it ends from a state it comes to. -/
theorem Reached.ends_iff {s t : σ} (h : Reached next s t) : Ends next s ↔ Ends next t := by
  induction h with
  | start => exact Iff.rfl
  | round _ hnext ih => exact ih.trans (ends_round hnext)

/-- **A loop ends where a measure falls.** -/
theorem ends_of_measure {s : σ} (measure : σ → Nat)
    (hfall : ∀ t u, Reached next s t → next t = some u → measure u < measure t) :
    Ends next s := by
  have hends : ∀ n t, measure t = n → Reached next s t → Ends next t := by
    intro n
    induction n using Nat.strongRecOn with
    | ind n ih =>
        intro t ht hreached
        cases hnext : next t with
        | none => exact ends_of_left hnext
        | some u =>
            have hless := hfall t u hreached hnext
            exact (ends_round hnext).mpr (ih _ (ht ▸ hless) u rfl (hreached.round hnext))
  exact hends _ s rfl .start

/-- **A loop that comes to a state again** is endless. -/
theorem endless_of_again {i j : Nat} {s t : σ} (hij : i < j) (hi : after next i s = some t)
    (hj : after next j s = some t) : ¬Ends next s := by
  have hagain : ∀ k, after next k s ≠ none := by
    intro k
    induction k using Nat.strongRecOn with
    | ind k ih =>
        by_cases hk : k ≤ j
        · intro hnone
          rw [after_of_le hnone hk] at hj
          cases hj
        · -- one turn less leads to the same state
          have hsame : after next k s = after next (i + (k - j)) s := by
            have hback : k = j + (k - j) := by omega
            rw [hback, after_add, hj, ← hback, after_add i, hi]
          rw [hsame]
          exact ih _ (by omega)
  rintro ⟨k, hk⟩
  exact hagain k hk

/-- **Among finitely many states** a loop is left soon or never. -/
theorem ends_within {s : σ} (states : Finset σ) (hstates : ∀ t u, next t = some u → t ∈ states)
    (h : Ends next s) : after next (states.card + 1) s = none := by
  by_contra hgoes
  have hstate : ∀ k : Fin (states.card + 1), ∃ t, after next k s = some t ∧ t ∈ states := by
    intro k
    cases hk : after next k s with
    | none => exact absurd (after_of_le hk (Nat.le_of_lt k.isLt)) hgoes
    | some t =>
        cases hnext : next t with
        | none =>
            have hleft : after next (k + 1) s = none := by
              rw [after_succ, hk]
              exact hnext
            exact absurd (after_of_le hleft k.isLt) hgoes
        | some u => exact ⟨t, rfl, hstates t u hnext⟩
  choose f hf hmem using hstate
  obtain ⟨i, -, j, -, hne, heq⟩ := Finset.exists_ne_map_eq_of_card_lt_of_maps_to
    (s := Finset.univ) (t := states) (by simp) (f := f) (fun k _ => hmem k)
  rcases Nat.lt_or_gt_of_ne (fun h => hne (Fin.ext h)) with hij | hij
  · exact endless_of_again hij (hf i) (heq ▸ hf j) h
  · exact endless_of_again hij (hf j) (heq ▸ hf i) h

end Loop
