import Mathlib.Data.List.TakeDrop
import Mathlib.Order.Lattice

/-!
# Lists ranked by a key

Elements in increasing order of a key, those with equal keys in the order of their
insertion, as in a multimap. An element that is there only moves away from the top: new
elements come above it or below, and what is dropped is dropped from the bottom. So what
is among the last `n` was among them before, or is new.
-/

/-- A list ranked by `key`. -/
structure Ranked {α κ : Type} [LinearOrder κ] (key : α → κ) where
  list : List α
  sorted : list.Pairwise (fun a b => key a ≤ key b)

namespace Ranked

variable {α β κ : Type} [LinearOrder κ] {key : α → κ}

instance : EmptyCollection (Ranked key) := ⟨⟨[], List.Pairwise.nil⟩⟩

/-- Insert `x` behind the elements whose key is not greater. -/
def insertUpper (key : α → κ) (x : α) : List α → List α
  | [] => [x]
  | y :: l => if key y ≤ key x then y :: insertUpper key x l else x :: y :: l

theorem insertUpper_split (x : α) :
    ∀ l : List α, ∃ low high, l = low ++ high ∧ insertUpper key x l = low ++ x :: high
  | [] => ⟨[], [], rfl, rfl⟩
  | y :: l => by
      unfold insertUpper
      by_cases hle : key y ≤ key x
      · obtain ⟨low, high, hl, hx⟩ := insertUpper_split x l
        rw [if_pos hle]
        exact ⟨y :: low, high, by rw [hl]; rfl, by rw [hx]; rfl⟩
      · rw [if_neg hle]
        exact ⟨[], y :: l, rfl, rfl⟩

theorem perm_insertUpper (x : α) (l : List α) : (insertUpper key x l).Perm (x :: l) := by
  obtain ⟨low, high, hl, hx⟩ := @insertUpper_split α κ _ key x l
  rw [hx, hl]
  exact List.perm_middle

theorem sorted_insertUpper {x : α} :
    ∀ {l : List α}, l.Pairwise (fun a b => key a ≤ key b) →
      (insertUpper key x l).Pairwise (fun a b => key a ≤ key b)
  | [], _ => List.pairwise_singleton _ _
  | y :: l, h => by
      obtain ⟨hy, hl⟩ := List.pairwise_cons.mp h
      unfold insertUpper
      by_cases hle : key y ≤ key x
      · rw [if_pos hle, List.pairwise_cons]
        refine ⟨fun z hz => ?_, sorted_insertUpper hl⟩
        rcases List.mem_cons.mp ((perm_insertUpper x l).mem_iff.mp hz) with rfl | hz
        · exact hle
        · exact hy z hz
      · have hlt := le_of_not_ge hle
        rw [if_neg hle, List.pairwise_cons]
        refine ⟨fun z hz => ?_, h⟩
        rcases List.mem_cons.mp hz with rfl | hz
        · exact hlt
        · exact le_trans hlt (hy z hz)

/-- `insert(x)` -/
def insert (r : Ranked key) (x : α) : Ranked key :=
  ⟨insertUpper key x r.list, sorted_insertUpper r.sorted⟩

/-- Drop the first elements where there are more than `n`. -/
def bounded (n : Nat) (r : Ranked key) : Ranked key :=
  ⟨r.list.drop (r.list.length - n), r.sorted.sublist (List.drop_sublist _ _)⟩

/-- The last `n` elements, the last one first. -/
def last (n : Nat) (r : Ranked key) : List α := r.list.reverse.take n

theorem perm_foldl_insert : ∀ (xs : List α) (r : Ranked key),
    (xs.foldl insert r).list.Perm (xs ++ r.list)
  | [], r => List.Perm.refl _
  | x :: xs, r => by
      refine (perm_foldl_insert xs (r.insert x)).trans ?_
      refine ((perm_insertUpper x r.list).append_left xs).trans ?_
      exact List.perm_middle

theorem length_bounded (n : Nat) (r : Ranked key) : (r.bounded n).list.length ≤ n := by
  unfold bounded
  rw [List.length_drop]
  omega

theorem bounded_sublist (n : Nat) (r : Ranked key) : (r.bounded n).list.Sublist r.list :=
  List.drop_sublist _ _

theorem mem_of_mem_last {n : Nat} {r : Ranked key} {y : α} (h : y ∈ r.last n) : y ∈ r.list :=
  List.mem_reverse.mp (List.mem_of_mem_take h)

/-- **An old element does not rise.** -/
theorem mem_last_insert {n : Nat} {r : Ranked key} {x y : α} (h : y ∈ (r.insert x).last n) :
    y = x ∨ y ∈ r.last n := by
  obtain ⟨low, high, hl, hx⟩ := @insertUpper_split α κ _ key x r.list
  change y ∈ (insertUpper key x r.list).reverse.take n at h
  rw [hx] at h
  unfold last
  rw [List.reverse_append, List.reverse_cons, List.append_assoc, List.take_append] at h
  rw [hl, List.reverse_append, List.take_append]
  rcases List.mem_append.mp h with h | h
  · exact Or.inr (List.mem_append_left _ h)
  · cases hn : n - high.reverse.length with
    | zero =>
        rw [hn, List.take_zero] at h
        cases h
    | succ m =>
        rw [hn, List.singleton_append, List.take_succ_cons] at h
        rcases List.mem_cons.mp h with h | h
        · exact Or.inl h
        · right
          refine List.mem_append_right _ ?_
          exact List.take_subset_take_left _ (Nat.le_succ m) h

theorem mem_last_foldl_insert {n : Nat} {y : α} : ∀ (xs : List α) (r : Ranked key),
    y ∈ (xs.foldl insert r).last n → y ∈ xs ∨ y ∈ r.last n
  | [], _, h => Or.inr h
  | x :: xs, r, h => by
      rcases mem_last_foldl_insert xs (r.insert x) h with h | h
      · exact Or.inl (List.mem_cons_of_mem _ h)
      · rcases mem_last_insert h with rfl | h
        · exact Or.inl List.mem_cons_self
        · exact Or.inr h

/-- What is dropped was not among the last. -/
theorem last_bounded {n m : Nat} (r : Ranked key) (hle : n ≤ m) :
    (r.bounded m).last n = r.last n := by
  unfold last bounded
  rw [List.reverse_drop, List.take_take]
  by_cases hlen : r.list.length ≤ m
  · rw [Nat.sub_eq_zero_of_le hlen, Nat.sub_zero]
    rcases Nat.le_total n r.list.length with h | h
    · rw [Nat.min_eq_left h]
    · rw [Nat.min_eq_right h, List.take_of_length_le (by simp), List.take_of_length_le (by simpa)]
  · rw [Nat.min_eq_left (by omega)]

end Ranked
