import Mathlib.Algebra.BigOperators.Finprod
import TorrentNode.Lib.Merge

/-!
# Totals

A map that is zero but at finitely many places has a total. A ledger is such a map,
from names to amounts, and an entry in it changes the total by the amount of the
entry, whatever the name.
-/

/-- `f` is zero but at finitely many places and adds up to `x`. -/
def HasTotal {α G : Type} [AddCommMonoid G] (f : α → G) (x : G) : Prop :=
  (Function.support f).Finite ∧ finsum f = x

namespace HasTotal

variable {α G : Type}

section

variable [AddCommMonoid G] {f g : α → G} {x y : G}

theorem zero : HasTotal (fun _ : α => (0 : G)) 0 :=
  ⟨by rw [Function.support_fun_zero]; exact Set.finite_empty, finsum_zero⟩

theorem add (hf : HasTotal f x) (hg : HasTotal g y) : HasTotal (fun a => f a + g a) (x + y) :=
  ⟨(hf.1.union hg.1).subset (Function.support_add f g),
    by rw [finsum_add_distrib hf.1 hg.1, hf.2, hg.2]⟩

/-- An entry under one name. -/
theorem single [DecidableEq α] (a : α) (x : G) : HasTotal (Pi.single a x : α → G) x := by
  refine ⟨(Set.finite_singleton a).subset (Pi.support_single_subset), ?_⟩
  rw [finsum_eq_single _ a (fun b hb => by rw [Pi.single_apply, if_neg hb]), Pi.single_eq_same]

theorem unique (hf : HasTotal f x) (hf' : HasTotal f y) : x = y := hf.2.symm.trans hf'.2

theorem congr (hf : HasTotal f x) (h : ∀ a, g a = f a) : HasTotal g x := by
  rw [funext h]
  exact hf

/-- **A sum sorted by a key**: what the elements of each key add up to, over all keys. -/
theorem byKey [DecidableEq α] {τ : Type} (key : τ → α) (g : τ → G) : ∀ l : List τ,
    HasTotal (fun a => ((l.filter (fun t => key t = a)).map g).sum) (l.map g).sum
  | [] => zero
  | t :: l => by
      rw [List.map_cons, List.sum_cons]
      refine ((single (key t) (g t)).add (byKey key g l)).congr (fun a => ?_)
      rw [List.filter_cons]
      by_cases ha : key t = a
      · rw [if_pos (decide_eq_true ha), List.map_cons, List.sum_cons, ha, Pi.single_eq_same]
      · rw [if_neg (by simpa using ha), Pi.single_eq_of_ne (Ne.symm ha), zero_add]

end

section

variable [AddCommGroup G] [DecidableEq α] {f : α → G} {x : G}

/-- **One entry changed**: the total moves by the difference. -/
theorem update (hf : HasTotal f x) (a : α) (y : G) :
    HasTotal (Function.update f a y) (x + (y - f a)) := by
  refine (hf.add (single a (y - f a))).congr (fun b => ?_)
  by_cases hb : b = a
  · rw [hb, Function.update_self, Pi.single_eq_same, add_sub_cancel]
  · rw [Function.update_of_ne hb, Pi.single_apply, if_neg hb, add_zero]

end

end HasTotal

namespace OrdMap

variable {K V G : Type} [LinearOrder K] [AddCommGroup G] (f : V → G)

/-- What the values of a map add up to. -/
def total (m : OrdMap K V) : G := (m.entries.map (fun e => f e.2)).sum

theorem hasTotal_lookup : ∀ {l : List (K × V)}, (l.map Prod.fst).Nodup →
    HasTotal (fun k => ((lookup k l).map f).getD 0) (l.map (fun e => f e.2)).sum
  | [], _ => HasTotal.zero
  | (k, v) :: l, h => by
      rw [List.map_cons, List.nodup_cons] at h
      rw [List.map_cons, List.sum_cons]
      refine ((HasTotal.single k (f v)).add (hasTotal_lookup h.2)).congr (fun j => ?_)
      by_cases hj : j = k
      · have hnone : lookup j l = none :=
          lookup_eq_none (fun e he hek => h.1 (List.mem_map.mpr ⟨e, he, hek.trans hj⟩))
        rw [lookup, if_pos hj, hnone, hj, Pi.single_eq_same]
        exact (add_zero _).symm
      · rw [lookup, if_neg hj, Pi.single_eq_of_ne hj, zero_add]

/-- **Binding a key** changes the total by what the value changes. -/
theorem total_insert (m : OrdMap K V) (k : K) (v : V) :
    (m.insert k v).total f = m.total f + (f v - ((m.find? k).map f).getD 0) := by
  have hold := hasTotal_lookup f m.increasing.nodup_keys
  have hnew := hasTotal_lookup f (m.insert k v).increasing.nodup_keys
  refine hnew.unique ((hold.update k (f v)).congr (fun j => ?_))
  show (((m.insert k v).find? j).map f).getD 0 = _
  rw [find?_insert]
  by_cases hj : j = k
  · rw [if_pos hj, hj, Function.update_self]
    rfl
  · rw [if_neg hj, Function.update_of_ne hj]
    rfl

end OrdMap
