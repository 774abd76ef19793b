import Mathlib.Data.List.Perm.Subperm
import TorrentNode.Lib.OrdMap

/-!
# Ordered finite sets

A set over a linear order, held as its members in increasing order. Made out of
a list, it forgets the order and the repetitions of the list, and gives the
list back exactly when the list was increasing.
-/

/-- A finite set, its members in increasing order. -/
abbrev OrdSet (K : Type) [LinearOrder K] : Type := OrdMap K Unit

namespace OrdSet

variable {K : Type} [LinearOrder K]

/-- The members, in order. -/
def toList (s : OrdSet K) : List K := s.entries.map Prod.fst

/-- One more member. -/
def add (s : OrdSet K) (k : K) : OrdSet K := OrdMap.insert s k ()

/-- The set of the elements of a list. -/
def ofList (l : List K) : OrdSet K := l.foldl (fun s k => OrdMap.insert s k ()) ∅

theorem mem_toList {s : OrdSet K} {k : K} : k ∈ toList s ↔ s.find? k = some () := by
  rw [toList, List.mem_map]
  constructor
  · rintro ⟨e, he, rfl⟩
    exact OrdMap.mem_entries.mp he
  · intro h
    exact ⟨(k, ()), OrdMap.mem_entries.mpr h, rfl⟩

theorem mem_toList_add {s : OrdSet K} {k j : K} : j ∈ toList (add s k) ↔ j = k ∨ j ∈ toList s := by
  rw [mem_toList, mem_toList, add, OrdMap.find?_insert]
  by_cases h : j = k <;> simp [h]

theorem find?_foldl_insert : ∀ {l : List K} {s : OrdSet K} {k : K},
    OrdMap.find? (l.foldl (fun s k => OrdMap.insert s k ()) s) k = some () ↔
      k ∈ l ∨ s.find? k = some ()
  | [], s, k => by simp
  | a :: l, s, k => by
      rw [List.foldl_cons, find?_foldl_insert, OrdMap.find?_insert, List.mem_cons]
      by_cases hk : k = a <;> simp [hk]

@[simp] theorem mem_toList_ofList {l : List K} {k : K} : k ∈ toList (ofList l) ↔ k ∈ l := by
  rw [mem_toList, ofList, find?_foldl_insert]
  simp

/-- The members of a set increase. -/
theorem pairwise_toList (s : OrdSet K) : (toList s).Pairwise (· < ·) :=
  List.pairwise_map.mpr s.increasing

theorem nodup_toList (s : OrdSet K) : (toList s).Nodup :=
  (pairwise_toList s).imp (fun h => ne_of_lt h)

/-- Increasing lists with the same elements are equal. -/
theorem eq_of_pairwise {l l' : List K} (h : l.Pairwise (· < ·)) (h' : l'.Pairwise (· < ·))
    (hmem : ∀ k, k ∈ l ↔ k ∈ l') : l = l' :=
  List.Perm.eq_of_pairwise (fun _ _ _ _ hab hba => absurd hab (lt_asymm hba)) h h'
    ((List.perm_ext_iff_of_nodup (h.imp ne_of_lt) (h'.imp ne_of_lt)).mpr hmem)

/-- A part of a set with as many members is all of it. -/
theorem subset_of_length_le {s t : OrdSet K} (hsub : ∀ k ∈ toList s, k ∈ toList t)
    (hlen : (toList t).length ≤ (toList s).length) : ∀ k ∈ toList t, k ∈ toList s := by
  have hperm : (toList s).Perm (toList t) :=
    ((nodup_toList s).subperm hsub).perm_of_length_le hlen
  exact fun k hk => hperm.mem_iff.mpr hk

end OrdSet
