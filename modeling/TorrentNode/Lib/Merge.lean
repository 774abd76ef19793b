import TorrentNode.Lib.OrdMap

/-!
# Merging maps

To merge bindings into a map is to walk them and bind every key to what its old and
its new value make together. When no key comes twice, the order of the walk does not
matter: the result answers each key from the two values of that key.
-/

namespace OrdMap

variable {K V W : Type} [LinearOrder K]

theorem Increasing.nodup_keys {l : List (K × V)} (h : Increasing l) : (l.map Prod.fst).Nodup := by
  have hkeys : (l.map Prod.fst).Pairwise (· < ·) := List.pairwise_map.mpr h
  exact hkeys.imp ne_of_lt

/-- Where no key comes twice the bindings are what lookup returns. -/
theorem mem_iff_lookup_of_nodup {k : K} {v : V} :
    ∀ {l : List (K × V)}, (l.map Prod.fst).Nodup → ((k, v) ∈ l ↔ lookup k l = some v)
  | [], _ => by simp [lookup]
  | (k', v') :: l, h => by
      rw [List.map_cons, List.nodup_cons] at h
      by_cases hk : k = k'
      · subst hk
        have hout : (k, v) ∉ l := fun hmem => h.1 (List.mem_map.mpr ⟨_, hmem, rfl⟩)
        simp [lookup, hout, eq_comm]
      · simp [lookup, hk, mem_iff_lookup_of_nodup h.2]

/-- The order of the bindings does not matter. -/
theorem lookup_perm {l l' : List (K × V)} (h : l.Perm l') (hl : (l.map Prod.fst).Nodup) (k : K) :
    lookup k l = lookup k l' := by
  have hl' : (l'.map Prod.fst).Nodup := (h.map Prod.fst).nodup_iff.mp hl
  refine Option.ext (fun v => ?_)
  rw [← mem_iff_lookup_of_nodup hl, ← mem_iff_lookup_of_nodup hl', h.mem_iff]

/-- **What a merge answers.** -/
theorem find?_merge (g : Option V → W → V) {k : K} :
    ∀ {l : List (K × W)} {m : OrdMap K V}, (l.map Prod.fst).Nodup →
      (l.foldl (fun m e => m.insert e.1 (g (m.find? e.1) e.2)) m).find? k =
        ((lookup k l).map (g (m.find? k))).or (m.find? k)
  | [], m, _ => rfl
  | (j, w) :: l, m, h => by
      rw [List.map_cons, List.nodup_cons] at h
      rw [List.foldl_cons, find?_merge g h.2, find?_insert]
      by_cases hk : k = j
      · subst hk
        have hnone : lookup k l = none :=
          lookup_eq_none (fun e he hek => h.1 (List.mem_map.mpr ⟨e, he, hek⟩))
        rw [hnone, lookup, if_pos rfl, if_pos rfl]
        rfl
      · rw [lookup, if_neg hk, if_neg hk]

theorem emplace_eq_insert (m : OrdMap K V) (k : K) (v : V) :
    m.emplace k v = m.insert k ((m.find? k).getD v) := by
  ext j
  cases hk : m.find? k with
  | none => rw [find?_emplace_of_none hk, find?_insert, Option.getD_none]
  | some w =>
      rw [emplace_of_some hk, find?_insert, Option.getD_some]
      by_cases hj : j = k
      · rw [hj, if_pos rfl, hk]
      · rw [if_neg hj]

/-- What was there stays, the rest is new. -/
theorem find?_foldl_emplace {l : List (K × V)} {m : OrdMap K V} {k : K}
    (h : (l.map Prod.fst).Nodup) :
    (l.foldl (fun m e => m.emplace e.1 e.2) m).find? k = (m.find? k).or (lookup k l) := by
  simp only [emplace_eq_insert]
  rw [find?_merge (fun old v => old.getD v) h]
  cases m.find? k <;> cases lookup k l <;> rfl

/-- **A map is what its entries put together**, in whatever order they come. -/
theorem foldl_emplace_of_perm {l : List (K × V)} {m : OrdMap K V} (h : l.Perm m.entries) :
    l.foldl (fun m e => m.emplace e.1 e.2) ∅ = m := by
  have hnodup : (l.map Prod.fst).Nodup :=
    (h.map Prod.fst).nodup_iff.mpr m.increasing.nodup_keys
  refine ext (fun k => ?_)
  rw [find?_foldl_emplace hnodup, lookup_perm h hnodup]
  rfl

theorem foldl_insert_of_perm {l : List (K × V)} {m : OrdMap K V} (h : l.Perm m.entries) :
    l.foldl (fun m e => m.insert e.1 e.2) ∅ = m := by
  have hnodup : (l.map Prod.fst).Nodup :=
    (h.map Prod.fst).nodup_iff.mpr m.increasing.nodup_keys
  refine ext (fun k => ?_)
  rw [find?_merge (fun _ v => v) hnodup, lookup_perm h hnodup, find?_empty, Option.or_none]
  exact Option.map_id'

end OrdMap
