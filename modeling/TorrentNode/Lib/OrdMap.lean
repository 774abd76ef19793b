import Mathlib.Data.List.Induction
import Mathlib.Data.List.Lex
import Mathlib.Order.Lattice

/-!
# Ordered finite maps

A finite map over a linear order, held as its bindings in increasing key order.
The order is part of the value, so two maps with the same bindings are the same
map, and walking a map in key order is walking a list.
-/

namespace OrdMap

section Bindings

variable {K V : Type} [LinearOrder K]

/-- Strictly increasing in key. -/
def Increasing (l : List (K × V)) : Prop := l.Pairwise (fun a b => a.1 < b.1)

/-- The value bound to `k`. -/
def lookup (k : K) : List (K × V) → Option V
  | [] => none
  | (k', v) :: l => if k = k' then some v else lookup k l

/-- Bind `k` to `v`, replacing an older binding. -/
def put (k : K) (v : V) : List (K × V) → List (K × V)
  | [] => [(k, v)]
  | (k', v') :: l =>
    if k < k' then (k, v) :: (k', v') :: l
    else if k = k' then (k, v) :: l
    else (k', v') :: put k v l

/-- A binding of a new key is one more. -/
theorem length_put_of_not_mem {k : K} {v : V} :
    ∀ {l : List (K × V)}, (∀ e ∈ l, e.1 ≠ k) → (put k v l).length = l.length + 1
  | [], _ => rfl
  | (k', v') :: l, h => by
      have hne : k ≠ k' := fun he => h _ List.mem_cons_self he.symm
      simp only [put, if_neg hne]
      split
      · rfl
      · rw [List.length_cons, List.length_cons,
          length_put_of_not_mem (fun e he => h e (List.mem_cons_of_mem _ he))]

/-- A binding of a new key, wherever it goes. -/
theorem perm_put_of_not_mem {k : K} {v : V} :
    ∀ {l : List (K × V)}, (∀ e ∈ l, e.1 ≠ k) → (put k v l).Perm ((k, v) :: l)
  | [], _ => List.Perm.refl _
  | (k', v') :: l, h => by
      have hne : k ≠ k' := fun he => h _ List.mem_cons_self he.symm
      simp only [put, if_neg hne]
      split
      · exact List.Perm.refl _
      · exact ((perm_put_of_not_mem (fun e he => h e (List.mem_cons_of_mem _ he))).cons _).trans
          (List.Perm.swap _ _ _)

/-- A binding of a new key does not disturb the bindings of another kind. -/
theorem filter_put_of_not_mem {p : K × V → Bool} {k : K} {v : V} (hp : p (k, v) = false) :
    ∀ {l : List (K × V)}, (∀ e ∈ l, e.1 ≠ k) → (put k v l).filter p = l.filter p
  | [], _ => by simp [put, hp]
  | (k', v') :: l, h => by
      have hne : k ≠ k' := fun he => h _ List.mem_cons_self he.symm
      simp only [put, if_neg hne]
      split
      · rw [List.filter_cons_of_neg (by simp [hp])]
      · rw [List.filter_cons, List.filter_cons,
          filter_put_of_not_mem hp (fun e he => h e (List.mem_cons_of_mem _ he))]

/-- A key above all others goes to the end. -/
theorem put_of_forall_lt {k : K} {v : V} :
    ∀ {l : List (K × V)}, (∀ e ∈ l, e.1 < k) → put k v l = l ++ [(k, v)]
  | [], _ => rfl
  | (k', v') :: l, h => by
      have hlt : k' < k := h _ List.mem_cons_self
      rw [put, if_neg (lt_asymm hlt), if_neg (ne_of_gt hlt),
        put_of_forall_lt (fun e he => h e (List.mem_cons_of_mem _ he)), List.cons_append]

/-- Drop the binding of `k`. -/
def del (k : K) (l : List (K × V)) : List (K × V) := l.filter (fun e => e.1 ≠ k)

theorem mem_put {k : K} {v : V} {e : K × V} :
    ∀ {l : List (K × V)}, e ∈ put k v l → e = (k, v) ∨ e ∈ l
  | [], h => by simpa [put] using h
  | (k', v') :: l, h => by
      unfold put at h
      split at h
      · simpa using h
      · split at h
        · rcases List.mem_cons.mp h with h | h
          · exact Or.inl h
          · exact Or.inr (List.mem_cons_of_mem _ h)
        · rcases List.mem_cons.mp h with h | h
          · exact Or.inr (h ▸ List.mem_cons_self)
          · exact (mem_put h).imp id (List.mem_cons_of_mem _)

theorem increasing_put {k : K} {v : V} :
    ∀ {l : List (K × V)}, Increasing l → Increasing (put k v l)
  | [], _ => List.pairwise_singleton _ _
  | (k', v') :: l, h => by
      obtain ⟨hhead, htail⟩ := List.pairwise_cons.mp h
      unfold put
      split
      · rename_i hlt
        refine List.pairwise_cons.mpr ⟨?_, h⟩
        intro e he
        rcases List.mem_cons.mp he with he | he
        · exact he ▸ hlt
        · exact hlt.trans (hhead e he)
      · rename_i hnlt
        split
        · rename_i heq
          exact List.pairwise_cons.mpr ⟨fun e he => heq ▸ hhead e he, htail⟩
        · rename_i hne
          refine List.pairwise_cons.mpr ⟨?_, increasing_put htail⟩
          intro e he
          rcases mem_put he with he | he
          · exact he ▸ lt_of_le_of_ne (not_lt.mp hnlt) (Ne.symm hne)
          · exact hhead e he

theorem increasing_del {k : K} {l : List (K × V)} (h : Increasing l) : Increasing (del k l) :=
  h.filter _

theorem lookup_eq_none {k : K} :
    ∀ {l : List (K × V)}, (∀ e ∈ l, e.1 ≠ k) → lookup k l = none
  | [], _ => rfl
  | (k', v') :: l, h => by
      have hne : k ≠ k' := fun he => h (k', v') List.mem_cons_self he.symm
      rw [lookup, if_neg hne]
      exact lookup_eq_none (fun e he => h e (List.mem_cons_of_mem _ he))

/-- In an increasing list the bindings are exactly what lookup returns. -/
theorem mem_iff_lookup {k : K} {v : V} :
    ∀ {l : List (K × V)}, Increasing l → ((k, v) ∈ l ↔ lookup k l = some v)
  | [], _ => by simp [lookup]
  | (k', v') :: l, h => by
      obtain ⟨hhead, htail⟩ := List.pairwise_cons.mp h
      by_cases hk : k = k'
      · subst hk
        have hout : (k, v) ∉ l := fun hm => absurd (hhead _ hm) (lt_irrefl k)
        simp [lookup, hout, eq_comm]
      · simp [lookup, hk, mem_iff_lookup htail]

/-- An increasing list is determined by its bindings. -/
theorem Increasing.ext {l l' : List (K × V)} (h : Increasing l) (h' : Increasing l')
    (hmem : ∀ e, e ∈ l ↔ e ∈ l') : l = l' := by
  have hnd : ∀ {l : List (K × V)}, Increasing l → l.Nodup :=
    fun hl => hl.imp (fun hlt he => absurd (congrArg Prod.fst he) hlt.ne)
  have hperm : l.Perm l' := (List.perm_ext_iff_of_nodup (hnd h) (hnd h')).mpr hmem
  exact hperm.eq_of_pairwise (fun x y _ _ hxy hyx => absurd hxy (not_lt.mpr hyx.le)) h h'

theorem lookup_put {k j : K} {v : V} :
    ∀ {l : List (K × V)}, lookup j (put k v l) = if j = k then some v else lookup j l
  | [] => by simp [put, lookup]
  | (k', v') :: l => by
      unfold put
      split
      · simp [lookup]
      · split
        · rename_i heq
          subst heq
          by_cases hj : j = k <;> simp [lookup, hj]
        · rename_i hne
          by_cases hj : j = k'
          · subst hj; simp [lookup, Ne.symm hne]
          · simp [lookup, hj, lookup_put]

theorem lookup_del {k j : K} :
    ∀ {l : List (K × V)}, lookup j (del k l) = if j = k then none else lookup j l
  | [] => by simp [del, lookup]
  | (k', v') :: l => by
      have ih := lookup_del (k := k) (j := j) (l := l)
      unfold del at ih ⊢
      by_cases hk : k' = k
      · subst hk
        by_cases hj : j = k' <;> simp_all [lookup]
      · by_cases hj : j = k'
        · subst hj; simp [lookup, hk]
        · simpa [lookup, hk, hj] using ih

end Bindings

end OrdMap

/-- A finite map from `K` to `V`, its bindings kept in increasing key order. -/
structure OrdMap (K V : Type) [LinearOrder K] where
  /-- The bindings. -/
  entries : List (K × V)
  /-- Each key once, in order. -/
  increasing : OrdMap.Increasing entries

namespace OrdMap

variable {K V : Type} [LinearOrder K]

instance : EmptyCollection (OrdMap K V) := ⟨⟨[], List.Pairwise.nil⟩⟩

instance : Inhabited (OrdMap K V) := ⟨∅⟩

instance [DecidableEq V] : DecidableEq (OrdMap K V) := fun a b =>
  decidable_of_iff (a.entries = b.entries)
    ⟨fun h => by cases a; cases b; cases h; rfl, fun h => h ▸ rfl⟩

/-- The value bound to `k`. -/
def find? (m : OrdMap K V) (k : K) : Option V := lookup k m.entries

/-- Bind `k` to `v`, replacing an older binding. -/
def insert (m : OrdMap K V) (k : K) (v : V) : OrdMap K V :=
  ⟨put k v m.entries, increasing_put m.increasing⟩

/-- Drop the binding of `k`. -/
def erase (m : OrdMap K V) (k : K) : OrdMap K V :=
  ⟨del k m.entries, increasing_del m.increasing⟩

/-- Bind `k` to `v` unless it is bound already. -/
def emplace (m : OrdMap K V) (k : K) (v : V) : OrdMap K V :=
  match m.find? k with
  | some _ => m
  | none => m.insert k v

/-- Change the value bound to `k`, if there is one. -/
def modify (m : OrdMap K V) (k : K) (f : V → V) : OrdMap K V :=
  match m.find? k with
  | some v => m.insert k (f v)
  | none => m

/-- Change all values. -/
def mapValues {W : Type} (f : V → W) (m : OrdMap K V) : OrdMap K W :=
  ⟨m.entries.map (fun e => (e.1, f e.2)), by
    rw [Increasing, List.pairwise_map]; exact m.increasing⟩

/-- The bindings from key `k` on, in order. -/
def seek (m : OrdMap K V) (k : K) : List (K × V) := m.entries.filter (fun e => k ≤ e.1)

@[simp] theorem find?_empty (k : K) : (∅ : OrdMap K V).find? k = none := rfl

theorem mem_entries {m : OrdMap K V} {k : K} {v : V} :
    (k, v) ∈ m.entries ↔ m.find? k = some v := mem_iff_lookup m.increasing

/-- Maps that answer alike are equal. -/
@[ext] theorem ext {a b : OrdMap K V} (h : ∀ k, a.find? k = b.find? k) : a = b := by
  have hmem : ∀ e, e ∈ a.entries ↔ e ∈ b.entries := by
    rintro ⟨k, v⟩
    rw [mem_entries, mem_entries, h]
  have heq : a.entries = b.entries := a.increasing.ext b.increasing hmem
  cases a; cases b; cases heq; rfl

theorem find?_insert {m : OrdMap K V} {k j : K} {v : V} :
    (m.insert k v).find? j = if j = k then some v else m.find? j := lookup_put

@[simp] theorem find?_insert_self {m : OrdMap K V} {k : K} {v : V} :
    (m.insert k v).find? k = some v := by rw [find?_insert, if_pos rfl]

theorem find?_insert_ne {m : OrdMap K V} {k j : K} {v : V} (h : j ≠ k) :
    (m.insert k v).find? j = m.find? j := by rw [find?_insert, if_neg h]

/-- What is found after a list of entries with different keys was put in. -/
theorem find?_foldl_insert : ∀ {l : List (K × V)} {m : OrdMap K V} {k : K} {v : V},
    (l.map Prod.fst).Nodup →
      ((l.foldl (fun m e => m.insert e.1 e.2) m).find? k = some v ↔
        (k, v) ∈ l ∨ k ∉ l.map Prod.fst ∧ m.find? k = some v)
  | [], m, k, v, _ => by simp
  | (j, w) :: l, m, k, v, h => by
      rw [List.map_cons, List.nodup_cons] at h
      rw [List.foldl_cons, find?_foldl_insert h.2, find?_insert]
      by_cases hk : k = j
      · subst hk
        have hnot : (k, v) ∉ l := fun hmem => h.1 (List.mem_map.mpr ⟨_, hmem, rfl⟩)
        constructor
        · intro hfound
          rcases hfound with hmem | ⟨-, hw⟩
          · exact absurd hmem hnot
          · rw [if_pos rfl] at hw
            exact Or.inl (Option.some.inj hw ▸ List.mem_cons_self)
        · intro hfound
          rcases hfound with hmem | ⟨hnone, -⟩
          · rcases List.mem_cons.mp hmem with heq | hmem
            · exact Or.inr ⟨h.1, by rw [if_pos rfl, (Prod.mk.inj heq).2]⟩
            · exact absurd hmem hnot
          · exact absurd List.mem_cons_self hnone
      · rw [if_neg hk]
        simp [hk]

/-- Under a key that was put in stands one of the values it was put in with. -/
theorem find?_foldl_insert_of_mem {k : K} {v : V} :
    ∀ {l : List (K × V)} {m : OrdMap K V}, (k, v) ∈ l →
      ∃ w, (k, w) ∈ l ∧ (l.foldl (fun m e => m.insert e.1 e.2) m).find? k = some w := by
  intro l
  induction l using List.reverseRecOn with
  | nil => exact fun h => absurd h List.not_mem_nil
  | append_singleton l e ih =>
      intro m h
      rw [List.foldl_append]
      by_cases hk : k = e.1
      · subst hk
        exact ⟨e.2, by simp, find?_insert_self⟩
      · have hmem : (k, v) ∈ l := by
          rcases List.mem_append.mp h with h | h
          · exact h
          · exact absurd (congrArg Prod.fst (List.mem_singleton.mp h)) hk
        obtain ⟨w, hw, hfind⟩ := ih (m := m) hmem
        exact ⟨w, List.mem_append_left _ hw, (find?_insert_ne hk).trans hfind⟩

theorem find?_erase {m : OrdMap K V} {k j : K} :
    (m.erase k).find? j = if j = k then none else m.find? j := lookup_del

@[simp] theorem find?_erase_self {m : OrdMap K V} {k : K} : (m.erase k).find? k = none := by
  rw [find?_erase, if_pos rfl]

theorem find?_erase_ne {m : OrdMap K V} {k j : K} (h : j ≠ k) :
    (m.erase k).find? j = m.find? j := by rw [find?_erase, if_neg h]

theorem find?_modify {m : OrdMap K V} {k j : K} {f : V → V} :
    (m.modify k f).find? j = if j = k then (m.find? k).map f else m.find? j := by
  unfold modify
  cases hk : m.find? k with
  | some v => simp [find?_insert]
  | none =>
      by_cases hj : j = k
      · subst hj; simp [hk]
      · simp [hj]

theorem find?_emplace_of_none {m : OrdMap K V} {k j : K} {v : V} (h : m.find? k = none) :
    (m.emplace k v).find? j = if j = k then some v else m.find? j := by
  unfold emplace; rw [h]; exact find?_insert

theorem find?_emplace_ne {m : OrdMap K V} {k j : K} {v : V} (h : j ≠ k) :
    (m.emplace k v).find? j = m.find? j := by
  unfold emplace
  split
  · rfl
  · exact find?_insert_ne h

/-- What is bound stays bound. -/
theorem find?_emplace_of_some {m : OrdMap K V} {k j : K} {v w : V} (h : m.find? j = some v) :
    (m.emplace k w).find? j = some v := by
  unfold emplace
  split
  · exact h
  · rename_i hk
    rw [find?_insert_ne (fun he => by rw [he, hk] at h; exact absurd h (by simp)), h]

theorem ne_of_find?_eq_none {m : OrdMap K V} {k : K} (h : m.find? k = none) :
    ∀ e ∈ m.entries, e.1 ≠ k := by
  rintro e he rfl
  have hfind : m.find? e.1 = some e.2 := mem_entries.mp he
  rw [h] at hfind
  cases hfind

theorem entries_emplace_of_none {m : OrdMap K V} {k : K} {v : V} (h : m.find? k = none) :
    (m.emplace k v).entries = put k v m.entries := by
  unfold emplace; rw [h]; rfl

theorem mem_entries_emplace {m : OrdMap K V} {k : K} {v : V} {e : K × V}
    (h : e ∈ (m.emplace k v).entries) : e = (k, v) ∨ e ∈ m.entries := by
  unfold emplace at h
  split at h
  · exact Or.inr h
  · exact mem_put h

/-- What is bound newly does not disturb the bindings of another kind. -/
theorem filter_emplace {m : OrdMap K V} {k : K} {v : V} {p : K × V → Bool}
    (hp : p (k, v) = false) : (m.emplace k v).entries.filter p = m.entries.filter p := by
  cases hk : m.find? k with
  | some w => unfold emplace; rw [hk]
  | none => rw [entries_emplace_of_none hk, filter_put_of_not_mem hp (ne_of_find?_eq_none hk)]

theorem length_emplace_of_none {m : OrdMap K V} {k : K} {v : V} (h : m.find? k = none) :
    (m.emplace k v).entries.length = m.entries.length + 1 := by
  rw [entries_emplace_of_none h, length_put_of_not_mem (ne_of_find?_eq_none h)]

theorem emplace_of_some {m : OrdMap K V} {k : K} {v w : V} (h : m.find? k = some w) :
    m.emplace k v = m := by unfold emplace; rw [h]

theorem insert_insert {m : OrdMap K V} {k : K} {v w : V} :
    (m.insert k v).insert k w = m.insert k w := by
  ext j
  simp only [find?_insert]
  split <;> rfl

/-- Erasing a fresh binding gives the map back. -/
theorem erase_insert {m : OrdMap K V} {k : K} {v : V} (h : m.find? k = none) :
    (m.insert k v).erase k = m := by
  ext j
  by_cases hj : j = k
  · subst hj; simp [h]
  · simp [find?_erase, find?_insert, hj]

theorem lookup_map {W : Type} (f : V → W) {k : K} :
    ∀ l : List (K × V), lookup k (l.map (fun e => (e.1, f e.2))) = (lookup k l).map f
  | [] => rfl
  | (k', v') :: l => by
      rw [List.map_cons, lookup, lookup]
      split
      · rfl
      · exact lookup_map f l

theorem find?_mapValues {W : Type} {m : OrdMap K V} (f : V → W) {k : K} :
    (m.mapValues f).find? k = (m.find? k).map f := lookup_map f m.entries

theorem mapValues_insert {W : Type} {m : OrdMap K V} (f : V → W) {k : K} {v : V} :
    (m.insert k v).mapValues f = (m.mapValues f).insert k (f v) := by
  ext j
  rw [find?_mapValues, find?_insert, find?_insert, find?_mapValues]
  split <;> rfl

theorem mapValues_emplace {W : Type} {m : OrdMap K V} (f : V → W) {k : K} {v : V} :
    (m.emplace k v).mapValues f = (m.mapValues f).emplace k (f v) := by
  unfold emplace
  rw [find?_mapValues]
  cases m.find? k with
  | none => exact mapValues_insert f
  | some w => rfl

theorem mem_seek {m : OrdMap K V} {k : K} {e : K × V} :
    e ∈ m.seek k ↔ k ≤ e.1 ∧ m.find? e.1 = some e.2 := by
  unfold seek
  rw [List.mem_filter, ← mem_entries]
  simp [and_comm]

theorem increasing_seek (m : OrdMap K V) (k : K) : Increasing (m.seek k) := m.increasing.filter _

end OrdMap
