import Mathlib.Data.List.Induction
import Mathlib.Data.List.Perm.Subperm
import TorrentNode.Lib.PrefixScan

/-!
# Records under names

A store keeps the records of a name under keys made of a prefix, the name, a separator
and a rest that tells the records of the name apart. A scan of the name finds what was
put under the prefix, the name and the separator, whatever name it was put there for.
-/

namespace OrdMap

section

variable {K V W : Type} [LinearOrder K] {l l' : List (K × V)} {k : K}

/-- The map that a list of writes leaves behind. -/
def ofList (l : List (K × V)) : OrdMap K V := l.foldl (fun m e => m.insert e.1 e.2) ∅

theorem ofList_concat (l : List (K × V)) (e : K × V) :
    ofList (l ++ [e]) = (ofList l).insert e.1 e.2 := by
  unfold ofList
  rw [List.foldl_append]
  rfl

theorem mapValues_ofList (f : V → W) (l : List (K × V)) :
    (ofList l).mapValues f = ofList (l.map (fun e => (e.1, f e.2))) := by
  induction l using List.reverseRecOn with
  | nil => rfl
  | append_singleton l e ih =>
      rw [ofList_concat, mapValues_insert, ih, List.map_append, List.map_singleton, ofList_concat]

theorem mem_keys {m : OrdMap K V} : k ∈ m.entries.map Prod.fst ↔ m.find? k ≠ none := by
  rw [List.mem_map, Option.ne_none_iff_exists']
  constructor
  · intro h
    obtain ⟨e, he, rfl⟩ := h
    exact ⟨e.2, mem_entries.mp he⟩
  · intro h
    obtain ⟨v, hv⟩ := h
    exact ⟨(k, v), mem_entries.mpr hv, rfl⟩

/-- **What is there was written.** -/
theorem mem_keys_ofList : k ∈ (ofList l).entries.map Prod.fst ↔ k ∈ l.map Prod.fst := by
  rw [mem_keys]
  induction l using List.reverseRecOn with
  | nil => simp [ofList]
  | append_singleton l e ih =>
      rw [ofList_concat, find?_insert, List.map_append, List.mem_append, List.map_singleton,
        List.mem_singleton, ← ih]
      by_cases h : k = e.1
      · simp [h]
      · simp [h]

theorem nodup_keys (m : OrdMap K V) : (m.entries.map Prod.fst).Nodup := by
  have h : (m.entries.map Prod.fst).Pairwise (· < ·) := List.pairwise_map.mpr m.increasing
  exact h.imp ne_of_lt

/-- More keys, more bindings. -/
theorem length_ofList_lt (hsub : ∀ k ∈ l.map Prod.fst, k ∈ l'.map Prod.fst)
    (hmem : k ∈ l'.map Prod.fst) (hnot : k ∉ l.map Prod.fst) :
    (ofList l).entries.length < (ofList l').entries.length := by
  have hnodup : (k :: (ofList l).entries.map Prod.fst).Nodup :=
    List.nodup_cons.mpr ⟨fun h => hnot (mem_keys_ofList.mp h), nodup_keys _⟩
  have hsubset : k :: (ofList l).entries.map Prod.fst ⊆ (ofList l').entries.map Prod.fst := by
    intro j hj
    rcases List.mem_cons.mp hj with rfl | hj
    · exact mem_keys_ofList.mpr hmem
    · exact mem_keys_ofList.mpr (hsub j (mem_keys_ofList.mp hj))
  have hle := (List.subperm_of_subset hnodup hsubset).length_le
  rw [List.length_cons, List.length_map, List.length_map] at hle
  exact hle

end

section

variable {α V : Type} [LinearOrder α]

/-- A write under a prefix, without the prefix. -/
def strip (p : List α) (e : List α × V) : Option (List α × V) :=
  if p <+: e.1 then some (e.1.drop p.length, e.2) else none

theorem find?_ofList_strip (p : List α) (l : List (List α × V)) (k : List α) :
    (ofList (l.filterMap (strip p))).find? k = (ofList l).find? (p ++ k) := by
  induction l using List.reverseRecOn with
  | nil => rfl
  | append_singleton l e ih =>
      rw [List.filterMap_append, ofList_concat, find?_insert]
      by_cases hp : p <+: e.1
      · obtain ⟨k', hk'⟩ := hp
        have hstrip : [e].filterMap (strip p) = [(k', e.2)] := by
          simp [strip, ← hk']
        rw [hstrip, ofList_concat, find?_insert, ih, ← hk']
        by_cases hk : k = k'
        · rw [if_pos hk, if_pos (congrArg (p ++ ·) hk)]
        · rw [if_neg hk, if_neg (fun h => hk (List.append_cancel_left h))]
      · have hstrip : [e].filterMap (strip p) = [] := by
          simp [strip, hp]
        have hne : p ++ k ≠ e.1 := fun h => hp ⟨k, h⟩
        rw [hstrip, List.append_nil, ih, if_neg hne]

/-- **What a scan finds** are the writes under the prefix. -/
theorem under_ofList (p : List α) (l : List (List α × V)) :
    (ofList l).under p =
      (ofList (l.filterMap (strip p))).entries.map (fun e => (p ++ e.1, e.2)) := by
  refine increasing_under.ext ?_ (fun e => ?_)
  · refine List.pairwise_map.mpr ((ofList (l.filterMap (strip p))).increasing.imp ?_)
    intro a b hab
    exact List.append_lt_append_iff.mpr hab
  · rw [mem_under, List.mem_map]
    constructor
    · intro h
      obtain ⟨⟨k, hk⟩, hfind⟩ := h
      refine ⟨(k, e.2), mem_entries.mpr ?_, Prod.ext hk rfl⟩
      rw [find?_ofList_strip, hk]
      exact hfind
    · intro h
      obtain ⟨e', he', rfl⟩ := h
      have hfind := mem_entries.mp he'
      rw [find?_ofList_strip] at hfind
      exact ⟨List.prefix_append _ _, hfind⟩

end

end OrdMap

namespace NamedKeys

open OrdMap

variable {α V E : Type} {pre name name' rest rest' : List α} {sep : α}

/-- Where the records of a name are looked for. -/
def scan (pre : List α) (sep : α) (name : List α) : List α := pre ++ name ++ [sep]

theorem prefix_scan : pre <+: scan pre sep name := ⟨name ++ [sep], by simp [scan]⟩

/-- With rests of one length a key belongs to one name. -/
theorem key_inj (hlen : rest.length = rest'.length)
    (h : scan pre sep name ++ rest = scan pre sep name' ++ rest') : name = name' ∧ rest = rest' := by
  obtain ⟨hscan, hrest⟩ := List.append_inj' h hlen
  exact ⟨List.append_cancel_left (List.append_cancel_right hscan), hrest⟩

/-- **Names of one length are kept apart.** -/
theorem name_of_same_length (hlen : name.length = name'.length)
    (h : scan pre sep name <+: scan pre sep name' ++ rest) : name = name' := by
  have hscan : (scan pre sep name).length = (scan pre sep name').length := by
    simp [scan, hlen]
  have heq := (List.prefix_of_prefix_length_le h (List.prefix_append _ _) hscan.le).eq_of_length hscan
  exact List.append_cancel_left (List.append_cancel_right heq)

variable [LinearOrder α]

/-- The writes for a name, by their rests. -/
def own (place : E → Option (List α × List α)) (value : E → V) (name : List α) (l : List E) :
    List (List α × V) :=
  l.filterMap (fun e => ((place e).filter (fun p => p.1 = name)).map (fun p => (p.2, value e)))

theorem mem_own {place : E → Option (List α × List α)} {value : E → V} {l : List E}
    {r : List α × V} :
    r ∈ own place value name l ↔ ∃ e ∈ l, place e = some (name, r.1) ∧ value e = r.2 := by
  unfold own
  rw [List.mem_filterMap]
  refine exists_congr (fun e => and_congr_right (fun _ => ?_))
  cases hp : place e with
  | none => simp
  | some p =>
      by_cases hn : p.1 = name
      · rw [Option.filter_some_pos (by simpa using hn)]
        simp [Prod.ext_iff, hn]
      · rw [Option.filter_some_neg (by simpa using hn)]
        simp [Prod.ext_iff, hn]

variable {place : E → Option (List α × List α)} {key : E → List α} {value : E → V} {l : List E}

/-- **The scan finds the writes for the name** when no other key starts the same way. -/
theorem strip_eq_own
    (hplace : ∀ e ∈ l, ∀ p, place e = some p → key e = scan pre sep p.1 ++ p.2)
    (hother : ∀ e ∈ l, place e = none → ¬pre <+: key e)
    (hapart : ∀ e ∈ l, ∀ p, place e = some p → scan pre sep name <+: key e → p.1 = name) :
    (l.map (fun e => (key e, value e))).filterMap (strip (scan pre sep name)) =
      own place value name l := by
  unfold own
  rw [List.filterMap_map]
  refine List.filterMap_congr (fun e he => ?_)
  rw [Function.comp_apply, strip]
  cases hp : place e with
  | none =>
      rw [if_neg (fun h => hother e he hp (prefix_scan.trans h))]
      rfl
  | some p =>
      by_cases hn : p.1 = name
      · have hkey := hplace e he p hp
        rw [hn] at hkey
        rw [Option.filter_some_pos (by simpa using hn), if_pos (hkey ▸ List.prefix_append _ _), hkey,
          List.drop_left]
        rfl
      · rw [Option.filter_some_neg (by simpa using hn),
          if_neg (fun h => hn (hapart e he p hp h))]
        rfl

/-- **A key of another name that starts the same way is found as well.** -/
theorem length_own_lt {width : Nat}
    (hplace : ∀ e ∈ l, ∀ p, place e = some p → key e = scan pre sep p.1 ++ p.2)
    (hwidth : ∀ e ∈ l, ∀ p, place e = some p → p.2.length = width) {e : E} (he : e ∈ l)
    {p : List α × List α} (hp : place e = some p) (hstart : scan pre sep name <+: key e)
    (hne : p.1 ≠ name) :
    (ofList (own place value name l)).entries.length <
      ((ofList (l.map (fun e => (key e, value e)))).under (scan pre sep name)).length := by
  rw [under_ofList, List.length_map]
  obtain ⟨rest, hrest⟩ := hstart
  refine length_ofList_lt (k := rest) ?_ ?_ ?_
  · intro k hk
    obtain ⟨r, hr, rfl⟩ := List.mem_map.mp hk
    obtain ⟨e', he', hp', hv⟩ := mem_own.mp hr
    have hkey := hplace e' he' _ hp'
    refine List.mem_map.mpr ⟨r, List.mem_filterMap.mpr
      ⟨(key e', value e'), List.mem_map_of_mem he', ?_⟩, rfl⟩
    rw [strip, hkey, if_pos (List.prefix_append _ _), List.drop_left, hv]
  · refine List.mem_map.mpr ⟨(rest, value e), List.mem_filterMap.mpr
      ⟨(key e, value e), List.mem_map_of_mem he, ?_⟩, rfl⟩
    rw [strip, ← hrest, if_pos (List.prefix_append _ _), List.drop_left]
  · intro hk
    obtain ⟨r, hr, rfl⟩ := List.mem_map.mp hk
    obtain ⟨e', he', hp', -⟩ := mem_own.mp hr
    -- the same key for two names
    have hkey := hrest.trans (hplace e he p hp)
    have hlen : r.1.length = p.2.length := by
      rw [hwidth e he p hp, hwidth e' he' _ hp']
    exact hne (key_inj hlen hkey).1.symm

end NamedKeys
