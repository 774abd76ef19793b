import TorrentNode.Lib.OrdMap

/-!
# Scans under a prefix

Keys that are strings stand in lexicographic order, so the bindings under one
prefix stand together: a cursor placed at the prefix walks exactly them before it
meets a key outside. A binding put in front of all others under a prefix makes
them a stack.
-/

section Order

variable {α : Type} [LinearOrder α]

theorem List.cons_le_cons_iff' {a b : α} {l l' : List α} :
    a :: l ≤ b :: l' ↔ a < b ∨ a = b ∧ l ≤ l' := by
  rw [← not_lt, List.cons_lt_cons_iff, ← not_lt (a := l')]
  rcases lt_trichotomy a b with h | rfl | h
  · simp [h, h.ne', lt_asymm h]
  · simp
  · simp [h, h.ne', lt_asymm h]

theorem List.le_nil_iff {l : List α} : l ≤ [] ↔ l = [] := by
  rw [← not_lt]
  cases l <;> simp

theorem List.nil_le' (l : List α) : [] ≤ l := not_lt.mp (List.not_lt_nil l)

/-- A prefix stands in front of what is under it. -/
theorem List.IsPrefix.le' : ∀ {p k : List α}, p <+: k → p ≤ k
  | [], k, _ => List.nil_le' k
  | _ :: _, [], h => absurd (List.prefix_nil.mp h) (List.cons_ne_nil _ _)
  | _ :: _, _ :: _, h => by
      obtain ⟨rfl, htail⟩ := List.cons_prefix_cons.mp h
      exact List.cons_le_cons_iff'.mpr (Or.inr ⟨rfl, htail.le'⟩)

theorem List.append_lt_append_iff : ∀ {p l l' : List α}, p ++ l < p ++ l' ↔ l < l'
  | [], _, _ => Iff.rfl
  | a :: p, l, l' => by
      rw [List.cons_append, List.cons_append, List.cons_lt_cons_iff, List.append_lt_append_iff]
      simp

/-- Nothing stands between a prefix and a key under it but keys under it. -/
theorem List.prefix_of_between :
    ∀ {p k k' : List α}, p ≤ k → k ≤ k' → p <+: k' → p <+: k
  | [], _, _, _, _, _ => List.nil_prefix
  | a :: p, [], _, h, _, _ => absurd (List.le_nil_iff.mp h) (List.cons_ne_nil a p)
  | a :: p, b :: k, [], _, _, h => absurd (List.prefix_nil.mp h) (List.cons_ne_nil a p)
  | a :: p, b :: k, c :: k', hp, hk, hpre => by
      obtain ⟨rfl, htail⟩ := List.cons_prefix_cons.mp hpre
      rcases List.cons_le_cons_iff'.mp hp with hlt | ⟨rfl, hp'⟩
      · rcases List.cons_le_cons_iff'.mp hk with hlt' | ⟨rfl, _⟩
        · exact absurd hlt (lt_asymm hlt')
        · exact absurd hlt (lt_irrefl _)
      · rcases List.cons_le_cons_iff'.mp hk with hlt' | ⟨_, hk'⟩
        · exact absurd hlt' (lt_irrefl _)
        · exact List.cons_prefix_cons.mpr ⟨rfl, List.prefix_of_between hp' hk' htail⟩

/-- The keys from `p ++ [a]` up to `p ++ [b]`, `b` next after `a`, are those under `p ++ [a]`. -/
theorem List.between_iff_prefix {a b : α} (hab : a < b) (hnext : ∀ c, a ≤ c → c < b → c = a) :
    ∀ {p k : List α}, (p ++ [a] ≤ k ∧ k < p ++ [b]) ↔ p ++ [a] <+: k
  | [], [] => by simp [List.le_nil_iff]
  | [], c :: k => by
      rw [List.nil_append, List.nil_append, List.cons_le_cons_iff', List.cons_lt_cons_iff,
        List.cons_prefix_cons]
      constructor
      · rintro ⟨hl, hr⟩
        have hca : a ≤ c := hl.elim le_of_lt (fun h => h.1.le)
        have hcb : c < b := hr.elim id (fun h => absurd h.2 (List.not_lt_nil k))
        exact ⟨(hnext c hca hcb).symm, List.nil_prefix⟩
      · rintro ⟨rfl, _⟩
        exact ⟨Or.inr ⟨rfl, List.nil_le' k⟩, Or.inl hab⟩
  | x :: p, [] => by
      constructor
      · rintro ⟨hl, _⟩
        exact absurd (List.le_nil_iff.mp hl) (List.cons_ne_nil _ _)
      · intro h
        exact absurd (List.prefix_nil.mp h) (List.cons_ne_nil _ _)
  | x :: p, y :: k => by
      rw [List.cons_append, List.cons_append, List.cons_le_cons_iff', List.cons_lt_cons_iff,
        List.cons_prefix_cons, ← List.between_iff_prefix hab hnext]
      constructor
      · rintro ⟨hl | ⟨rfl, hl⟩, hr | ⟨hxy, hr⟩⟩
        · exact absurd hl (lt_asymm hr)
        · exact absurd (hxy ▸ hl) (lt_irrefl _)
        · exact absurd hr (lt_irrefl _)
        · exact ⟨rfl, hl, hr⟩
      · rintro ⟨rfl, hl, hr⟩
        exact ⟨Or.inr ⟨rfl, hl⟩, Or.inr ⟨rfl, hr⟩⟩

end Order

namespace OrdMap

variable {α V : Type} [LinearOrder α] {m m' : OrdMap (List α) V} {p k : List α} {v : V}

/-- The bindings under a prefix. -/
def under (m : OrdMap (List α) V) (p : List α) : List (List α × V) :=
  m.entries.filter (fun e => p <+: e.1)

theorem mem_under {e : List α × V} : e ∈ m.under p ↔ p <+: e.1 ∧ m.find? e.1 = some e.2 := by
  unfold under
  rw [List.mem_filter, ← mem_entries, and_comm]
  simp

theorem increasing_under : Increasing (m.under p) := m.increasing.filter _

@[simp] theorem under_empty : (∅ : OrdMap (List α) V).under p = [] := rfl

/-- In a sorted list the elements up to the first that fails are all that pass, if nothing that
passes stands after one that fails. -/
theorem takeWhile_eq_filter {β : Type} {q : β → Bool} :
    ∀ {l : List β}, l.Pairwise (fun a b => q b = true → q a = true) → l.takeWhile q = l.filter q
  | [], _ => rfl
  | a :: l, h => by
      obtain ⟨ha, hl⟩ := List.pairwise_cons.mp h
      cases hq : q a with
      | true =>
          rw [List.takeWhile_cons_of_pos hq, List.filter_cons_of_pos hq, takeWhile_eq_filter hl]
      | false =>
          rw [List.takeWhile_cons_of_neg (by rw [hq]; simp), eq_comm, List.filter_eq_nil_iff]
          intro b hb hqb
          rcases List.mem_cons.mp hb with rfl | hb
          · rw [hq] at hqb
            exact Bool.false_ne_true hqb
          · rw [ha b hb hqb] at hq
            exact Bool.false_ne_true hq.symm

/-- **A cursor placed at a prefix** walks the bindings under it. -/
theorem takeWhile_seek : (m.seek p).takeWhile (fun e => p <+: e.1) = m.under p := by
  rw [takeWhile_eq_filter]
  · refine Increasing.ext ((m.increasing_seek p).filter _) increasing_under (fun e => ?_)
    rw [List.mem_filter, mem_seek, mem_under]
    constructor
    · rintro ⟨⟨_, hf⟩, hp⟩
      exact ⟨by simpa using hp, hf⟩
    · rintro ⟨hp, hf⟩
      exact ⟨⟨hp.le', hf⟩, by simpa using hp⟩
  · refine List.Pairwise.imp_of_mem ?_ (m.increasing_seek p)
    intro e e' he _ hlt hp
    have hpe := (mem_seek.mp he).1
    simpa using List.prefix_of_between hpe hlt.le (by simpa using hp)

/-- A cursor that runs from `p ++ [a]` to `p ++ [b]`, `b` next after `a`. -/
theorem takeWhile_seek_range {a b : α} (hab : a < b) (hnext : ∀ c, a ≤ c → c < b → c = a) :
    (m.seek (p ++ [a])).takeWhile (fun e => e.1 < p ++ [b]) = m.under (p ++ [a]) := by
  rw [takeWhile_eq_filter]
  · refine Increasing.ext ((m.increasing_seek _).filter _) increasing_under (fun e => ?_)
    rw [List.mem_filter, mem_seek, mem_under, ← List.between_iff_prefix hab hnext,
      decide_eq_true_iff]
    tauto
  · refine (m.increasing_seek _).imp ?_
    intro e e' hlt hp
    exact decide_eq_true (hlt.trans (of_decide_eq_true hp))

theorem under_congr (h : ∀ k, p <+: k → m'.find? k = m.find? k) : m'.under p = m.under p :=
  increasing_under.ext increasing_under (fun e => by
    rw [mem_under, mem_under]
    exact and_congr_right (fun hp => by rw [h _ hp]))

/-- **Push**: a binding in front of the others. -/
theorem under_insert_first (hk : p <+: k) (hfirst : ∀ e ∈ m.under p, k < e.1) :
    (m.insert k v).under p = (k, v) :: m.under p := by
  refine increasing_under.ext (List.pairwise_cons.mpr ⟨hfirst, increasing_under⟩) (fun e => ?_)
  rw [List.mem_cons, mem_under, mem_under, find?_insert]
  by_cases he : e.1 = k
  · have hout : m.find? k ≠ some e.2 := fun hf =>
      absurd (hfirst (k, e.2) (mem_under.mpr ⟨hk, hf⟩)) (lt_irrefl k)
    rw [if_pos he, he]
    constructor
    · rintro ⟨_, hv⟩
      exact Or.inl (Prod.ext he (Option.some.inj hv).symm)
    · rintro (h | ⟨_, hf⟩)
      · rw [h]
        exact ⟨hk, rfl⟩
      · exact absurd hf hout
  · rw [if_neg he]
    constructor
    · exact fun h => Or.inr h
    · rintro (h | h)
      · exact absurd (congrArg Prod.fst h) he
      · exact h

/-- **Append**: a binding behind the others. -/
theorem under_insert_last (hk : p <+: k) (hlast : ∀ e ∈ m.under p, e.1 < k) :
    (m.insert k v).under p = m.under p ++ [(k, v)] := by
  refine increasing_under.ext ?_ (fun e => ?_)
  · refine List.pairwise_append.mpr ⟨increasing_under, List.pairwise_singleton _ _, ?_⟩
    intro e he e' he'
    rw [List.mem_singleton.mp he']
    exact hlast e he
  · rw [List.mem_append, List.mem_singleton, mem_under, mem_under, find?_insert]
    by_cases he : e.1 = k
    · have hout : m.find? k ≠ some e.2 := fun hf =>
        absurd (hlast (k, e.2) (mem_under.mpr ⟨hk, hf⟩)) (lt_irrefl k)
      rw [if_pos he, he]
      constructor
      · rintro ⟨_, hv⟩
        exact Or.inr (Prod.ext he (Option.some.inj hv).symm)
      · rintro (⟨_, hf⟩ | h)
        · exact absurd hf hout
        · rw [h]
          exact ⟨hk, rfl⟩
    · rw [if_neg he]
      constructor
      · exact fun h => Or.inl h
      · rintro (h | h)
        · exact h
        · exact absurd (congrArg Prod.fst h) he

/-- A binding is dropped. -/
theorem under_erase : (m.erase k).under p = (m.under p).filter (fun e => e.1 ≠ k) := by
  refine increasing_under.ext (increasing_under.filter _) (fun e => ?_)
  rw [List.mem_filter, mem_under, mem_under, find?_erase, decide_eq_true_iff]
  by_cases he : e.1 = k
  · simp [he]
  · simp [he]

/-- **Pop**: the first binding is dropped. -/
theorem under_erase_first {rest : List (List α × V)} (h : m.under p = (k, v) :: rest) :
    (m.erase k).under p = rest := by
  have hinc : Increasing ((k, v) :: rest) := h ▸ increasing_under
  rw [under_erase, h, List.filter_cons_of_neg (by simp), List.filter_eq_self]
  intro e he
  exact decide_eq_true ((List.pairwise_cons.mp hinc).1 e he).ne'

/-- A binding behind the first leaves the first where it is. -/
theorem under_insert_behind {e : List α × V} {rest : List (List α × V)} (h : m.under p = e :: rest)
    (hk : e.1 < k) : ∃ rest', (m.insert k v).under p = e :: rest' := by
  have hinc : Increasing (e :: rest) := h ▸ increasing_under
  obtain ⟨hpre, hfind⟩ := mem_under.mp (show e ∈ m.under p from h ▸ List.mem_cons_self)
  have hmem : e ∈ (m.insert k v).under p :=
    mem_under.mpr ⟨hpre, by rw [find?_insert_ne hk.ne, hfind]⟩
  cases hl : (m.insert k v).under p with
  | nil => rw [hl] at hmem; exact absurd hmem List.not_mem_nil
  | cons a l =>
      have hincl : Increasing (a :: l) := hl ▸ increasing_under
      rw [hl] at hmem
      rcases List.mem_cons.mp hmem with rfl | hmem
      · exact ⟨l, rfl⟩
      · have hlt := (List.pairwise_cons.mp hincl).1 e hmem
        obtain ⟨hpa, hfa⟩ := mem_under.mp (show a ∈ (m.insert k v).under p from
          hl ▸ List.mem_cons_self)
        rw [find?_insert_ne (hlt.trans hk).ne] at hfa
        -- so it was there before, in front of the first
        have ha : a ∈ e :: rest := h ▸ mem_under.mpr ⟨hpa, hfa⟩
        rcases List.mem_cons.mp ha with rfl | ha
        · exact absurd hlt (lt_irrefl _)
        · exact absurd (hlt.trans ((List.pairwise_cons.mp hinc).1 a ha)) (lt_irrefl _)

end OrdMap
