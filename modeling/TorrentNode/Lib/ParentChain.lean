import Mathlib.Data.Set.Card
import Mathlib.Logic.Relation

/-!
# Chains of parents

Where everything has at most one parent, going up from one place passes a single chain.
The chain ends iff there is no cycle above the place, and then it passes everything
above it once.
-/

namespace ParentChain

variable {α : Type} (up : α → Option α)

/-- One place is the parent of the other, or of its parent, and so on. -/
def Above : α → α → Prop := Relation.TransGen (fun a b => up a = some b)

/-- Going up from a place passes these and comes to an end. -/
inductive Ends : α → List α → Prop where
  | top {a : α} : up a = none → Ends a []
  | step {a b : α} {l : List α} : up a = some b → Ends b l → Ends a (b :: l)

variable {up} {a b : α} {l l' : List α}

theorem Ends.unique (h : Ends up a l) : ∀ {l' : List α}, Ends up a l' → l = l' := by
  induction h with
  | top hnone =>
      intro l' h'
      cases h' with
      | top _ => rfl
      | step hsome _ => rw [hnone] at hsome; cases hsome
  | step hsome _ ih =>
      intro l' h'
      cases h' with
      | top hnone => rw [hnone] at hsome; cases hsome
      | step hsome' h' =>
          obtain rfl := Option.some.inj (hsome.symm.trans hsome')
          rw [ih h']

/-- The chain from a place above is shorter. -/
theorem Ends.of_above (h : Ends up a l) (hab : Above up a b) :
    ∃ l', Ends up b l' ∧ l'.length < l.length := by
  have hparent : ∀ {c d : α} {m : List α}, Ends up c m → up c = some d →
      ∃ m', Ends up d m' ∧ m'.length < m.length := by
    intro c d m hc hcd
    cases hc with
    | top hnone => rw [hnone] at hcd; cases hcd
    | @step _ e m' hsome hm =>
        obtain rfl := Option.some.inj (hsome.symm.trans hcd)
        exact ⟨m', hm, Nat.lt_succ_self _⟩
  induction hab with
  | single hstep => exact hparent h hstep
  | tail _ hstep ih =>
      obtain ⟨m, hm, hlt⟩ := ih
      obtain ⟨m', hm', hlt'⟩ := hparent hm hstep
      exact ⟨m', hm', hlt'.trans hlt⟩

/-- **A chain that ends does not come from a cycle.** -/
theorem Ends.not_above_self (h : Ends up a l) : ¬ Above up a a := by
  intro hself
  obtain ⟨l', hl', hlt⟩ := h.of_above hself
  rw [h.unique hl'] at hlt
  exact lt_irrefl _ hlt

theorem Ends.mem_iff (h : Ends up a l) : b ∈ l ↔ Above up a b := by
  induction h with
  | top hnone =>
      refine iff_of_false List.not_mem_nil (fun habove => ?_)
      obtain ⟨c, hc, _⟩ := Relation.TransGen.head'_iff.mp habove
      rw [hnone] at hc
      cases hc
  | @step a c l hsome _ ih =>
      rw [List.mem_cons, ih]
      constructor
      · rintro (rfl | habove)
        · exact Relation.TransGen.single hsome
        · exact Relation.TransGen.head hsome habove
      · intro habove
        obtain ⟨d, hd, hrest⟩ := Relation.TransGen.head'_iff.mp habove
        obtain rfl := Option.some.inj (hsome.symm.trans hd)
        rcases Relation.reflTransGen_iff_eq_or_transGen.mp hrest with heq | hrest
        · exact Or.inl heq
        · exact Or.inr hrest

theorem Ends.nodup (h : Ends up a l) : l.Nodup := by
  induction h with
  | top _ => exact List.nodup_nil
  | step _ h ih => exact List.nodup_cons.mpr ⟨fun hmem => h.not_above_self (h.mem_iff.mp hmem), ih⟩

theorem Ends.isChain (h : Ends up a l) : List.IsChain (fun a b => up a = some b) (a :: l) := by
  induction h with
  | top _ => exact List.isChain_singleton _
  | step hsome _ ih => exact List.isChain_cons_cons.mpr ⟨hsome, ih⟩

theorem exists_ends_of_ncard (n : Nat) : ∀ {a : α}, {b | Above up a b}.Finite →
    {b | Above up a b}.ncard ≤ n → (∀ b, Above up a b → ¬ Above up b b) → ∃ l, Ends up a l := by
  induction n with
  | zero =>
      intro a hfinite hcard _
      have hempty : {b | Above up a b} = ∅ := (Set.ncard_eq_zero hfinite).mp (Nat.le_zero.mp hcard)
      cases hup : up a with
      | none => exact ⟨[], .top hup⟩
      | some b =>
          have hmem : b ∈ {b | Above up a b} := Relation.TransGen.single hup
          rw [hempty] at hmem
          cases hmem
  | succ n ih =>
      intro a hfinite hcard hacyclic
      cases hup : up a with
      | none => exact ⟨[], .top hup⟩
      | some b =>
          -- the parent itself is no longer above
          have hsub : {c | Above up b c} ⊂ {c | Above up a c} := by
            refine (Set.ssubset_iff_of_subset ?_).mpr ⟨b, Relation.TransGen.single hup, ?_⟩
            · exact fun c hc => Relation.TransGen.head hup hc
            · exact hacyclic b (Relation.TransGen.single hup)
          have hless := Set.ncard_lt_ncard hsub hfinite
          obtain ⟨l, hl⟩ := ih (hfinite.subset hsub.subset) (by omega)
            (fun c hc => hacyclic c (Relation.TransGen.head hup hc))
          exact ⟨b :: l, .step hup hl⟩

/-- **Without a cycle above it, and with finitely many places above it, a chain ends.** -/
theorem exists_ends (hfinite : {b | Above up a b}.Finite)
    (hacyclic : ∀ b, Above up a b → ¬ Above up b b) : ∃ l, Ends up a l :=
  exists_ends_of_ncard _ hfinite le_rfl hacyclic

end ParentChain
