import TorrentNode.Lib.CursorReader

/-!
# What a computation can throw

`Throws P x` says that whatever `x` throws satisfies `P`; of the values it says nothing. It
holds of a sequence of steps where it holds of every step, so a bound on the exceptions of a
long computation is put together from bounds on those of its parts.
-/

/-- Whatever `x` throws satisfies `P`. -/
def Throws {ε α : Type} (P : ε → Prop) (x : Except ε α) : Prop := ∀ e, x = .error e → P e

namespace Throws

variable {ε α β : Type} {P Q : ε → Prop}

theorem ok (a : α) : Throws P (.ok a : Except ε α) := fun _ h => by cases h

theorem pure (a : α) : Throws P (Pure.pure a : Except ε α) := ok a

theorem error {e : ε} (h : P e) : Throws P (.error e : Except ε α) := by
  intro e' he
  cases he
  exact h

theorem mono {x : Except ε α} (hx : Throws P x) (h : ∀ e, P e → Q e) : Throws Q x :=
  fun e he => h e (hx e he)

/-- **A step behind another.** -/
theorem bind {x : Except ε α} {f : α → Except ε β} (hx : Throws P x)
    (hf : ∀ a, x = .ok a → Throws P (f a)) : Throws P (x >>= f) := by
  intro e he
  cases hx' : x with
  | error e' =>
      rw [hx'] at he
      cases he
      exact hx _ hx'
  | ok a =>
      rw [hx'] at he
      exact hf a hx' e he

theorem map {x : Except ε α} (hx : Throws P x) (f : α → β) : Throws P (x.map f) := by
  intro e he
  cases hx' : x with
  | error e' =>
      rw [hx'] at he
      cases he
      exact hx _ hx'
  | ok a =>
      rw [hx'] at he
      cases he

theorem ite {c : Prop} [Decidable c] {x y : Except ε α} (hx : c → Throws P x)
    (hy : ¬c → Throws P y) : Throws P (if c then x else y) := by
  by_cases h : c
  · rw [if_pos h]
    exact hx h
  · rw [if_neg h]
    exact hy h

/-- A loop with an accumulator. -/
theorem foldlM {f : β → α → Except ε β} : ∀ {l : List α} {b : β},
    (∀ b, ∀ a ∈ l, Throws P (f b a)) → Throws P (l.foldlM f b)
  | [], b, _ => ok b
  | a :: l, b, h => by
      rw [List.foldlM_cons]
      exact (h b a List.mem_cons_self).bind
        (fun _ _ => foldlM (fun c x hx => h c x (List.mem_cons_of_mem _ hx)))

/-- A loop that makes a list. -/
theorem mapM {f : α → Except ε β} : ∀ {l : List α}, (∀ a ∈ l, Throws P (f a)) →
    Throws P (l.mapM f)
  | [], _ => by
      rw [List.mapM_nil]
      exact pure []
  | a :: l, h => by
      rw [List.mapM_cons]
      refine (h a List.mem_cons_self).bind (fun b _ => ?_)
      exact (mapM (fun x hx => h x (List.mem_cons_of_mem _ hx))).bind (fun bs _ => pure (b :: bs))

end Throws

/-- The same of a reader, wherever it starts. -/
def ReaderThrows {ε τ α : Type} (P : ε → Prop) (r : CursorReader ε τ α) : Prop :=
  ∀ (raw : List τ) (pos : Nat), Throws P (r.runFrom raw pos)

namespace ReaderThrows

open CursorReader

variable {ε τ α β : Type} {P : ε → Prop}

theorem pure (a : α) : ReaderThrows P (Pure.pure a : CursorReader ε τ α) :=
  fun _ pos => Throws.ok (a, pos)

theorem input : ReaderThrows P (CursorReader.input : CursorReader ε τ (List τ)) :=
  fun raw pos => Throws.ok (raw, pos)

theorem position : ReaderThrows P (CursorReader.position : CursorReader ε τ Nat) :=
  fun _ pos => Throws.ok (pos, pos)

theorem moveTo (next : Nat) : ReaderThrows P (CursorReader.moveTo next : CursorReader ε τ Unit) :=
  fun _ _ => Throws.ok ((), next)

theorem fail {e : ε} (h : P e) : ReaderThrows P (CursorReader.fail e : CursorReader ε τ α) :=
  fun _ _ => Throws.error h

theorem bind {r : CursorReader ε τ α} {f : α → CursorReader ε τ β} (hr : ReaderThrows P r)
    (hf : ∀ a, ReaderThrows P (f a)) : ReaderThrows P (r >>= f) := by
  intro raw pos
  rw [runFrom_bind]
  exact (hr raw pos).bind (fun q _ => hf q.1 raw q.2)

theorem ite {c : Prop} [Decidable c] {r t : CursorReader ε τ α} (hr : ReaderThrows P r)
    (ht : ReaderThrows P t) : ReaderThrows P (if c then r else t) := by
  by_cases h : c
  · rw [if_pos h]
    exact hr
  · rw [if_neg h]
    exact ht

theorem advancing {e : ε} {r : CursorReader ε τ α} (h : P e) (hr : ReaderThrows P r) :
    ReaderThrows P (CursorReader.advancing e r) :=
  position.bind (fun _ => hr.bind (fun a => position.bind (fun _ => ite (fail h) (pure a))))

theorem replicateM {r : CursorReader ε τ α} (hr : ReaderThrows P r) :
    ∀ n, ReaderThrows P (CursorReader.replicateM r n)
  | 0 => pure []
  | n + 1 => hr.bind (fun a => (replicateM hr n).bind (fun as => pure (a :: as)))

end ReaderThrows
