import Mathlib.Data.List.TakeDrop

/-!
# Readers with a cursor

A reader takes an input and a position in it and yields a value and the next
position, or fails. `Decodes r xs a` says what it means for `r` to be the
inverse of an encoding: wherever `xs` stands in an input, `r` yields `a` and
stops right behind it. Encodings are concatenations, and the rules below let a
reader that is a sequence of steps be matched against them piece by piece.
-/

/-- A reader of inputs over `τ`, failing with `ε`. -/
abbrev CursorReader (ε τ α : Type) : Type := ReaderT (List τ) (StateT Nat (Except ε)) α

namespace CursorReader

variable {ε τ α β : Type}

/-- Run a reader from a position. -/
def runFrom (r : CursorReader ε τ α) (raw : List τ) (pos : Nat) : Except ε (α × Nat) :=
  (ReaderT.run r raw).run pos

/-- The current position. -/
def position : CursorReader ε τ Nat := fun _ pos => .ok (pos, pos)

/-- The whole input. -/
def input : CursorReader ε τ (List τ) := fun raw pos => .ok (raw, pos)

/-- Move to a position. -/
def moveTo (pos : Nat) : CursorReader ε τ Unit := fun _ _ => .ok ((), pos)

/-- Fail. -/
def fail (e : ε) : CursorReader ε τ α := fun _ _ => .error e

/-- `n` values, one after another. -/
def replicateM (r : CursorReader ε τ α) : Nat → CursorReader ε τ (List α)
  | 0 => pure []
  | n + 1 => do
    let a ← r
    let as ← replicateM r n
    pure (a :: as)

/-- Run `r` and tell how far it went. -/
def measured (r : CursorReader ε τ α) : CursorReader ε τ (α × Nat) := do
  let start ← position
  let a ← r
  let stop ← position
  pure (a, stop - start)

/-- A computation that does not read. -/
def lift (x : Except ε α) : CursorReader ε τ α := fun _ pos => x.map (fun a => (a, pos))

/-- Run `r` on the next `n` elements as if they were the whole input. -/
def within (n : Nat) (r : CursorReader ε τ α) : CursorReader ε τ α := fun raw pos =>
  (r.runFrom ((raw.drop pos).take n) 0).map (fun q => (q.1, pos + q.2))

/-- Run `r` and fail with `e` unless it moved. -/
def advancing (e : ε) (r : CursorReader ε τ α) : CursorReader ε τ α := do
  let start ← position
  let a ← r
  let stop ← position
  if stop = start then fail e else pure a

/--
`r` reads `a` back from `xs`: in any input shorter than `limit`, wherever `xs`
stands, `r` started there yields `a` and ends behind `xs`.
-/
def Decodes (limit : Nat) (r : CursorReader ε τ α) (xs : List τ) (a : α) : Prop :=
  ∀ (raw : List τ) (pos : Nat) (rest : List τ), raw.length < limit →
    raw.drop pos = xs ++ rest → r.runFrom raw pos = .ok (a, pos + xs.length)

theorem runFrom_bind (r : CursorReader ε τ α) (f : α → CursorReader ε τ β) (raw : List τ)
    (pos : Nat) :
    (r >>= f).runFrom raw pos = (r.runFrom raw pos).bind (fun q => (f q.1).runFrom raw q.2) := by
  simp only [runFrom, ReaderT.run_bind, StateT.run_bind]
  cases (ReaderT.run r raw).run pos <;> rfl

/-- **Inversion** of two steps that succeeded. -/
theorem runFrom_bind_ok {r : CursorReader ε τ α} {f : α → CursorReader ε τ β} {raw : List τ}
    {pos : Nat} {q : β × Nat} (h : (r >>= f).runFrom raw pos = .ok q) :
    ∃ a next, r.runFrom raw pos = .ok (a, next) ∧ (f a).runFrom raw next = .ok q := by
  rw [runFrom_bind] at h
  cases hr : r.runFrom raw pos with
  | error e => rw [hr] at h; cases h
  | ok a =>
    rw [hr] at h
    exact ⟨a.1, a.2, rfl, h⟩

@[simp] theorem runFrom_pure (a : α) (raw : List τ) (pos : Nat) :
    (Pure.pure a : CursorReader ε τ α).runFrom raw pos = .ok (a, pos) := rfl

@[simp] theorem runFrom_input (raw : List τ) (pos : Nat) :
    (input : CursorReader ε τ (List τ)).runFrom raw pos = .ok (raw, pos) := rfl

@[simp] theorem runFrom_position (raw : List τ) (pos : Nat) :
    (position : CursorReader ε τ Nat).runFrom raw pos = .ok (pos, pos) := rfl

@[simp] theorem runFrom_moveTo (next : Nat) (raw : List τ) (pos : Nat) :
    (moveTo next : CursorReader ε τ Unit).runFrom raw pos = .ok ((), next) := rfl

@[simp] theorem runFrom_fail (e : ε) (raw : List τ) (pos : Nat) :
    (fail e : CursorReader ε τ α).runFrom raw pos = .error e := rfl

theorem runFrom_lift (x : Except ε α) (raw : List τ) (pos : Nat) :
    (lift x : CursorReader ε τ α).runFrom raw pos = x.map (fun a => (a, pos)) := rfl

theorem runFrom_within (n : Nat) (r : CursorReader ε τ α) (raw : List τ) (pos : Nat) :
    (within n r).runFrom raw pos =
      (r.runFrom ((raw.drop pos).take n) 0).map (fun q => (q.1, pos + q.2)) := rfl

theorem Decodes.pure {limit : Nat} (a : α) :
    Decodes limit (Pure.pure a : CursorReader ε τ α) [] a := by
  intro raw pos rest _ _; rfl

/-- **Steps compose as encodings concatenate.** -/
theorem Decodes.bind {limit : Nat} {r : CursorReader ε τ α} {f : α → CursorReader ε τ β}
    {xs ys : List τ} {a : α} {b : β}
    (hr : Decodes limit r xs a) (hf : Decodes limit (f a) ys b) :
    Decodes limit (r >>= f) (xs ++ ys) b := by
  intro raw pos rest hlen hat
  have hat' : raw.drop (pos + xs.length) = ys ++ rest := by
    rw [← List.drop_drop, hat, List.append_assoc, List.drop_left]
  rw [runFrom_bind, hr raw pos (ys ++ rest) hlen (by rw [hat, List.append_assoc])]
  have h2 := hf raw (pos + xs.length) rest hlen hat'
  rw [List.length_append, ← Nat.add_assoc]
  exact h2

/-- The last step of a reader is often a pure function of what was read. -/
theorem Decodes.map {limit : Nat} {r : CursorReader ε τ α} {f : α → β} {xs : List τ} {a : α}
    (hr : Decodes limit r xs a) : Decodes limit (r >>= fun x => Pure.pure (f x)) xs (f a) := by
  have h := hr.bind (f := fun x => (Pure.pure (f x) : CursorReader ε τ β)) (Decodes.pure (f a))
  rwa [List.append_nil] at h

/-- A reader that must move reads back what is not empty. -/
theorem Decodes.advancing {limit : Nat} {e : ε} {r : CursorReader ε τ α} {xs : List τ} {a : α}
    (hr : Decodes limit r xs a) (hne : 0 < xs.length) :
    Decodes limit (CursorReader.advancing e r) xs a := by
  intro raw pos rest hlen hat
  have hmove : pos + xs.length ≠ pos := by omega
  simp only [CursorReader.advancing, runFrom_bind, runFrom_position, Except.bind,
    hr raw pos rest hlen hat, if_neg hmove, runFrom_pure]

/-- A list of encodings is read back by reading as many values. -/
theorem Decodes.replicateM {limit : Nat} {r : CursorReader ε τ α} {enc : α → List τ} :
    ∀ {as : List α}, (∀ a ∈ as, Decodes limit r (enc a) a) →
      Decodes limit (CursorReader.replicateM r as.length) (as.flatMap enc) as
  | [], _ => Decodes.pure []
  | a :: as, h => by
      have ih := Decodes.replicateM (fun b hb => h b (List.mem_cons_of_mem _ hb))
      rw [List.flatMap_cons, List.length_cons]
      exact (h a List.mem_cons_self).bind ih.map

/-- `r` reads `a` back from `xs` where the input ends behind it. -/
def DecodesEnd (limit : Nat) (r : CursorReader ε τ α) (xs : List τ) (a : α) : Prop :=
  ∀ (raw : List τ) (pos : Nat), raw.length < limit → raw.drop pos = xs →
    r.runFrom raw pos = .ok (a, pos + xs.length)

theorem DecodesEnd.pure {limit : Nat} (a : α) :
    DecodesEnd limit (Pure.pure a : CursorReader ε τ α) [] a := by
  intro raw pos _ _; rfl

theorem DecodesEnd.bind {limit : Nat} {r : CursorReader ε τ α} {f : α → CursorReader ε τ β}
    {xs ys : List τ} {a : α} {b : β} (hr : Decodes limit r xs a)
    (hf : DecodesEnd limit (f a) ys b) : DecodesEnd limit (r >>= f) (xs ++ ys) b := by
  intro raw pos hlen hat
  have hat' : raw.drop (pos + xs.length) = ys := by rw [← List.drop_drop, hat, List.drop_left]
  rw [runFrom_bind, hr raw pos ys hlen hat, List.length_append, ← Nat.add_assoc]
  exact hf raw (pos + xs.length) hlen hat'

/-- Whether the input goes on. -/
theorem DecodesEnd.here {limit : Nat} {f : List τ → Nat → CursorReader ε τ α} {xs : List τ} {a : α}
    (h : ∀ raw pos, raw.drop pos = xs → DecodesEnd limit (f raw pos) xs a) :
    DecodesEnd limit (do
      let raw ← input
      let pos ← position
      f raw pos) xs a := by
  intro raw pos hlen hat
  simp only [runFrom_bind, runFrom_input, runFrom_position, Except.bind]
  exact h raw pos hat raw pos hlen hat

theorem DecodesEnd.run {limit : Nat} {r : CursorReader ε τ α} {xs : List τ} {a : α}
    (h : DecodesEnd limit r xs a) (hlen : xs.length < limit) :
    r.runFrom xs 0 = .ok (a, xs.length) := by
  have := h xs 0 hlen List.drop_zero
  rwa [Nat.zero_add] at this

/-- What a whole encoding decodes to. -/
theorem Decodes.run {limit : Nat} {r : CursorReader ε τ α} {xs : List τ} {a : α}
    (h : Decodes limit r xs a) (hlen : xs.length < limit) :
    r.runFrom xs 0 = .ok (a, xs.length) := by
  have := h xs 0 [] hlen (by simp)
  simpa using this

/-! ## Readers of a grammar -/

/-- `r` accepts what `G` derives and nothing else: at a position of the input it yields `a` and
moves to `next` exactly if what stands between the two is derived for `a`. -/
def Parses (G : List τ → α → Prop) (r : CursorReader ε τ α) : Prop :=
  ∀ (raw : List τ) (pos : Nat) (a : α) (next : Nat), pos ≤ raw.length →
    (r.runFrom raw pos = .ok (a, next) ↔
      ∃ xs, G xs a ∧ xs <+: raw.drop pos ∧ next = pos + xs.length)

theorem Parses.pure (a : α) :
    Parses (fun xs b => xs = [] ∧ b = a) (Pure.pure a : CursorReader ε τ α) := by
  intro raw pos b next _
  rw [runFrom_pure]
  constructor
  · intro h
    obtain ⟨rfl, rfl⟩ := Prod.mk.inj (Except.ok.inj h)
    exact ⟨[], ⟨rfl, rfl⟩, List.nil_prefix, rfl⟩
  · rintro ⟨xs, ⟨hxs, hb⟩, _, hnext⟩
    subst hxs
    subst hb
    rw [hnext]
    rfl

theorem Parses.fail (e : ε) : Parses (fun _ _ => False) (CursorReader.fail e : CursorReader ε τ α) := by
  intro raw pos a next _
  rw [runFrom_fail]
  exact iff_of_false (fun h => by cases h) (by rintro ⟨_, h, _⟩; exact h)

theorem Parses.ite {G H : List τ → α → Prop} {r t : CursorReader ε τ α} {c : Prop} [Decidable c]
    (hr : Parses G r) (ht : Parses H t) :
    Parses (fun xs a => if c then G xs a else H xs a) (if c then r else t) := by
  by_cases hc : c
  · simp only [if_pos hc]
    exact hr
  · simp only [if_neg hc]
    exact ht

/-- What stands at a position ends in the input. -/
theorem add_length_le {xs raw : List τ} {pos : Nat} (hpos : pos ≤ raw.length)
    (h : xs <+: raw.drop pos) : pos + xs.length ≤ raw.length := by
  have hle := h.length_le
  rw [List.length_drop] at hle
  omega

theorem prefix_append_drop {xs ys raw : List τ} {pos : Nat} :
    xs ++ ys <+: raw.drop pos ↔ xs <+: raw.drop pos ∧ ys <+: raw.drop (pos + xs.length) := by
  constructor
  · rintro ⟨rest, h⟩
    rw [List.append_assoc] at h
    refine ⟨⟨_, h⟩, ⟨rest, ?_⟩⟩
    rw [← List.drop_drop, ← h, List.drop_left]
  · rintro ⟨⟨rest, h⟩, ⟨rest', h'⟩⟩
    rw [← List.drop_drop, ← h, List.drop_left] at h'
    exact ⟨rest', by rw [List.append_assoc, h', h]⟩

/-- The next elements of the input. -/
theorem prefix_drop_iff {xs raw : List τ} {pos n : Nat} (h : pos + n ≤ raw.length) :
    xs.length = n ∧ xs <+: raw.drop pos ↔ xs = (raw.drop pos).take n := by
  constructor
  · rintro ⟨hn, hxs⟩
    rw [← hn]
    exact List.prefix_iff_eq_take.mp hxs
  · intro hxs
    subst hxs
    refine ⟨?_, List.take_prefix _ _⟩
    rw [List.length_take, List.length_drop]
    omega

/-- **Steps compose as derivations concatenate.** -/
theorem Parses.bind {G : List τ → α → Prop} {H : α → List τ → β → Prop}
    {r : CursorReader ε τ α} {f : α → CursorReader ε τ β} (hr : Parses G r)
    (hf : ∀ a, Parses (H a) (f a)) :
    Parses (fun zs b => ∃ a xs ys, zs = xs ++ ys ∧ G xs a ∧ H a ys b) (r >>= f) := by
  intro raw pos b next hpos
  constructor
  · intro h
    obtain ⟨a, mid, hfirst, hrest⟩ := runFrom_bind_ok h
    obtain ⟨xs, hxs, hat, rfl⟩ := (hr raw pos a mid hpos).mp hfirst
    obtain ⟨ys, hys, hat', rfl⟩ := (hf a raw _ b next (add_length_le hpos hat)).mp hrest
    refine ⟨xs ++ ys, ⟨a, xs, ys, rfl, hxs, hys⟩, prefix_append_drop.mpr ⟨hat, hat'⟩, ?_⟩
    rw [List.length_append, Nat.add_assoc]
  · rintro ⟨zs, ⟨a, xs, ys, hzs, hxs, hys⟩, hat, hnext⟩
    subst hzs
    obtain ⟨hat, hat'⟩ := prefix_append_drop.mp hat
    rw [runFrom_bind, (hr raw pos a _ hpos).mpr ⟨xs, hxs, hat, rfl⟩]
    refine (hf a raw _ b next (add_length_le hpos hat)).mpr ⟨ys, hys, hat', ?_⟩
    rw [hnext, List.length_append, Nat.add_assoc]

theorem Parses.measured {G : List τ → α → Prop} {r : CursorReader ε τ α} (hr : Parses G r) :
    Parses (fun xs (q : α × Nat) => G xs q.1 ∧ q.2 = xs.length) (measured r) := by
  intro raw pos q next hpos
  constructor
  · intro h
    obtain ⟨_, _, hstart, h⟩ := runFrom_bind_ok h
    obtain ⟨rfl, rfl⟩ := Prod.mk.inj (Except.ok.inj hstart)
    obtain ⟨a, stop, hread, h⟩ := runFrom_bind_ok h
    obtain ⟨hq, hnext⟩ := Prod.mk.inj (Except.ok.inj h)
    obtain ⟨xs, hxs, hat, hstop⟩ := (hr raw pos a stop hpos).mp hread
    refine ⟨xs, ⟨?_, ?_⟩, hat, hnext.symm.trans hstop⟩
    · rw [← hq]
      exact hxs
    · rw [← hq, hstop]
      exact Nat.add_sub_cancel_left pos xs.length
  · rintro ⟨xs, ⟨hxs, hlen⟩, hat, hnext⟩
    obtain ⟨a, n⟩ := q
    have hread := (hr raw pos a next hpos).mpr ⟨xs, hxs, hat, hnext⟩
    have hdist : next - pos = n := by
      rw [hnext, Nat.add_sub_cancel_left]
      exact hlen.symm
    simp only [CursorReader.measured, runFrom_bind, runFrom_position, Except.bind, hread,
      runFrom_pure, hdist]

/-- The same grammar in other words. -/
theorem Parses.congr {G H : List τ → α → Prop} {r : CursorReader ε τ α} (hr : Parses G r)
    (h : ∀ xs a, G xs a ↔ H xs a) : Parses H r := by
  intro raw pos a next hpos
  rw [hr raw pos a next hpos]
  exact exists_congr (fun xs => and_congr_left (fun _ => h xs a))

/-- What a reader takes is a part of the input. -/
theorem Parses.split {G : List τ → α → Prop} {r : CursorReader ε τ α} (hr : Parses G r)
    {raw : List τ} {a : α} {next : Nat} (h : r.runFrom raw 0 = .ok (a, next)) :
    ∃ xs rest, raw = xs ++ rest ∧ G xs a ∧ next = xs.length := by
  obtain ⟨xs, hxs, ⟨rest, hat⟩, hnext⟩ := (hr raw 0 a next (Nat.zero_le _)).mp h
  rw [List.drop_zero] at hat
  exact ⟨xs, rest, hat.symm, hxs, by rw [hnext, Nat.zero_add]⟩

/-- Whatever stands behind it, a derivation is read. -/
theorem Parses.run {G : List τ → α → Prop} {r : CursorReader ε τ α} (hr : Parses G r)
    {xs : List τ} {a : α} (rest : List τ) (h : G xs a) :
    r.runFrom (xs ++ rest) 0 = .ok (a, xs.length) := by
  refine (hr (xs ++ rest) 0 a xs.length (Nat.zero_le _)).mpr ⟨xs, h, ⟨rest, rfl⟩, ?_⟩
  rw [Nat.zero_add]

/-- A reader takes the whole input exactly if the whole input is derived. -/
theorem Parses.whole_iff {G : List τ → α → Prop} {r : CursorReader ε τ α} (hr : Parses G r)
    {raw : List τ} {a : α} {next : Nat} (h : r.runFrom raw 0 = .ok (a, next)) :
    next = raw.length ↔ ∃ b, G raw b := by
  constructor
  · intro hnext
    obtain ⟨xs, rest, hraw, hxs, hlen⟩ := hr.split h
    have hrest : rest = [] := by
      have hsum := congrArg List.length hraw
      rw [List.length_append] at hsum
      exact List.length_eq_zero_iff.mp (by omega)
    rw [hraw, hrest, List.append_nil]
    exact ⟨a, hxs⟩
  · rintro ⟨b, hb⟩
    have hread := hr.run [] hb
    rw [List.append_nil, h] at hread
    exact (Prod.mk.inj (Except.ok.inj hread)).2

end CursorReader
