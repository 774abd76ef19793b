import Mathlib.Logic.Basic

/-!
# Loops that remember how far they came

A loop takes items from a sequence that may be delivered in any order and again.
Its store records the number and the name of the item it took in last. A round
leaves the store as it is, or it takes in an item above the recorded number that
names the recorded item as its predecessor, and records it.

What an item does may depend on what the loop keeps in memory, which is gone at a
restart. A memory fits the store when the loop may go on with it.

As long as nothing but the first item is offered to a store without a record, the
store is always the result of taking in the items 1, …, n once each and in order,
each with a memory that fits, where n is the recorded number.
-/

/-- A loop over items `β` with names `η`, a store `δ` and a memory `μ`. -/
structure GuardedLoop (δ μ β η : Type) where
  number : β → Nat
  name : β → η
  pred : β → η
  /-- What the store records, with no name before the first item; `none` if it cannot be read. -/
  recorded : δ → Option (Nat × Option η)
  /-- `round d m b d' m'`: a round with item `b`. -/
  round : δ → μ → β → δ → μ → Prop
  /-- `takes d m b d'`: what taking `b` in with the memory `m` does to the store. -/
  takes : δ → μ → β → δ → Prop
  /-- The memory after a restart. -/
  boot : δ → μ → μ
  /-- The memory goes on where the store stands. -/
  fits : δ → μ → Prop
  /-- What a round can do to the store. -/
  guarded : ∀ {d m b d' m'}, round d m b d' m' → d' = d ∨
    ∃ n h, recorded d = some (n, h) ∧ n < number b ∧ (h = none ∨ h = some (pred b)) ∧
      takes d m b d'
  /-- An item is recorded together with what it does. -/
  records : ∀ {d m b d'}, takes d m b d' → recorded d' = some (number b, some (name b))
  /-- A restart finds in the store where to go on. -/
  fits_boot : ∀ d m, fits d (boot d m)
  /-- A round leaves a memory that fits what it leaves in the store. -/
  fits_round : ∀ {d m b d' m'}, round d m b d' m' → fits d m → fits d' m'

namespace GuardedLoop

variable {δ μ β η : Type} (L : GuardedLoop δ μ β η)

/-- The items `blk 1, …, blk len` form a chain. -/
structure IsChain (blk : Nat → β) (len : Nat) : Prop where
  number : ∀ i, 1 ≤ i → i ≤ len → L.number (blk i) = i
  linked : ∀ i, 1 ≤ i → i + 1 ≤ len → L.pred (blk (i + 1)) = L.name (blk i)
  distinct : ∀ i j, 1 ≤ i → i ≤ len → 1 ≤ j → j ≤ len → L.name (blk i) = L.name (blk j) → i = j

/-- What taking `b` in does to the store, whatever is in memory. -/
def applies (d : δ) (b : β) (d' : δ) : Prop := ∃ m, L.takes d m b d'

/-- The store after the items 1, …, n were taken in, once each and in order. -/
inductive Folded (blk : Nat → β) (d₀ : δ) : Nat → δ → Prop where
  | nil : Folded blk d₀ 0 d₀
  | snoc {n : Nat} {d d' : δ} : Folded blk d₀ n d → L.applies d (blk (n + 1)) d' →
      Folded blk d₀ (n + 1) d'

/-- The same, where each item was taken in with a memory that fits what was there before it. -/
inductive Filled (blk : Nat → β) (d₀ : δ) : Nat → δ → Prop where
  | nil : Filled blk d₀ 0 d₀
  | snoc {n : Nat} {d d' : δ} {m : μ} : Filled blk d₀ n d → L.fits d m →
      L.takes d m (blk (n + 1)) d' → Filled blk d₀ (n + 1) d'

/--
The states of a run over a chain: items are delivered in any order and any number
of times, and the loop may be restarted at any moment. An item is delivered only
where `ok` allows it.
-/
inductive Run (blk : Nat → β) (len : Nat) (d₀ : δ) (ok : δ → β → Prop) : δ → μ → Prop where
  | start (m : μ) : Run blk len d₀ ok d₀ (L.boot d₀ m)
  | deliver {d d' : δ} {m m' : μ} {i : Nat} : Run blk len d₀ ok d m → 1 ≤ i → i ≤ len →
      ok d (blk i) → L.round d m (blk i) d' m' → Run blk len d₀ ok d' m'
  | restart {d : δ} {m : μ} : Run blk len d₀ ok d m → Run blk len d₀ ok d (L.boot d m)

/-- A store without a record is only offered the first item. -/
def FirstFirst (d : δ) (b : β) : Prop := L.recorded d = some (0, none) → L.number b ≤ 1

/-- The store holds the items up to the one it records. -/
def UpTo (blk : Nat → β) (len : Nat) (d₀ d : δ) : Prop :=
  ∃ n, n ≤ len ∧ L.Filled blk d₀ n d ∧
    L.recorded d = some (n, if n = 0 then none else some (L.name (blk n)))

variable {L} {blk : Nat → β} {len : Nat} {d₀ d d' : δ} {m m' : μ}

/-- The item that passes both guards is the next one. -/
theorem next_of_guards (hchain : L.IsChain blk len) {n i : Nat} (hn : n ≤ len) (hi : 1 ≤ i)
    (hlen : i ≤ len) (hlt : n < i) (hfirst : n = 0 → i ≤ 1)
    (hpred : n ≠ 0 → L.name (blk n) = L.pred (blk i)) : i = n + 1 := by
  by_cases hz : n = 0
  · have := hfirst hz
    omega
  · obtain ⟨j, rfl⟩ : ∃ j, i = j + 1 := ⟨i - 1, by omega⟩
    have hj : 1 ≤ j := by omega
    have hname := hpred hz
    rw [hchain.linked j hj hlen] at hname
    have := hchain.distinct n j (by omega) hn hj (by omega) hname
    omega

/-- **One round** keeps the store at a prefix of the chain. -/
theorem upTo_round (hchain : L.IsChain blk len) (h : L.UpTo blk len d₀ d) {i : Nat} (hi : 1 ≤ i)
    (hlen : i ≤ len) (hok : L.FirstFirst d (blk i)) (hfits : L.fits d m)
    (hround : L.round d m (blk i) d' m') : L.UpTo blk len d₀ d' := by
  obtain ⟨n, hn, hfilled, hrec⟩ := h
  have hnum := hchain.number i hi hlen
  rcases L.guarded hround with rfl | ⟨n', h', hrec', hlt, hname, htakes⟩
  · exact ⟨n, hn, hfilled, hrec⟩
  · rw [hrec] at hrec'
    obtain ⟨rfl, rfl⟩ := Prod.mk.inj (Option.some.inj hrec')
    rw [hnum] at hlt
    have hnext : i = n + 1 := by
      refine next_of_guards hchain hn hi hlen hlt ?_ ?_
      · rintro rfl
        have := hok hrec
        omega
      · intro hz
        rw [if_neg hz] at hname
        rcases hname with hname | hname
        · exact absurd hname (by simp)
        · exact Option.some.inj hname
    subst hnext
    refine ⟨n + 1, hlen, Filled.snoc hfilled hfits htakes, ?_⟩
    rw [L.records htakes, hnum]
    simp

/-- What is in memory always fits the store. -/
theorem fits_run {ok : δ → β → Prop} (h : L.Run blk len d₀ ok d m) : L.fits d m := by
  induction h with
  | start m₀ => exact L.fits_boot d₀ m₀
  | deliver _ _ _ _ hround ih => exact L.fits_round hround ih
  | restart _ _ => exact L.fits_boot _ _

/-- **The store is always the result of a prefix of the chain**, the one it records. -/
theorem upTo_run (hchain : L.IsChain blk len) (hstart : L.recorded d₀ = some (0, none))
    (h : L.Run blk len d₀ L.FirstFirst d m) : L.UpTo blk len d₀ d := by
  induction h with
  | start m₀ => exact ⟨0, Nat.zero_le _, Filled.nil, hstart⟩
  | deliver hr hi hlen hok hround ih =>
      exact upTo_round hchain ih hi hlen hok (fits_run hr) hround
  | restart hr ih => exact ih

/-- The memories left out, items were taken in once each and in order. -/
theorem Filled.folded {n : Nat} (h : L.Filled blk d₀ n d) : L.Folded blk d₀ n d := by
  induction h with
  | nil => exact Folded.nil
  | snoc _ _ htakes ih => exact Folded.snoc ih ⟨_, htakes⟩

/-- The first item can only be taken in where it applies. -/
theorem Folded.first {n : Nat} (h : L.Folded blk d₀ n d) (hn : n ≠ 0) :
    ∃ d₁, L.applies d₀ (blk 1) d₁ := by
  induction h with
  | nil => exact absurd rfl hn
  | snoc hfold happ ih =>
      rename_i n d d'
      by_cases hz : n = 0
      · subst hz
        cases hfold
        exact ⟨d', happ⟩
      · exact ih hz

end GuardedLoop
