import TorrentNode.Lib.Loop
import TorrentNode.RejectedSource.Messages

/-!
# Where the loops over dumps stop

Each round reads a length at the cursor and moves behind it and on by it, modulo
`2 ^ 64`. A length that wraps around leads the cursor back, and then the loop may be
endless. Only the wrap to the very same cursor is checked.
-/

namespace TorrentNode

open CursorReader Loop

namespace DumpFrames

/-- The length that stands at a cursor. -/
def announcedAt (r : Bytes) (p : Nat) : Nat := BigEndian.decode ((r.drop p).take sizeofSizeT)

/-- Where that length leads. -/
def behind (r : Bytes) (p : Nat) : Nat := (p + sizeofSizeT + announcedAt r p) % 2 ^ 64

/-- The cursors that the lengths in `r` lead to. -/
inductive Cursor (r : Bytes) : Nat → Prop where
  | start : Cursor r 0
  | frame {p : Nat} : Cursor r p → p + sizeofSizeT ≤ r.length → behind r p ≠ p →
      Cursor r (behind r p)

/-- No length at a cursor wraps around, but for those that wrap to the cursor itself or behind it. -/
def NoneBack (r : Bytes) : Prop :=
  ∀ p, Cursor r p → p + sizeofSizeT ≤ r.length →
    p + sizeofSizeT + announcedAt r p < 2 ^ 64 ∨ 2 ^ 64 ≤ sizeofSizeT + announcedAt r p

/-- One round of the loops; nothing when the loop is left or something is thrown. -/
def nextCursor (r : Bytes) (from' : Nat) : Option Nat :=
  if from' < r.length then
    match deserializeString.runFrom r from' with
    | .error _ => none
    | .ok (_, next) => some next
  else none

/-- Each round throws or moves the cursor on. -/
def Progresses (r : Bytes) : Prop :=
  ∀ p, Reached (nextCursor r) 0 p → p < r.length →
    (∃ e, deserializeString.runFrom r p = .error e) ∨
      ∃ block next, deserializeString.runFrom r p = .ok (block, next) ∧ p < next

variable {r : Bytes}

theorem announcedAt_lt (hp : p + sizeofSizeT ≤ r.length) : announcedAt r p < 2 ^ 64 := by
  have hlt := BigEndian.decode_lt ((r.drop p).take sizeofSizeT)
  rw [List.length_take, List.length_drop, Nat.min_eq_left (by omega)] at hlt
  exact hlt

/-- What a round does to the cursor. -/
theorem nextCursor_eq {p : Nat} (hlen : r.length < 2 ^ 63) :
    nextCursor r p =
      if p + sizeofSizeT ≤ r.length ∧ behind r p ≠ p then some (behind r p) else none := by
  have hword : sizeofSizeT = 8 := rfl
  unfold nextCursor
  by_cases hp : p < r.length
  · rw [if_pos hp, deserializeString_eq hlen (Nat.le_of_lt hp)]
    by_cases hend : r.length < p + sizeofSizeT
    · rw [if_pos hend, if_neg (by omega)]
    · rw [if_neg hend]
      by_cases hsame : behind r p = p
      · have hsame' := hsame
        unfold behind announcedAt at hsame'
        simp only [hsame', if_pos]
        rw [if_neg (fun h => h.2 hsame)]
      · have hother := hsame
        unfold behind announcedAt at hother
        simp only [if_neg hother]
        rw [if_pos ⟨by omega, hsame⟩]
        rfl
  · rw [if_neg hp, if_neg (by omega)]

theorem reached_cursor {p : Nat} (hlen : r.length < 2 ^ 63) :
    Reached (nextCursor r) 0 p ↔ Cursor r p := by
  constructor
  · intro h
    induction h with
    | start => exact .start
    | @round p q _ hnext ih =>
        rw [nextCursor_eq hlen] at hnext
        split at hnext
        · rename_i hround
          obtain rfl := Option.some.inj hnext
          exact ih.frame hround.1 hround.2
        · cases hnext
  · intro h
    induction h with
    | start => exact .start
    | frame _ hin hne ih =>
        refine ih.round ?_
        rw [nextCursor_eq hlen, if_pos ⟨hin, hne⟩]

/-- A length that does not lead back leads on. -/
theorem lt_behind_iff {p : Nat} (hlen : r.length < 2 ^ 63) (hp : p + sizeofSizeT ≤ r.length)
    (hne : behind r p ≠ p) :
    p < behind r p ↔
      p + sizeofSizeT + announcedAt r p < 2 ^ 64 ∨ 2 ^ 64 ≤ sizeofSizeT + announcedAt r p := by
  have hannounced := announcedAt_lt hp
  have hword : sizeofSizeT = 8 := rfl
  unfold behind at hne ⊢
  omega

/-- **Each round moves on** exactly if no length leads back. -/
theorem progresses_iff (hlen : r.length < 2 ^ 63) : Progresses r ↔ NoneBack r := by
  have hword : sizeofSizeT = 8 := rfl
  -- At a cursor, a round does what it should if the sum does not wrap to a place before it.
  have hround : ∀ p, p + sizeofSizeT ≤ r.length →
      (((∃ e, deserializeString.runFrom r p = .error e) ∨
        ∃ block next, deserializeString.runFrom r p = .ok (block, next) ∧ p < next) ↔
      (p + sizeofSizeT + announcedAt r p < 2 ^ 64 ∨ 2 ^ 64 ≤ sizeofSizeT + announcedAt r p)) := by
    intro p hp
    have hnext := nextCursor_eq (p := p) hlen
    unfold nextCursor at hnext
    rw [if_pos (by omega)] at hnext
    by_cases hne : behind r p = p
    · -- the wrap to the cursor itself throws
      rw [if_neg (fun h => h.2 hne)] at hnext
      cases hrun : deserializeString.runFrom r p with
      | ok q => rw [hrun] at hnext; cases hnext
      | error e =>
          refine iff_of_true (Or.inl ⟨e, rfl⟩) (Or.inr ?_)
          have hannounced := announcedAt_lt hp
          unfold behind at hne
          omega
    · rw [if_pos ⟨hp, hne⟩] at hnext
      rw [← lt_behind_iff hlen hp hne]
      cases hrun : deserializeString.runFrom r p with
      | error e => rw [hrun] at hnext; cases hnext
      | ok q =>
          obtain ⟨block, next⟩ := q
          rw [hrun] at hnext
          obtain rfl := Option.some.inj hnext
          constructor
          · intro hor
            rcases hor with ⟨e, he⟩ | ⟨block', next', hok, hlt⟩
            · cases he
            · obtain ⟨rfl, rfl⟩ := Prod.mk.inj (Except.ok.inj hok)
              exact hlt
          · intro hlt
            exact Or.inr ⟨block, _, rfl, hlt⟩
  constructor
  · intro h p hcursor hp
    exact (hround p hp).mp (h p ((reached_cursor hlen).mpr hcursor) (by omega))
  · intro h p hreached hp
    by_cases hin : p + sizeofSizeT ≤ r.length
    · exact (hround p hin).mpr (h p ((reached_cursor hlen).mp hreached) hin)
    · left
      rw [deserializeString_eq hlen (Nat.le_of_lt hp), if_pos (by omega)]
      exact ⟨_, rfl⟩

/-- Rounds that move on come to the end. -/
theorem ends_of_progresses (h : Progresses r) : Ends (nextCursor r) 0 := by
  refine ends_of_measure (fun p => r.length - p) ?_
  intro p q hreached hnext
  unfold nextCursor at hnext
  split at hnext
  · rename_i hp
    rcases h p hreached hp with ⟨e, he⟩ | ⟨block, next, hok, hlt⟩
    · rw [he] at hnext
      cases hnext
    · rw [hok] at hnext
      obtain rfl := Option.some.inj hnext
      omega
  · cases hnext

/-! ## The loops with a bound -/

/-- The bound is met exactly if the loop goes on so long. -/
theorem readDumps_eq_none (fuel : Nat) :
    ∀ p, readDumps fuel r p = none ↔ after (nextCursor r) fuel p ≠ none := by
  induction fuel with
  | zero => exact fun p => iff_of_true rfl (fun h => by cases h)
  | succ fuel ih =>
      intro p
      rw [readDumps, after]
      unfold nextCursor
      by_cases hp : p < r.length
      · rw [if_pos hp, if_pos hp]
        cases hrun : deserializeString.runFrom r p with
        | error e => simp
        | ok q =>
            obtain ⟨block, next⟩ := q
            rw [Option.map_eq_none_iff]
            exact ih next
      · simp only [if_neg hp]
        simp

/-- The bound that the parsers are given is met exactly by an endless loop. -/
theorem readDumps_bound : readDumps (r.length + 1) r 0 = none ↔ ¬Ends (nextCursor r) 0 := by
  rw [readDumps_eq_none]
  constructor
  · intro hgoes hends
    refine hgoes ?_
    have hwithin := ends_within (Finset.range r.length) ?_ hends
    · rwa [Finset.card_range] at hwithin
    · intro p q hnext
      unfold nextCursor at hnext
      split at hnext
      · rename_i hp
        exact Finset.mem_range.mpr hp
      · cases hnext
  · intro hendless hleft
    exact hendless ⟨_, hleft⟩

/-- Nothing that the reader throws is taken for an endless loop. -/
theorem readDumps_ne_endless (hlen : r.length < 2 ^ 63) (fuel : Nat) :
    ∀ p, readDumps fuel r p ≠ some (.error (.std "endless")) := by
  induction fuel with
  | zero => exact fun p h => by cases h
  | succ fuel ih =>
      intro p
      rw [readDumps]
      split
      · rename_i hp
        rw [deserializeString_eq hlen (Nat.le_of_lt hp)]
        by_cases hend : r.length < p + sizeofSizeT
        · rw [if_pos hend]
          intro h
          cases h
        · rw [if_neg hend]
          simp only
          split
          · rename_i heq
            split at heq
            · obtain rfl := Except.error.inj heq
              intro h
              cases h
            · cases heq
          · rename_i next heq
            intro h
            obtain ⟨rest, hrest, hmap⟩ := Option.map_eq_some_iff.mp h
            cases rest with
            | ok rest => cases hmap
            | error e =>
                obtain rfl := Except.error.inj hmap
                exact ih next hrest
      · intro h
        cases h

end DumpFrames

open DumpFrames

/-- **The parsers of dumps end**: for each string that a response holds, compressed or not, the
loops of both are left and each round throws or moves on, exactly if no length leads back. -/
theorem parse_dumps_end_iff (lz4 : LZ4) (response : Blob) (isCompress : Bool) (r : Blob)
    (hr : (if isCompress then lz4.decompress response.val else response.val) = r.val) :
    (Ends (nextCursor r.val) 0 ∧ Progresses r.val ↔ NoneBack r.val) ∧
      (parseDumpBlocksBinary lz4 response isCompress ≠ .error (.std "endless") ↔
        Ends (nextCursor r.val) 0) ∧
      (parseRejectedDumpBlocksBinary lz4 response isCompress ≠ .error (.std "endless") ↔
        Ends (nextCursor r.val) 0) := by
  have hloop : (readDumps (r.val.length + 1) r.val 0).getD (.error (.std "endless")) ≠
      .error (.std "endless") ↔ Ends (nextCursor r.val) 0 := by
    cases hread : readDumps (r.val.length + 1) r.val 0 with
    | none =>
        refine iff_of_false (fun h => h rfl) (readDumps_bound.mp hread)
    | some res =>
        refine iff_of_true ?_ ?_
        · intro h
          have hres : res = .error (.std "endless") := h
          exact readDumps_ne_endless r.property _ _ (hread.trans (congrArg some hres))
        · by_contra hendless
          rw [readDumps_bound.mpr hendless] at hread
          cases hread
  refine ⟨?_, ?_, ?_⟩
  · rw [← progresses_iff r.property]
    exact ⟨fun h => h.2, fun h => ⟨ends_of_progresses h, h⟩⟩
  · unfold parseDumpBlocksBinary
    rw [hr]
    exact hloop
  · unfold parseRejectedDumpBlocksBinary
    rw [hr]
    exact hloop

namespace DumpFrames

/-- An empty dump, and behind it a length of `2 ^ 64 - 16`. -/
def wrapped : Blob :=
  ⟨List.replicate 8 0 ++ List.replicate 7 0xff ++ [0xf0], by decide⟩

/-- The second length leads back to the first, and the loop is endless. -/
theorem wrapped_endless : ¬Ends (nextCursor wrapped.val) 0 := by
  refine readDumps_bound.mp ?_
  decide +kernel

/-- A dump of two bytes, and behind it one of a byte. -/
def twoDumps : Blob :=
  ⟨List.replicate 7 0 ++ [2, 5, 6] ++ List.replicate 7 0 ++ [1, 7], by decide⟩

/-- The cursor is at the first dump, at the second or at the end. -/
theorem cursor_twoDumps {p : Nat} (h : Cursor twoDumps.val p) : p = 0 ∨ p = 10 ∨ p = 19 := by
  induction h with
  | start => exact Or.inl rfl
  | frame _ hin _ ih =>
      have hword : sizeofSizeT = 8 := rfl
      have hlen : twoDumps.val.length = 19 := rfl
      rcases ih with rfl | rfl | rfl
      · exact Or.inr (Or.inl (by decide))
      · exact Or.inr (Or.inr (by decide))
      · omega

end DumpFrames

/-- Decompression does not matter to a plain response. -/
theorem parse_dumps_end_iff_two :
    Progresses twoDumps.val ∧
      parseDumpBlocksBinary ⟨fun _ _ _ => [], fun _ _ _ => .error []⟩ twoDumps false ≠
        .error (.std "endless") := by
  have hends := parse_dumps_end_iff ⟨fun _ _ _ => [], fun _ _ _ => .error []⟩ twoDumps false
    twoDumps rfl
  have hnone : NoneBack twoDumps.val := by
    intro p hcursor hin
    have hword : sizeofSizeT = 8 := rfl
    have hlen : twoDumps.val.length = 19 := rfl
    rcases cursor_twoDumps hcursor with rfl | rfl | rfl
    · exact Or.inl (by decide)
    · exact Or.inl (by decide)
    · omega
  have hboth := hends.1.mpr hnone
  exact ⟨hboth.2, hends.2.1.mpr hboth.1⟩

end TorrentNode
