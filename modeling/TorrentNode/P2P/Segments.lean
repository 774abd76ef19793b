import TorrentNode.Base

/-!
# Segments of a download (`P2P_Impl::makeSegments`)

A download of a known size is cut into segments that different servers and
connections answer. They follow one another without a gap, and all but the last
are equally long.
-/

namespace TorrentNode

/-- Bytes `fromByte` to `toByte` of a download. -/
structure Segment where
  fromByte : Nat
  toByte : Nat
  posInArray : Nat
  deriving DecidableEq

/-- `step` of `makeSegments`. -/
def segmentStep (countSegments size minSize : Nat) : Nat :=
  min size (max (size / countSegments) minSize)

/-- The loop of `makeSegments`, with so many segments to go before the last. -/
def segmentsFrom (step size : Nat) : Nat → Nat → Nat → List Segment
  | 0, i, prevByte => [{ fromByte := prevByte, toByte := size, posInArray := i }]
  | n + 1, i, prevByte =>
    { fromByte := prevByte, toByte := min (prevByte + step) size, posInArray := i } ::
      segmentsFrom step size n (i + 1) (min (prevByte + step) size)

/-- `makeSegments(countSegments, size, minSize)`; `countSegments` is not 0. -/
def makeSegments (countSegments size minSize : Nat) : Except Err (List Segment) := do
  check (segmentStep countSegments size minSize != 0) "step == 0"
  pure (segmentsFrom (segmentStep countSegments size minSize) size (countSegments - 1) 0 0)

/-- A segment is not smaller, unless a part for each is asked for. -/
def MIN_RESPONSE_SIZE : Nat := 10000

/-- The number of segments that `requestImpl` asks for when it may use so many connections. -/
def countSegments (responseSize minResponseSize maxServers : Nat) : Nat :=
  if minResponseSize = 1 then responseSize
  else min ((responseSize + minResponseSize - 1) / minResponseSize) maxServers

/-- One segment after the other, from here to there. -/
inductive Contiguous : Nat → Nat → List Segment → Prop where
  | nil (n : Nat) : Contiguous n n []
  | cons {s : Segment} {last : Nat} {l : List Segment} :
      s.fromByte ≤ s.toByte → Contiguous s.toByte last l → Contiguous s.fromByte last (s :: l)

/-- **The segments of a download cover it without gaps.** -/
theorem contiguous_segmentsFrom (step size : Nat) : ∀ (n i prevByte : Nat), prevByte ≤ size →
    Contiguous prevByte size (segmentsFrom step size n i prevByte)
  | 0, i, prevByte, h =>
      Contiguous.cons (s := { fromByte := prevByte, toByte := size, posInArray := i }) h
        (Contiguous.nil size)
  | n + 1, i, prevByte, h =>
      Contiguous.cons
        (s := { fromByte := prevByte, toByte := min (prevByte + step) size, posInArray := i })
        (by show prevByte ≤ min (prevByte + step) size; omega)
        (contiguous_segmentsFrom step size n (i + 1) _ (Nat.min_le_right _ _))

/-- Where each segment stands, and that it is a whole step unless it reaches the end. -/
theorem mem_segmentsFrom {step size : Nat} {s : Segment} : ∀ {n i prevByte : Nat},
    prevByte ≤ size → s ∈ segmentsFrom step size n i prevByte →
      prevByte ≤ s.fromByte ∧ s.fromByte ≤ s.toByte ∧ s.toByte ≤ size ∧
        s.fromByte ≤ prevByte + n * step ∧ (s.toByte < size → s.toByte = s.fromByte + step)
  | 0, i, prevByte, h, hs => by
      rw [segmentsFrom, List.mem_singleton] at hs
      subst hs
      exact ⟨Nat.le_refl _, h, Nat.le_refl _, Nat.le_add_right _ _, fun hlt => absurd hlt (Nat.lt_irrefl _)⟩
  | n + 1, i, prevByte, h, hs => by
      rw [segmentsFrom] at hs
      rcases List.mem_cons.mp hs with rfl | hs
      · refine ⟨Nat.le_refl _, ?_, Nat.min_le_right _ _, Nat.le_add_right _ _, fun hlt => ?_⟩
        · show prevByte ≤ min (prevByte + step) size
          omega
        · change min (prevByte + step) size < size at hlt
          show min (prevByte + step) size = prevByte + step
          omega
      · obtain ⟨h1, h2, h3, h4, h5⟩ := mem_segmentsFrom (Nat.min_le_right _ _) hs
        have hmul : (n + 1) * step = n * step + step := Nat.succ_mul n step
        exact ⟨by omega, h2, h3, by omega, h5⟩

/-- The last segment starts where all the steps before it end. -/
theorem getLast?_segmentsFrom (step size : Nat) : ∀ (n i prevByte : Nat), prevByte ≤ size →
    (segmentsFrom step size n i prevByte).getLast? =
      some { fromByte := min (prevByte + n * step) size, toByte := size, posInArray := i + n }
  | 0, i, prevByte, h => by
      rw [Nat.zero_mul, Nat.add_zero, Nat.min_eq_left h]
      rfl
  | n + 1, i, prevByte, h => by
      have ih := getLast?_segmentsFrom step size n (i + 1) (min (prevByte + step) size)
        (Nat.min_le_right _ _)
      have hne : segmentsFrom step size n (i + 1) (min (prevByte + step) size) ≠ [] := by
        intro he; rw [he] at ih; simp at ih
      obtain ⟨a, l, hl⟩ := List.exists_cons_of_ne_nil hne
      rw [segmentsFrom, hl, List.getLast?_cons_cons, ← hl, ih]
      have hmul : (n + 1) * step = n * step + step := Nat.succ_mul n step
      congr 2
      · omega
      · omega

/-- Segments are numbered in the order of the answers. -/
theorem posInArray_segmentsFrom (step size : Nat) : ∀ (n i prevByte : Nat),
    (segmentsFrom step size n i prevByte).map Segment.posInArray = List.range' i (n + 1)
  | 0, _, _ => rfl
  | n + 1, i, prevByte => by
      rw [segmentsFrom, List.map_cons, posInArray_segmentsFrom step size n]
      rfl

/-- The bytes of a dump in a segment. -/
def Segment.slice (s : Segment) (dump : Blob) : Bytes :=
  (dump.val.drop s.fromByte).take (s.toByte - s.fromByte)

theorem Segment.slice_append {s : Segment} (h : s.fromByte ≤ s.toByte) (dump : Blob) :
    s.slice dump ++ dump.val.drop s.toByte = dump.val.drop s.fromByte := by
  have hdrop : dump.val.drop s.toByte =
      (dump.val.drop s.fromByte).drop (s.toByte - s.fromByte) := by
    rw [List.drop_drop, Nat.add_sub_cancel' h]
  rw [Segment.slice, hdrop, List.take_append_drop]

/-- **The slices of segments in a row are the bytes between their ends.** -/
theorem flatMap_slice {dump : Blob} {fromByte last : Nat} {l : List Segment}
    (h : Contiguous fromByte last l) :
    l.flatMap (fun s => s.slice dump) ++ dump.val.drop last = dump.val.drop fromByte := by
  induction h with
  | nil n => rfl
  | cons hle _ ih => rw [List.flatMap_cons, List.append_assoc, ih, Segment.slice_append hle]

end TorrentNode
