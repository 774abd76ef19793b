import TorrentNode.Base
import TorrentNode.Lib.CursorReader

/-!
# Binary serialisation (`utils/serialize.h`)

Integers are written big-endian in the width of their type, strings and vectors
with an eight-byte length in front. Readers keep a cursor, a `size_t`, so its
arithmetic is modulo `2 ^ 64`.
-/

namespace TorrentNode

open CursorReader

/-- `sizeof(size_t)`. -/
def sizeofSizeT : Nat := 8

/-- A reader of serialised data. -/
abbrev Deserializer (α : Type) : Type := CursorReader Err UInt8 α

/-- `serializeInt<T>` for a type of `w` bytes. -/
def serializeInt (w n : Nat) : Bytes := BigEndian.encode w n

/-- `serializeString` and `serializeVector`. -/
def serializeString (str : Blob) : Bytes := serializeInt sizeofSizeT str.size ++ str.val

/--
`fromBinaryStringBigEndian`: the value and the end position, which stays
`fromPos` when the bytes run out.
-/
def fromBinaryStringBigEndian (w : Nat) (raw : Bytes) (fromPos : Nat) : Nat × Nat :=
  if raw.length < (w + fromPos) % 2 ^ 64 then (0, fromPos)
  else (BigEndian.decode ((raw.drop fromPos).take w), (fromPos + w) % 2 ^ 64)

/-- `deserializeInt<T>(raw, fromPos, endPos)`: stays where it is when the bytes run out. -/
def deserializeIntAt (w : Nat) : Deserializer Nat := do
  let raw ← input
  let fromPos ← position
  let (val, endPos) := fromBinaryStringBigEndian w raw fromPos
  moveTo endPos
  pure val

/-- `deserializeInt<T>(raw, fromPos)`. -/
def deserializeInt (w : Nat) : Deserializer Nat :=
  advancing (.exception "Incorrect raw") (deserializeIntAt w)

/-- `deserializeString(raw, fromPos, endPos)` and `deserializeVector(raw, fromPos, endPos)`. -/
def deserializeStringAt : Deserializer Blob := do
  let raw ← input
  let fromPos ← position
  let sizeString ← deserializeIntAt sizeofSizeT
  let begPos ← position
  if fromPos = begPos then pure ∅ else
    -- `substr` throws when it starts past the end and otherwise stops there
    if raw.length < begPos then fail (.std "out_of_range") else
      match Blob.ofBytes ((raw.drop begPos).take sizeString) with
      | .error e => fail e
      | .ok str => do
        moveTo ((begPos + sizeString) % 2 ^ 64)
        pure str

/-- `deserializeString(raw, fromPos)` and `deserializeVector(raw, fromPos)`. -/
def deserializeString : Deserializer Blob :=
  advancing (.exception "Incorrect raw") deserializeStringAt

/-- Read a whole record. -/
def deserializeAll {α : Type} (r : Deserializer α) (raw : Blob) : Except Err α :=
  (r.runFrom raw.val 0).map Prod.fst

/-- `r` reads `a` back from `xs` inside any string the program can hold. -/
abbrev Reads {α : Type} (r : Deserializer α) (xs : Bytes) (a : α) : Prop :=
  Decodes (2 ^ 63) r xs a

/-- The same where the string ends behind it. -/
abbrev ReadsEnd {α : Type} (r : Deserializer α) (xs : Bytes) (a : α) : Prop :=
  DecodesEnd (2 ^ 63) r xs a

@[simp] theorem length_serializeInt (w n : Nat) : (serializeInt w n).length = w :=
  BigEndian.length_encode w n

theorem deserializeAll_of_reads {α : Type} {r : Deserializer α} {raw : Blob} {a : α}
    (h : Reads r raw.val a) : deserializeAll r raw = .ok a := by
  unfold deserializeAll
  rw [h.run raw.property]
  rfl

theorem fromBinaryStringBigEndian_at {w n pos : Nat} {raw rest : Bytes} (hw : 0 < w)
    (hn : n < 256 ^ w) (hlen : raw.length < 2 ^ 63)
    (hat : raw.drop pos = serializeInt w n ++ rest) :
    fromBinaryStringBigEndian w raw pos = (n, pos + w) ∧ pos + w ≤ raw.length := by
  have hl := congrArg List.length hat
  rw [List.length_drop, List.length_append, length_serializeInt] at hl
  have hend : pos + w ≤ raw.length := by omega
  have hmod : (w + pos) % 2 ^ 64 = pos + w := by rw [Nat.mod_eq_of_lt] <;> omega
  have hmod' : (pos + w) % 2 ^ 64 = pos + w := Nat.mod_eq_of_lt (by omega)
  have htake : (raw.drop pos).take w = serializeInt w n := by
    rw [hat, List.take_left' (length_serializeInt w n)]
  refine ⟨?_, hend⟩
  unfold fromBinaryStringBigEndian
  rw [if_neg (by omega), htake, hmod', serializeInt, BigEndian.decode_encode hn]

theorem reads_intAt {w n : Nat} (hw : 0 < w) (hn : n < 256 ^ w) :
    Reads (deserializeIntAt w) (serializeInt w n) n := by
  intro raw pos rest hlen hat
  obtain ⟨hread, _⟩ := fromBinaryStringBigEndian_at hw hn hlen hat
  simp only [deserializeIntAt, runFrom_bind, runFrom_input, runFrom_position, Except.bind, hread,
    runFrom_moveTo, runFrom_pure, length_serializeInt]

/-- **An integer reads back.** -/
theorem reads_int {w n : Nat} (hw : 0 < w) (hn : n < 256 ^ w) :
    Reads (deserializeInt w) (serializeInt w n) n :=
  (reads_intAt hw hn).advancing (by rw [length_serializeInt]; exact hw)

/-- `serializeInt<size_t>`, `serializeInt<uint64_t>` and, for a converted value, `int64_t`. -/
def serializeUInt64 (x : UInt64) : Bytes := serializeInt sizeofSizeT x.toNat

/-- `deserializeInt<size_t>` and `deserializeInt<uint64_t>`. -/
def deserializeUInt64 : Deserializer UInt64 := do
  let n ← deserializeInt sizeofSizeT
  pure (UInt64.ofNat n)

/-- `serializeInt<uint8_t>` of a `bool`. -/
def serializeBool (b : Bool) : Bytes := serializeInt 1 (if b then 1 else 0)

/-- `deserializeInt<uint8_t>` into a `bool`. -/
def deserializeBool : Deserializer Bool := do
  let n ← deserializeInt 1
  pure (n != 0)

theorem reads_uint64 (x : UInt64) : Reads deserializeUInt64 (serializeUInt64 x) x := by
  have h := (reads_int (w := sizeofSizeT) (by decide) (n := x.toNat) x.toNat_lt).map
    (f := UInt64.ofNat)
  rwa [UInt64.ofNat_toNat] at h

theorem reads_bool (b : Bool) : Reads deserializeBool (serializeBool b) b := by
  have hlt : (if b then 1 else 0) < 256 ^ 1 := by split <;> decide
  have h := (reads_int (w := 1) (by decide) hlt).map (f := fun n => n != 0)
  cases b <;> exact h

@[simp] theorem length_serializeUInt64 (x : UInt64) :
    (serializeUInt64 x).length = sizeofSizeT := length_serializeInt _ _

/-- Numbers are written so that they sort. -/
theorem serializeUInt64_lt {x y : UInt64} :
    serializeUInt64 x < serializeUInt64 y ↔ x.toNat < y.toNat := by
  unfold serializeUInt64 serializeInt
  rw [BigEndian.encode_lt_iff, Nat.mod_eq_of_lt (show x.toNat < 256 ^ sizeofSizeT from x.toNat_lt),
    Nat.mod_eq_of_lt (show y.toNat < 256 ^ sizeofSizeT from y.toNat_lt)]

theorem length_serializeString (str : Blob) :
    (serializeString str).length = sizeofSizeT + str.size := by
  rw [serializeString, List.length_append, length_serializeInt]; rfl

theorem reads_stringAt (str : Blob) : Reads deserializeStringAt (serializeString str) str := by
  intro raw pos rest hlen hat
  have hsize : str.size < 256 ^ sizeofSizeT := by
    have := str.property
    unfold Blob.size sizeofSizeT; omega
  have hat' : raw.drop pos = serializeInt sizeofSizeT str.size ++ (str.val ++ rest) := by
    rw [hat, serializeString, List.append_assoc]
  have hread := reads_intAt (w := sizeofSizeT) (by decide) hsize raw pos _ hlen hat'
  rw [length_serializeInt] at hread
  have hbody : raw.drop (pos + sizeofSizeT) = str.val ++ rest := by
    rw [← List.drop_drop, hat', List.drop_left' (length_serializeInt _ _)]
  have hl := congrArg List.length hbody
  rw [List.length_drop, List.length_append] at hl
  have hl' := congrArg List.length hat'
  rw [List.length_drop, List.length_append, length_serializeInt] at hl'
  have htake : (raw.drop (pos + sizeofSizeT)).take str.size = str.val := by
    rw [hbody]; exact List.take_left' rfl
  have hend : (pos + sizeofSizeT + str.size) % 2 ^ 64 = pos + sizeofSizeT + str.size := by
    refine Nat.mod_eq_of_lt ?_
    unfold Blob.size; unfold sizeofSizeT at *; omega
  have hne : ¬pos = pos + sizeofSizeT := by unfold sizeofSizeT; omega
  have hle : ¬raw.length < pos + sizeofSizeT := by unfold sizeofSizeT at hl' ⊢; omega
  rw [length_serializeString, ← Nat.add_assoc]
  simp only [deserializeStringAt, runFrom_bind, runFrom_input, runFrom_position, Except.bind,
    hread, htake, hend, Blob.ofBytes_val, if_neg hne, if_neg hle, runFrom_moveTo, runFrom_pure]

/-- **A string reads back.** -/
theorem reads_string (str : Blob) : Reads deserializeString (serializeString str) str :=
  (reads_stringAt str).advancing (by rw [length_serializeString]; unfold sizeofSizeT; omega)

/-! ## Any bytes -/

theorem deserializeIntAt_eq {w pos : Nat} {raw : Bytes} (hw : w < 2 ^ 63) (hlen : raw.length < 2 ^ 63)
    (hpos : pos ≤ raw.length) :
    (deserializeIntAt w).runFrom raw pos =
      if raw.length < pos + w then .ok (0, pos)
      else .ok (BigEndian.decode ((raw.drop pos).take w), pos + w) := by
  have hsum : (w + pos) % 2 ^ 64 = pos + w := by rw [Nat.mod_eq_of_lt] <;> omega
  have hsum' : (pos + w) % 2 ^ 64 = pos + w := Nat.mod_eq_of_lt (by omega)
  simp only [deserializeIntAt, runFrom_bind, runFrom_input, runFrom_position, Except.bind,
    runFrom_moveTo, runFrom_pure, fromBinaryStringBigEndian, hsum, hsum']
  split <;> rfl

/-- What `deserializeString` does at a position: it moves behind the length and on by it, modulo
`2 ^ 64`, wherever the string ends. -/
theorem deserializeString_eq {pos : Nat} {raw : Bytes} (hlen : raw.length < 2 ^ 63)
    (hpos : pos ≤ raw.length) :
    deserializeString.runFrom raw pos =
      if raw.length < pos + sizeofSizeT then .error (.exception "Incorrect raw")
      else
        let size := BigEndian.decode ((raw.drop pos).take sizeofSizeT)
        if (pos + sizeofSizeT + size) % 2 ^ 64 = pos then .error (.exception "Incorrect raw")
        else .ok (⟨(raw.drop (pos + sizeofSizeT)).take size, by
            rw [List.length_take, List.length_drop]; omega⟩,
          (pos + sizeofSizeT + size) % 2 ^ 64) := by
  have hint := deserializeIntAt_eq (w := sizeofSizeT) (by decide) hlen hpos
  have hword : sizeofSizeT = 8 := rfl
  by_cases hend : raw.length < pos + sizeofSizeT
  · rw [if_pos hend] at hint ⊢
    simp only [deserializeString, advancing, deserializeStringAt, runFrom_bind, runFrom_position,
      runFrom_input, Except.bind, hint, if_true, runFrom_pure, runFrom_fail]
  · rw [if_neg hend] at hint ⊢
    have hne : ¬ pos = pos + sizeofSizeT := by omega
    have hbytes : ∀ size, Blob.ofBytes ((raw.drop (pos + sizeofSizeT)).take size) =
        .ok ⟨(raw.drop (pos + sizeofSizeT)).take size, by
          rw [List.length_take, List.length_drop]; omega⟩ := by
      intro size
      exact Blob.ofBytes_val ⟨_, _⟩
    simp only [deserializeString, advancing, deserializeStringAt, runFrom_bind, runFrom_position,
      runFrom_input, Except.bind, hint, if_neg hne, if_neg hend, hbytes, runFrom_moveTo, runFrom_pure]
    split <;> rfl

end TorrentNode
