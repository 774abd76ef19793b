import TorrentNode.Utils.Serialize

/-!
# The loops behind the integers (`utils/serialize.h`)

The encoders fill a string or a buffer of zeros from its end and stop as soon as
nothing is left of the value; the decoder builds the value up in the type that it
returns. Both handle `char`s, which are signed.
-/

namespace TorrentNode

/-- A string as the program stores it. -/
abbrev Chars : Type := List Int8

namespace Chars

/-- The bytes that the database and the network see. -/
def bytes (str : Chars) : Bytes := str.map Int8.toUInt8

/-- The loop of the encoders: `i + 1` places behind `begin` are left. -/
def fillBack (begin : Nat) : Nat → Nat → Chars → Chars
  | 0, _, result => result
  | i + 1, val, result =>
    if val = 0 then result
    else fillBack begin i (val / 256) (result.set (begin + i) (Int8.ofNat (val % 256)))

/-- `toBinaryStringBigEndian(val)` for a type of `w` bytes. -/
def toBinaryStringBigEndian (w val : Nat) : Chars := fillBack 0 w val (List.replicate w 0)

/-- `toBinaryStringBigEndian(val, buffer)`. -/
def toBinaryStringBigEndianBuffer (w val : Nat) (buffer : Chars) : Chars :=
  fillBack buffer.length w val (buffer ++ List.replicate w 0)

/-- A round of the decoder, whose `val` has `w` bytes. -/
def addChar (w val : Nat) (c : Int8) : Nat :=
  (val * 256 % 256 ^ w + c.toUInt8.toNat) % 256 ^ w

/-- `fromBinaryStringBigEndian(raw, fromPos, endPos)`: the value and `endPos`. -/
def fromBinaryStringBigEndian (w : Nat) (raw : Chars) (fromPos : Nat) : Nat × Nat :=
  if raw.length < (w + fromPos) % 2 ^ 64 then (0, fromPos)
  else (((raw.drop fromPos).take w).foldl (addChar w) 0, (fromPos + w) % 2 ^ 64)

/-- `deserializeIntBigEndian(raw, fromPos)`: the value and the new `fromPos`. -/
def deserializeIntBigEndian (w : Nat) (raw : Chars) (fromPos : Nat) : Except Err (Nat × Nat) := do
  let (val, endPos) := fromBinaryStringBigEndian w raw fromPos
  check (endPos != fromPos) "Incorrect raw"
  pure (val, endPos)

/-! ## The encoders -/

/-- A numeral in signed `char`s. -/
def numeral (w val : Nat) : Chars := (BigEndian.encode w val).map UInt8.toInt8

theorem numeral_zero : ∀ w : Nat, numeral w 0 = List.replicate w 0
  | 0 => rfl
  | w + 1 => by
      have ih := numeral_zero w
      unfold numeral at ih ⊢
      rw [BigEndian.encode, List.map_cons, ih, List.replicate_succ, Nat.zero_div]
      rfl

/-- The last place holds the low digit. -/
theorem numeral_succ (w val : Nat) :
    numeral (w + 1) val = numeral w (val / 256) ++ [Int8.ofNat (val % 256)] := by
  unfold numeral
  rw [BigEndian.encode_succ_last, List.map_append, List.map_singleton]
  rfl

/-- **The loop writes the numeral into the zeros that it is given.** -/
theorem fillBack_eq (before : Chars) : ∀ (i val : Nat) (after : Chars),
    fillBack before.length i val (before ++ List.replicate i 0 ++ after) =
      before ++ numeral i val ++ after
  | 0, _, _ => rfl
  | i + 1, val, after => by
      unfold fillBack
      split
      · rename_i hzero
        rw [hzero, numeral_zero]
      · -- the place behind the remaining zeros takes the low digit
        have hset : (before ++ List.replicate (i + 1) 0 ++ after).set (before.length + i)
            (Int8.ofNat (val % 256)) =
            before ++ List.replicate i 0 ++ (Int8.ofNat (val % 256) :: after) := by
          rw [List.replicate_succ', List.append_assoc, List.append_assoc, List.append_assoc,
            List.set_append_right _ _ (Nat.le_add_right _ _), Nat.add_sub_cancel_left,
            List.set_append_right _ _ (by rw [List.length_replicate])]
          simp
        rw [hset, fillBack_eq before i, numeral_succ, List.append_assoc, List.append_assoc,
          List.append_assoc]
        rfl

theorem toBinaryStringBigEndian_eq (w val : Nat) :
    toBinaryStringBigEndian w val = numeral w val := by
  have h := fillBack_eq [] w val []
  rw [List.append_nil, List.append_nil] at h
  exact h

/-- **The two encoders append the same.** -/
theorem toBinaryStringBigEndianBuffer_eq (w val : Nat) (buffer : Chars) :
    toBinaryStringBigEndianBuffer w val buffer = buffer ++ toBinaryStringBigEndian w val := by
  have h := fillBack_eq buffer w val []
  rw [List.append_nil, List.append_nil] at h
  rw [toBinaryStringBigEndian_eq]
  exact h

/-- As bytes, the string is the numeral that the rest of the model takes it for. -/
theorem bytes_toBinaryStringBigEndian (w val : Nat) :
    (toBinaryStringBigEndian w val).bytes = serializeInt w val := by
  rw [toBinaryStringBigEndian_eq]
  unfold bytes numeral serializeInt
  rw [List.map_map]
  exact List.map_id' _

@[simp] theorem length_toBinaryStringBigEndian (w val : Nat) :
    (toBinaryStringBigEndian w val).length = w := by
  have h := congrArg List.length (bytes_toBinaryStringBigEndian w val)
  rwa [bytes, List.length_map, length_serializeInt] at h

/-! ## The decoder -/

/-- The rounds compute the value modulo the type. -/
theorem foldl_addChar (w : Nat) : ∀ (str : Chars) (val : Nat),
    str.foldl (addChar w) (val % 256 ^ w) = BigEndian.decodeFrom val str.bytes % 256 ^ w
  | [], _ => rfl
  | c :: str, val => by
      have hround : addChar w (val % 256 ^ w) c = (val * 256 + c.toUInt8.toNat) % 256 ^ w := by
        unfold addChar
        rw [Nat.mod_mul_mod, Nat.mod_add_mod]
      rw [List.foldl_cons, hround, foldl_addChar w str]
      rfl

theorem fromBinaryStringBigEndian_bytes (w : Nat) (raw : Chars) (fromPos : Nat) :
    fromBinaryStringBigEndian w raw fromPos =
      TorrentNode.fromBinaryStringBigEndian w raw.bytes fromPos := by
  unfold fromBinaryStringBigEndian TorrentNode.fromBinaryStringBigEndian
  have hlen : raw.bytes.length = raw.length := List.length_map _
  rw [hlen]
  split
  · rfl
  · have hbytes : bytes ((raw.drop fromPos).take w) = (raw.bytes.drop fromPos).take w := by
      unfold bytes
      rw [List.map_take, List.map_drop]
    have hval : ((raw.drop fromPos).take w).foldl (addChar w) 0 =
        BigEndian.decode ((raw.bytes.drop fromPos).take w) % 256 ^ w := by
      have h := foldl_addChar w ((raw.drop fromPos).take w) 0
      rw [Nat.zero_mod, hbytes] at h
      exact h
    rw [hval]
    -- the digits of the type are too few to pass its limit
    have hlt := BigEndian.decode_lt ((raw.bytes.drop fromPos).take w)
    have hle : ((raw.bytes.drop fromPos).take w).length ≤ w := List.length_take_le _ _
    have hpow : 256 ^ ((raw.bytes.drop fromPos).take w).length ≤ 256 ^ w :=
      Nat.pow_le_pow_right (by decide) hle
    rw [Nat.mod_eq_of_lt (Nat.lt_of_lt_of_le hlt hpow)]

/-- **An integer reads back from wherever it stands.** -/
theorem fromBinaryStringBigEndian_at {w val : Nat} (hw : 0 < w) (hval : val < 256 ^ w)
    (before after : Chars)
    (hlen : (before ++ toBinaryStringBigEndian w val ++ after).length < 2 ^ 63) :
    fromBinaryStringBigEndian w (before ++ toBinaryStringBigEndian w val ++ after)
      before.length = (val, before.length + w) := by
  rw [fromBinaryStringBigEndian_bytes]
  have hbytes : (bytes (before ++ toBinaryStringBigEndian w val ++ after)).drop before.length =
      serializeInt w val ++ after.bytes := by
    have hbefore : before.bytes.length = before.length := List.length_map _
    rw [← bytes_toBinaryStringBigEndian]
    unfold bytes at hbefore ⊢
    rw [List.map_append, List.map_append, List.append_assoc, ← hbefore]
    exact List.drop_left
  refine (TorrentNode.fromBinaryStringBigEndian_at hw hval ?_ hbytes).1
  unfold bytes
  rwa [List.length_map]

end Chars

end TorrentNode
