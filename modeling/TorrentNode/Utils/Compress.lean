import TorrentNode.Base

/-!
# Compression (`utils/compress.cpp`)

A compressed string is the size of the plain one, four bytes with the lowest first,
and a block of LZ4. The library takes its sizes as `int`s, so what it is told is a
length modulo `2 ^ 32`. A call that fails leaves its destination as it is, and the
string is returned all the same.
-/

namespace TorrentNode

/-- The library. -/
structure LZ4 where
  /-- `LZ4_compress_default(source, dest, sourceSize, maxDestSize)`: what it writes. -/
  compress_default : Bytes → Nat → Nat → Bytes
  /-- `LZ4_decompress_safe(source, dest, compressedSize, maxDecompressedSize)`: what it writes, or
  what is left in the destination when it fails. -/
  decompress_safe : Bytes → Nat → Nat → Except Bytes Bytes

namespace LZ4

/-- `LZ4_MAX_INPUT_SIZE`. -/
def MAX_INPUT_SIZE : Nat := 0x7E000000

/-- `LZ4_compressBound(inputSize)`, a macro of the library. -/
def compressBound (inputSize : Nat) : Nat :=
  if MAX_INPUT_SIZE < inputSize then 0 else inputSize + inputSize / 255 + 16

/-- A `uint32_t` in memory. -/
def header (n : Nat) : Bytes := (BigEndian.encode 4 n).reverse

/-- The `uint32_t` that stands there. -/
def ofHeader (b : Bytes) : Nat := BigEndian.decode b.reverse

theorem ofHeader_header {n : Nat} (h : n < 2 ^ 32) : ofHeader (header n) = n := by
  rw [ofHeader, header, List.reverse_reverse]
  exact BigEndian.decode_encode h

@[simp] theorem length_header (n : Nat) : (header n).length = 4 := by
  rw [header, List.length_reverse, BigEndian.length_encode]

variable (lz4 : LZ4)

/-- `compress(value)` -/
def compress (value : Bytes) : Bytes :=
  if value = [] then [] else
    let bound := compressBound (value.length % 2 ^ 32)
    if bound = 0 then [] else
      match lz4.compress_default value (value.length % 2 ^ 32) bound with
      | [] => List.replicate (bound + 4) 0
      | block => header value.length ++ block

/-- `decompress(value)` -/
def decompress (value : Bytes) : Bytes :=
  if value.length ≤ 4 then [] else
    match lz4.decompress_safe (value.drop 4) ((value.length - 4) % 2 ^ 32)
        (ofHeader (value.take 4)) with
    | .error dest => dest
    | .ok dest => dest

/--
The library gives `src` back out of the block it makes of it, as it does for every
string that is not too long for it.
-/
def Lossless (src : Bytes) : Prop :=
  src.length ≤ MAX_INPUT_SIZE ∧
    ∃ block, lz4.compress_default src src.length (compressBound src.length) = block ∧
      block ≠ [] ∧ block.length ≤ compressBound src.length ∧
      lz4.decompress_safe block block.length src.length = .ok src

variable {lz4}

/-- **What is compressed decompresses.** -/
theorem decompress_compress {value : Bytes} (h : value ≠ [] → lz4.Lossless value) :
    lz4.decompress (lz4.compress value) = value := by
  by_cases hnil : value = []
  · subst hnil
    rfl
  obtain ⟨hsize, block, hblock, hne, hlen, hback⟩ := h hnil
  have hbound : compressBound value.length = value.length + value.length / 255 + 16 :=
    if_neg (by omega)
  have hmax : MAX_INPUT_SIZE < 2 ^ 31 := by decide
  have hmod : value.length % 2 ^ 32 = value.length := Nat.mod_eq_of_lt (by omega)
  have hcompress : lz4.compress value = header value.length ++ block := by
    rw [compress, if_neg hnil]
    simp only [hmod]
    rw [if_neg (by omega), hblock]
    cases block with
    | nil => exact absurd rfl hne
    | cons b block => rfl
  have hpos : 0 < block.length := List.length_pos_iff.mpr hne
  have hblockmod : block.length % 2 ^ 32 = block.length := Nat.mod_eq_of_lt (by
    unfold MAX_INPUT_SIZE at hsize hmax
    omega)
  rw [hcompress, decompress, if_neg (by rw [List.length_append, length_header]; omega),
    List.drop_left' (length_header _), List.take_left' (length_header _), List.length_append,
    length_header, Nat.add_sub_cancel_left, hblockmod, ofHeader_header (by omega), hback]

end LZ4

end TorrentNode
