import TorrentNode.Utils.Serialize

/-!
# Numbers of variable length (`BlockchainRead.cpp`)

A number up to 249 is one byte. The bytes 250, 251 and 252 stand in front of two,
four and eight more, the least significant first. Nothing makes a writer take the
shortest of these.
-/

namespace TorrentNode

open CursorReader

/-- A number, its least significant byte first. -/
def littleEndian (digits : Bytes) : Nat := BigEndian.decode digits.reverse

/-- `readInt<T>` for a type of `w` bytes. -/
def readInt (w : Nat) : Deserializer UInt64 := do
  let raw ← input
  let cur_pos ← position
  if raw.length < cur_pos + w then fail (.exception "Out of the array") else do
    moveTo (cur_pos + w)
    pure (UInt64.ofNat (littleEndian ((raw.drop cur_pos).take w)))

/-- `readVarInt`: a byte, or two, four or eight behind a byte that says so. -/
def readVarInt : Deserializer UInt64 := do
  let len ← readInt 1
  if len ≤ 249 then pure len
  else if len = 250 then readInt 2
  else if len = 251 then readInt 4
  else if len = 252 then readInt 8
  else fail (.exception "Not supported varint value")

/-- `CHECK(cur_pos + size <= end_pos)`, and the bytes behind `cur_pos`. -/
def readBytes (size : Nat) : Deserializer Blob := do
  let raw ← input
  let cur_pos ← position
  if raw.length < cur_pos + size then fail (.exception "Out of the array") else
    match Blob.ofBytes ((raw.drop cur_pos).take size) with
    | .error e => fail e
    | .ok bytes => do
      moveTo (cur_pos + size)
      pure bytes

/-! ## What they accept -/

/-- The ways to write a number. -/
inductive VarInt : Bytes → UInt64 → Prop where
  | byte {len : UInt8} : len.toNat ≤ 249 → VarInt [len] len.toUInt64
  | wide {len : UInt8} {w : Nat} {digits : Bytes} :
      (len, w) ∈ [((250 : UInt8), 2), (251, 4), (252, 8)] → digits.length = w →
      VarInt (len :: digits) (UInt64.ofNat (littleEndian digits))

theorem VarInt.length_pos {xs : Bytes} {n : UInt64} (h : VarInt xs n) : 0 < xs.length := by
  cases h with
  | byte _ => exact Nat.one_pos
  | wide _ _ => exact Nat.succ_pos _

theorem parses_int (w : Nat) :
    Parses (fun xs n => xs.length = w ∧ n = UInt64.ofNat (littleEndian xs)) (readInt w) := by
  intro raw pos n next hpos
  simp only [readInt, runFrom_bind, runFrom_input, runFrom_position, Except.bind]
  by_cases hshort : raw.length < pos + w
  · rw [if_pos hshort, runFrom_fail]
    refine iff_of_false (fun h => by cases h) ?_
    rintro ⟨xs, ⟨hw, _⟩, hat, _⟩
    have hle := add_length_le hpos hat
    omega
  · rw [if_neg hshort]
    simp only [runFrom_bind, runFrom_moveTo, runFrom_pure, Except.bind]
    have hwhole : pos + w ≤ raw.length := by omega
    constructor
    · intro h
      obtain ⟨hn, hnext⟩ := Prod.mk.inj (Except.ok.inj h)
      obtain ⟨hlen, hat⟩ := (prefix_drop_iff hwhole).mpr rfl
      exact ⟨_, ⟨hlen, hn.symm⟩, hat, by rw [hlen, hnext]⟩
    · rintro ⟨xs, ⟨hw, hn⟩, hat, hnext⟩
      obtain hxs := (prefix_drop_iff hwhole).mp ⟨hw, hat⟩
      rw [hn, hnext, hw, hxs]

theorem parses_bytes (size : Nat) :
    Parses (fun xs (b : Blob) => xs = b.val ∧ b.size = size) (readBytes size) := by
  intro raw pos b next hpos
  simp only [readBytes, runFrom_bind, runFrom_input, runFrom_position, Except.bind]
  by_cases hshort : raw.length < pos + size
  · rw [if_pos hshort, runFrom_fail]
    refine iff_of_false (fun h => by cases h) ?_
    rintro ⟨xs, ⟨hxs, hsize⟩, hat, _⟩
    have hle := add_length_le hpos hat
    rw [hxs] at hle
    unfold Blob.size at hsize
    omega
  · rw [if_neg hshort]
    have hwhole : pos + size ≤ raw.length := by omega
    constructor
    · intro h
      cases hbytes : Blob.ofBytes ((raw.drop pos).take size) with
      | error e =>
          rw [hbytes] at h
          cases h
      | ok bytes =>
          rw [hbytes] at h
          obtain ⟨rfl, hnext⟩ := Prod.mk.inj (Except.ok.inj h)
          obtain ⟨hlen, hat⟩ := (prefix_drop_iff hwhole).mpr (Blob.ofBytes_eq_ok.mp hbytes)
          exact ⟨_, ⟨rfl, hlen⟩, hat, by rw [hlen, ← hnext]⟩
    · rintro ⟨xs, ⟨hxs, hsize⟩, hat, hnext⟩
      have hlen : xs.length = size := by rw [hxs]; exact hsize
      rw [← (prefix_drop_iff hwhole).mp ⟨hlen, hat⟩, hxs, Blob.ofBytes_val, hnext, hlen]
      rfl

theorem littleEndian_one (b : UInt8) : UInt64.ofNat (littleEndian [b]) = b.toUInt64 := by
  rw [← UInt64.toNat_inj, UInt8.toNat_toUInt64]
  have hb := b.toNat_lt
  simp [littleEndian, BigEndian.decode, BigEndian.decodeFrom]

theorem toUInt64_le (b : UInt8) : b.toUInt64 ≤ 249 ↔ b.toNat ≤ 249 := by
  rw [UInt64.le_iff_toNat_le, UInt8.toNat_toUInt64]
  rfl

theorem toUInt64_inj {b c : UInt8} (h : b.toUInt64 = c.toUInt64) : b = c := by
  rw [← UInt64.toNat_inj, UInt8.toNat_toUInt64, UInt8.toNat_toUInt64] at h
  exact UInt8.toNat_inj.mp h

/-- **A number is read in each of its encodings**, and nothing else is. -/
theorem parses_varInt : Parses VarInt readVarInt := by
  have hread := (parses_int 1).bind (fun len =>
    (Parses.pure len).ite (c := len ≤ 249) ((parses_int 2).ite (c := len = 250)
      ((parses_int 4).ite (c := len = 251) ((parses_int 8).ite (c := len = 252)
        (Parses.fail (Err.exception "Not supported varint value"))))))
  refine hread.congr (fun xs n => ?_)
  constructor
  -- The first byte is the number, or says how wide it is.
  · rintro ⟨len, head, digits, hxs, ⟨hone, hlen⟩, hrest⟩
    obtain ⟨first, rfl⟩ := List.length_eq_one_iff.mp hone
    rw [littleEndian_one] at hlen
    subst hlen
    subst hxs
    by_cases hbyte : first.toUInt64 ≤ 249
    · rw [if_pos hbyte] at hrest
      obtain ⟨rfl, rfl⟩ := hrest
      exact .byte ((toUInt64_le first).mp hbyte)
    rw [if_neg hbyte] at hrest
    by_cases htwo : first.toUInt64 = 250
    · rw [if_pos htwo] at hrest
      obtain rfl : first = 250 := toUInt64_inj htwo
      rw [hrest.2]
      exact .wide (by decide) hrest.1
    rw [if_neg htwo] at hrest
    by_cases hfour : first.toUInt64 = 251
    · rw [if_pos hfour] at hrest
      obtain rfl : first = 251 := toUInt64_inj hfour
      rw [hrest.2]
      exact .wide (by decide) hrest.1
    rw [if_neg hfour] at hrest
    by_cases height : first.toUInt64 = 252
    · rw [if_pos height] at hrest
      obtain rfl : first = 252 := toUInt64_inj height
      rw [hrest.2]
      exact .wide (by decide) hrest.1
    rw [if_neg height] at hrest
    exact hrest.elim
  · intro h
    cases h with
    | @byte len hlen =>
        refine ⟨_, [len], [], rfl, ⟨rfl, (littleEndian_one len).symm⟩, ?_⟩
        rw [if_pos ((toUInt64_le len).mpr hlen)]
        exact ⟨rfl, rfl⟩
    | @wide len w digits hmem hdigits =>
        refine ⟨_, [len], digits, rfl, ⟨rfl, (littleEndian_one len).symm⟩, ?_⟩
        simp only [List.mem_cons, Prod.mk.injEq, List.not_mem_nil, or_false] at hmem
        rcases hmem with ⟨rfl, rfl⟩ | ⟨rfl, rfl⟩ | ⟨rfl, rfl⟩
        · exact ⟨hdigits, rfl⟩
        · exact ⟨hdigits, rfl⟩
        · exact ⟨hdigits, rfl⟩

end TorrentNode
