import TorrentNode.Utils.Serialize

/-!
# Addresses and file positions

`blockchain_structs/Address`, `FilePosition` and `BlocksMetadata`. A serialiser
may refuse its record, so it returns `Except`; each one comes with the statement
that its reader takes the bytes back.
-/

namespace TorrentNode

open CursorReader

/-! ## Address -/

/-- `Address`: a wallet, or the one that all money comes from. -/
structure Address where
  /-- The bytes; empty for the initial wallet. -/
  address : Blob
  isInitialW : Bool
  /-- Whether a value was ever assigned: nearly every method throws without. -/
  isSet : Bool
  deriving DecidableEq

namespace Address

/-- An address to which nothing was assigned. -/
def unset : Address := { address := ∅, isInitialW := false, isSet := false }

instance : Inhabited Address := ⟨unset⟩

/-- An address of these bytes. -/
def ofBlob (b : Blob) : Address := { address := b, isInitialW := false, isSet := true }

/-- The initial wallet. -/
def setEmpty (a : Address) : Address := { a with address := ∅, isInitialW := true, isSet := true }

/-- What stands for the initial wallet. -/
def INITIAL_WALLET_TRANSACTION : Blob :=
  ⟨ascii "InitialWalletTransaction".toList, by decide⟩

/-- The bytes, or what stands for the initial wallet. -/
def getBinaryString (a : Address) : Except Err Blob := do
  check a.isSet "Address not set"
  pure (if a.address.isEmpty then INITIAL_WALLET_TRANSACTION else a.address)

/-- The bytes that are stored. -/
def toBdString (a : Address) : Except Err Blob := a.getBinaryString

/-- The bytes in hex, with `0x`; what stands for the initial wallet as it is. -/
def calcHexString (a : Address) : Except Err Bytes := do
  check a.isSet "Address not set"
  pure (if a.address.isEmpty then INITIAL_WALLET_TRANSACTION.val
    else ascii ("0x" ++ toHex a.address.val).toList)

/-- `operator==`. -/
def eq (a second : Address) : Except Err Bool := do
  check a.isSet "Address not set"
  check second.isSet "Address not set"
  pure (a.address == second.address)

/-- Nothing is in it. -/
def isEmpty (a : Address) : Except Err Bool := do
  check a.isSet "Address not set"
  pure a.address.isEmpty

/-- It was made the initial wallet. -/
def isInitialWallet (a : Address) : Except Err Bool := do
  check a.isSet "Address not set"
  pure a.isInitialW

/-- `isScriptAddress()`; reading `[0]` of an empty string gives its terminator. -/
def isScriptAddress (a : Address) : Except Err Bool := do
  check a.isSet "Address not set"
  pure (a.address.val.headD 0 == 8)

/-- The first byte is that of tokens. -/
def isTokenAddress (a : Address) : Except Err Bool := do
  check a.isSet "Address not set"
  pure (a.address.val.headD 0 == 6)

theorem getBinaryString_ne {a : Address} {b : Blob} (h : a.getBinaryString = .ok b) : b ≠ ∅ := by
  have hb := Except.ok.inj (check_bind_eq_ok.mp h).2
  rw [← hb]
  split
  · decide
  · rename_i hne
    exact Blob.isEmpty_eq_false.mp (Bool.not_eq_true _ ▸ hne)

@[simp] theorem getBinaryString_ofBlob (b : Blob) (h : b.isEmpty = false) :
    (ofBlob b).getBinaryString = .ok b := by
  simp only [getBinaryString, ofBlob, check_true, h]
  rfl

end Address

/-! ## FilePosition -/

/-- A place in a file. -/
structure FilePosition where
  pos : UInt64
  fileNameRelative : Blob
  deriving DecidableEq

instance : Inhabited FilePosition := ⟨⟨0, ∅⟩⟩

namespace FilePosition

/-- `serialize()`, also the overload that appends to a buffer. -/
def serialize (f : FilePosition) : Except Err Bytes := do
  check (!f.fileNameRelative.isEmpty) "FilePosition not initialized"
  pure (serializeString f.fileNameRelative ++ serializeUInt64 f.pos)

/-- The name of the file and the position, each of which must move on in the input. -/
def deserializeAt : Deserializer FilePosition := do
  let fileNameRelative ← advancing (.exception "Incorrect raw ") deserializeStringAt
  let pos ← advancing (.exception "Incorrect raw ") (deserializeIntAt sizeofSizeT)
  pure { pos := UInt64.ofNat pos, fileNameRelative }

/-- A place; reading it must move on in the input. -/
def deserialize : Deserializer FilePosition :=
  advancing (.exception "Incorrect raw") deserializeAt

theorem reads_at (f : FilePosition) :
    Reads deserializeAt (serializeString f.fileNameRelative ++ serializeUInt64 f.pos) f := by
  have hname := (reads_stringAt f.fileNameRelative).advancing (e := Err.exception "Incorrect raw ")
    (by rw [length_serializeString]; unfold sizeofSizeT; omega)
  have hpos := (reads_intAt (w := sizeofSizeT) (by decide) f.pos.toNat_lt).advancing
    (e := Err.exception "Incorrect raw ") (by rw [length_serializeInt]; decide)
  refine hname.bind ?_
  have h := hpos.map (f := fun n =>
    ({ pos := UInt64.ofNat n, fileNameRelative := f.fileNameRelative } : FilePosition))
  rwa [UInt64.ofNat_toNat] at h

/-- **What a position serialises to reads back.** -/
theorem reads {f : FilePosition} {raw : Bytes} (h : f.serialize = .ok raw) :
    Reads deserialize raw f := by
  cases hn : f.fileNameRelative.isEmpty with
  | true => simp [serialize, hn, Bind.bind, Except.bind] at h
  | false =>
      simp only [serialize, hn, Bind.bind, Except.bind, Bool.not_false, check_true] at h
      obtain rfl := Except.ok.inj h
      refine (reads_at f).advancing ?_
      rw [List.length_append, length_serializeUInt64]
      unfold sizeofSizeT; omega

end FilePosition

/-! ## BlocksMetadata -/

/-- `struct BlocksMetadata`: the last block that was written and its parent. -/
structure BlocksMetadata where
  blockHash : Blob
  prevBlockHash : Blob
  deriving DecidableEq

instance : Inhabited BlocksMetadata := ⟨⟨∅, ∅⟩⟩

namespace BlocksMetadata

/-- The stored form; both hashes must be there. -/
def serialize (m : BlocksMetadata) : Except Err Bytes := do
  check (!m.blockHash.isEmpty) "Incorrect metadata"
  check (!m.prevBlockHash.isEmpty) "Incorrect metadata"
  pure (serializeString m.blockHash ++ serializeString m.prevBlockHash)

/-- What is stored; nothing stands for two empty hashes. -/
def deserialize (raw : Blob) : Except Err BlocksMetadata :=
  if raw.isEmpty then .ok default else
    deserializeAll (do
      let blockHash ← deserializeString
      let prevBlockHash ← deserializeString
      pure { blockHash, prevBlockHash }) raw

end BlocksMetadata

end TorrentNode
