import TorrentNode.Structs.Common

/-!
# Signature blocks

`blockchain_structs/SignBlock`: blocks of signatures that lie between the blocks
of the chain without being on it.
-/

namespace TorrentNode

open CursorReader

/-- What the timeline keeps of a sign block. -/
structure MinimumSignBlockHeader where
  hash : Blob
  filePos : FilePosition
  prevHash : Blob
  deriving DecidableEq

namespace MinimumSignBlockHeader

/-- The stored form; the hash and the file must be there. -/
def serialize (h : MinimumSignBlockHeader) : Except Err Bytes := do
  check (!h.hash.isEmpty) "empty hash"
  check (!h.filePos.fileNameRelative.isEmpty) "MinimumSignBlockHeader not setted fileName"
  let filePos ← h.filePos.serialize
  pure (filePos ++ serializeString h.hash ++ serializeString h.prevHash)

/-- A stored header. -/
def deserialize : Deserializer MinimumSignBlockHeader := do
  let filePos ← FilePosition.deserialize
  let hash ← deserializeString
  let prevHash ← deserializeString
  pure { hash, filePos, prevHash }

end MinimumSignBlockHeader

/-- `SignBlockHeader`, with the place of the block in its file. -/
structure SignBlockHeader where
  timestamp : UInt64
  blockSize : UInt64
  hash : Blob
  prevHash : Blob
  filePos : FilePosition
  senderSign : Blob
  senderPubkey : Blob
  senderAddress : Blob
  deriving DecidableEq

namespace SignBlockHeader

/-- The stored form; a header that lacks a hash, a size or a file is refused. -/
def serialize (h : SignBlockHeader) : Except Err Bytes := do
  check (!h.hash.isEmpty) "empty hash"
  check (!h.prevHash.isEmpty) "empty prevHash"
  check (h.blockSize != 0) "BlockHeader not initialized"
  check (!h.filePos.fileNameRelative.isEmpty) "SignBlockHeader not setted fileName"
  let filePos ← h.filePos.serialize
  pure (filePos ++ serializeUInt64 h.timestamp ++ serializeUInt64 h.blockSize ++
    serializeString h.hash ++ serializeString h.prevHash ++ serializeString h.senderSign ++
    serializeString h.senderPubkey ++ serializeString h.senderAddress)

/-- What `deserialize` does with the input. -/
def reader : Deserializer SignBlockHeader := do
  let filePos ← FilePosition.deserialize
  let timestamp ← deserializeUInt64
  let blockSize ← deserializeUInt64
  let hash ← deserializeString
  let prevHash ← deserializeString
  let senderSign ← deserializeString
  let senderPubkey ← deserializeString
  let senderAddress ← deserializeString
  pure { timestamp, blockSize, hash, prevHash, filePos, senderSign, senderPubkey, senderAddress }

/-- A stored header. -/
def deserialize (raw : Blob) : Except Err SignBlockHeader := deserializeAll reader raw

/-- **A stored header of signatures reads back.** -/
theorem reads {h : SignBlockHeader} {raw : Bytes} (hs : h.serialize = .ok raw) :
    Reads reader raw h := by
  obtain ⟨-, hs⟩ := check_bind_eq_ok.mp hs
  obtain ⟨-, hs⟩ := check_bind_eq_ok.mp hs
  obtain ⟨-, hs⟩ := check_bind_eq_ok.mp hs
  obtain ⟨-, hs⟩ := check_bind_eq_ok.mp hs
  obtain ⟨pos, hpos, hs⟩ := bind_eq_ok.mp hs
  have hraw := (Except.ok.inj hs).symm
  simp only [List.append_assoc] at hraw
  subst hraw
  exact (FilePosition.reads hpos).bind ((reads_uint64 h.timestamp).bind
    ((reads_uint64 h.blockSize).bind ((reads_string h.hash).bind ((reads_string h.prevHash).bind
      ((reads_string h.senderSign).bind ((reads_string h.senderPubkey).bind
        ((reads_string h.senderAddress).map (f := fun senderAddress =>
          ({ h with senderAddress } : SignBlockHeader)))))))))

/-- Where the dump ends in its file; eight bytes in front of it are its size. -/
def endBlockPos (h : SignBlockHeader) : Except Err UInt64 := do
  check (h.blockSize != 0) "Incorrect block size"
  pure (h.filePos.pos + h.blockSize + 8)

end SignBlockHeader

/-- A signature: of which block, and whose. -/
structure SignTransactionInfo where
  blockHash : Blob
  sign : Blob
  pubkey : Blob
  address : Address
  deriving DecidableEq

/-- A sign block: its header and its signatures. -/
structure SignBlockInfo where
  header : SignBlockHeader
  txs : List SignTransactionInfo
  deriving DecidableEq

namespace SignBlockInfo

/-- Keeps who sent the block, and the signature. -/
def saveSenderInfo (bi : SignBlockInfo) (senderSign senderPubkey senderAddress : Blob) :
    SignBlockInfo :=
  { bi with header := { bi.header with senderSign, senderPubkey, senderAddress } }

/-- Names the file in the place of the block. -/
def saveFilePath (bi : SignBlockInfo) (path : Blob) : SignBlockInfo :=
  { bi with header :=
      { bi.header with filePos := { bi.header.filePos with fileNameRelative := path } } }

end SignBlockInfo

end TorrentNode
