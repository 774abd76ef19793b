import TorrentNode.Structs.TransactionInfo

/-!
# Block headers and blocks

`blockchain_structs/BlockInfo`. The block number is not serialised: it is
computed again from the parent links each time the program starts.
-/

namespace TorrentNode

open CursorReader

/-- An ordinary block. -/
def BLOCK_TYPE : UInt64 := 0xEFCDAB8967452301

/-- An ordinary block, too. -/
def BLOCK_TYPE_COMMON : UInt64 := 0x0000000067452301

/-- A block with a state, which begins a new day. -/
def BLOCK_TYPE_STATE : UInt64 := 0x1100000067452301

/-- A block of forging transactions. -/
def BLOCK_TYPE_FORGING : UInt64 := 0x2200000067452301

/-- The third type of an ordinary block. -/
def BLOCK_TYPE_COMMON_2 : UInt64 := 0x0001000067452301

/-- The second type of a state block. -/
def BLOCK_TYPE_STATE_2 : UInt64 := 0x1101000067452301

/-- The second type of a forging block. -/
def BLOCK_TYPE_FORGING_2 : UInt64 := 0x2201000067452301

/-- `BlockHeader`, with the place of the block in its file. -/
structure BlockHeader where
  timestamp : UInt64
  blockSize : UInt64
  blockType : UInt64
  hash : Blob
  prevHash : Blob
  txsHash : Blob
  signature : Blob
  countTxs : UInt64
  countSignTx : UInt64
  filePos : FilePosition
  /-- The height, once `BlockChain::calcBlockchain` has found it. -/
  blockNumber : Option Nat
  senderSign : Blob
  senderPubkey : Blob
  senderAddress : Blob
  deriving DecidableEq

instance : Inhabited BlockHeader :=
  ⟨{ timestamp := 0, blockSize := 0, blockType := 0, hash := ∅, prevHash := ∅, txsHash := ∅,
     signature := ∅, countTxs := 0, countSignTx := 0, filePos := default, blockNumber := none,
     senderSign := ∅, senderPubkey := ∅, senderAddress := ∅ }⟩

namespace BlockHeader

/-- The block has the type of a state block. -/
def isStateBlock (h : BlockHeader) : Bool :=
  h.blockType == BLOCK_TYPE_STATE || h.blockType == BLOCK_TYPE_STATE_2

/-- The block has the type of an ordinary one. -/
def isSimpleBlock (h : BlockHeader) : Bool :=
  h.blockType == BLOCK_TYPE || h.blockType == BLOCK_TYPE_COMMON ||
    h.blockType == BLOCK_TYPE_COMMON_2

/-- The block has the type of a forging block. -/
def isForgingBlock (h : BlockHeader) : Bool :=
  h.blockType == BLOCK_TYPE_FORGING || h.blockType == BLOCK_TYPE_FORGING_2

/-- Where the dump ends in its file; eight bytes in front of it are its size. -/
def endBlockPos (h : BlockHeader) : Except Err UInt64 := do
  check (h.blockSize != 0) "Incorrect block size"
  pure (h.filePos.pos + h.blockSize + 8)

/-- The header at a height. -/
def withNumber (h : BlockHeader) (n : Option Nat) : BlockHeader := { h with blockNumber := n }

@[simp] theorem withNumber_hash (h : BlockHeader) (n : Option Nat) :
    (h.withNumber n).hash = h.hash := rfl

@[simp] theorem withNumber_prevHash (h : BlockHeader) (n : Option Nat) :
    (h.withNumber n).prevHash = h.prevHash := rfl

@[simp] theorem withNumber_blockNumber (h : BlockHeader) (n : Option Nat) :
    (h.withNumber n).blockNumber = n := rfl

@[simp] theorem withNumber_withNumber (h : BlockHeader) (n m : Option Nat) :
    (h.withNumber n).withNumber m = h.withNumber m := rfl

@[simp] theorem withNumber_isStateBlock (h : BlockHeader) (n : Option Nat) :
    (h.withNumber n).isStateBlock = h.isStateBlock := rfl

theorem withNumber_self {h : BlockHeader} {n : Option Nat} (hn : h.blockNumber = n) :
    h.withNumber n = h := by
  subst hn; rfl

/-- The bytes of a header, after the position of its dump. -/
def body (h : BlockHeader) : Bytes :=
  serializeString h.prevHash ++ (serializeString h.hash ++ (serializeString h.txsHash ++
    (serializeString h.signature ++ (serializeUInt64 h.blockSize ++ (serializeUInt64 h.blockType ++
      (serializeUInt64 h.timestamp ++ (serializeUInt64 h.countTxs ++
        (serializeUInt64 h.countSignTx ++ (serializeString h.senderSign ++
          (serializeString h.senderPubkey ++ serializeString h.senderAddress))))))))))

/-- The stored form; a header that lacks a hash, a size or a type is refused. -/
def serialize (h : BlockHeader) : Except Err Bytes := do
  check (!h.hash.isEmpty) "empty hash"
  check (!h.prevHash.isEmpty) "empty prevHash"
  check (!h.txsHash.isEmpty) "empty txsHash"
  check (h.blockSize != 0) "BlockHeader not initialized"
  check (h.blockType != 0) "BlockHeader not initialized"
  let filePos ← h.filePos.serialize
  pure (filePos ++ h.body)

/-- What `deserialize` does with the input. -/
def reader : Deserializer BlockHeader := do
  let filePos ← FilePosition.deserialize
  let prevHash ← deserializeString
  let hash ← deserializeString
  let txsHash ← deserializeString
  let signature ← deserializeString
  let blockSize ← deserializeUInt64
  let blockType ← deserializeUInt64
  let timestamp ← deserializeUInt64
  let countTxs ← deserializeUInt64
  let countSignTx ← deserializeUInt64
  let senderSign ← deserializeString
  let senderPubkey ← deserializeString
  let senderAddress ← deserializeString
  pure { timestamp, blockSize, blockType, hash, prevHash, txsHash, signature, countTxs,
         countSignTx, filePos, blockNumber := none, senderSign, senderPubkey, senderAddress }

/-- A stored header. -/
def deserialize (raw : Blob) : Except Err BlockHeader := deserializeAll reader raw

theorem serialize_eq_ok {h : BlockHeader} {raw : Bytes} (hs : h.serialize = .ok raw) :
    ∃ pos, h.filePos.serialize = .ok pos ∧ raw = pos ++ h.body := by
  simp only [serialize, Bind.bind, Except.bind] at hs
  split at hs; · simp at hs
  split at hs; · simp at hs
  split at hs; · simp at hs
  split at hs; · simp at hs
  split at hs; · simp at hs
  split at hs
  · simp at hs
  · rename_i pos hpos
    exact ⟨pos, hpos, (Except.ok.inj hs).symm⟩

/-- **A stored header reads back without its number.** -/
theorem reads {h : BlockHeader} {raw : Bytes} (hs : h.serialize = .ok raw) :
    Reads reader raw (h.withNumber none) := by
  obtain ⟨pos, hpos, rfl⟩ := serialize_eq_ok hs
  exact (FilePosition.reads hpos).bind ((reads_string h.prevHash).bind
    ((reads_string h.hash).bind ((reads_string h.txsHash).bind ((reads_string h.signature).bind
      ((reads_uint64 h.blockSize).bind ((reads_uint64 h.blockType).bind
        ((reads_uint64 h.timestamp).bind ((reads_uint64 h.countTxs).bind
          ((reads_uint64 h.countSignTx).bind ((reads_string h.senderSign).bind
            ((reads_string h.senderPubkey).bind ((reads_string h.senderAddress).map (f := fun a =>
              ({ h with blockNumber := none, senderAddress := a } : BlockHeader))))))))))))))

theorem deserialize_serialize {h : BlockHeader} {raw : Blob} (hs : h.serialize = .ok raw.val) :
    deserialize raw = .ok (h.withNumber none) :=
  deserializeAll_of_reads (reads hs)

end BlockHeader

/-- A block: its header and its transactions. -/
structure BlockInfo where
  header : BlockHeader
  txs : List TransactionInfo
  deriving DecidableEq

instance : Inhabited BlockInfo := ⟨⟨default, []⟩⟩

namespace BlockInfo

/-- Names the file in the place of the block and in those of its transactions. -/
def applyFileNameRelative (bi : BlockInfo) (fileNameRelative : Blob) : BlockInfo :=
  { header := { bi.header with filePos := { bi.header.filePos with fileNameRelative } },
    txs := bi.txs.map (fun tx => { tx with filePos := { tx.filePos with fileNameRelative } }) }

/-- The transactions that sign the block itself. -/
def getBlockSignatures (bi : BlockInfo) : List TransactionInfo :=
  bi.txs.filter (fun tx => tx.isSignBlockTx)

/-- Keeps who sent the block, and the signature. -/
def saveSenderInfo (bi : BlockInfo) (senderSign senderPubkey senderAddress : Blob) : BlockInfo :=
  { bi with header := { bi.header with senderSign, senderPubkey, senderAddress } }

/-- Names the file in the place of the block. -/
def saveFilePath (bi : BlockInfo) (path : Blob) : BlockInfo :=
  { bi with header :=
      { bi.header with filePos := { bi.header.filePos with fileNameRelative := path } } }

end BlockInfo

end TorrentNode
