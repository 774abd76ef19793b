import TorrentNode.Chain.BlockChain
import TorrentNode.Chain.Timeline
import TorrentNode.Storage.LevelDb
import TorrentNode.Workers.Common

/-!
# The synchronisation loop (`SyncImpl::process`)

One round of the loop takes the next block from its source, appends it to a
block file, puts it on the chain and the timeline, hands it to the workers and
only then writes its header. A round that throws is logged and the loop goes on
with what the round had changed by then, so a round returns its state as well.
-/

namespace TorrentNode

/-! ## Block headers in the database -/

/-- The last block that was saved. -/
def KEY_BLOCK_METADATA : Bytes := ascii "?block_meta".toList

/-- The headers of blocks. -/
def BLOCK_PREFIX : String := "b_"

/-- The headers of sign blocks. -/
def SIGNS_BLOCK_NUMBER_PREFIX : String := "signs_"

/-- The elements of the timeline. -/
def BLOCKS_TIMELINE_PREFIX : String := "timeline_"

/-- How far the files have been read. -/
def FILE_PREFIX : String := "f_"

namespace Batch

/-- The header of a block. -/
def addBlockHeader (b : Batch) (blockHash : Blob) (value : BlockHeader) : Except Err Batch := do
  let key ← makeKey [.lit BLOCK_PREFIX, .str blockHash]
  b.addKey key value.serialize false

/-- The header of a sign block. -/
def addSignBlockHeader (b : Batch) (blockHash : Blob) (value : SignBlockHeader) :
    Except Err Batch := do
  let key ← makeKey [.lit SIGNS_BLOCK_NUMBER_PREFIX, .str blockHash]
  b.addKey key value.serialize false

/-- The last block that was saved. -/
def addBlockMetadata (b : Batch) (value : BlocksMetadata) : Except Err Batch :=
  b.addKey KEY_BLOCK_METADATA value.serialize false

/-- An element of the timeline, which is not checked. -/
def saveBlockTimeline (b : Batch) (key : UInt64) (data : Blob) : Except Err Batch := do
  let key ← makeKey [.lit BLOCKS_TIMELINE_PREFIX, .int key]
  pure (b.addKeyInternal key data false)

/-- `getBasename(path)`: what stands behind the last slash. -/
def getBasename (path : Bytes) : Bytes := (path.reverse.takeWhile (fun c => c ≠ 47)).reverse

/-- `addFileMetadata(CroppedFileName(fileName), value)`, a `FileInfo` being a `FilePosition`. -/
def addFileMetadata (b : Batch) (value : FilePosition) : Except Err Batch := do
  let name ← Blob.ofBytes (getBasename value.fileNameRelative.val)
  let key ← makeKey [.lit FILE_PREFIX, .str name]
  b.addKey key value.serialize false

end Batch

namespace LevelDb

/-- The last block that was saved; empty hashes if none was. -/
def findBlockMetadata (db : LevelDb) : Except Err BlocksMetadata :=
  db.findOneValueWithoutCheckValue BlocksMetadata.deserialize KEY_BLOCK_METADATA

/-- `getAllBlocks()`; a `std::set` of the values, so in their order and each once. -/
def getAllBlocks (db : LevelDb) : Except Err (List Blob) := do
  let res ← db.findKeyInternal (ascii "b_".toList) (ascii "b`".toList) 0 0 (fun e => .ok e.2)
  pure ((res.foldl (fun (m : OrdMap Blob Unit) v => m.insert v ()) ∅).entries.map Prod.fst)

end LevelDb

/-! ## The state of the loop -/

/-- What `SyncImpl` holds for `process`, and the stores it writes to. -/
structure SyncImpl where
  modules : Modules
  isSaveBlockToFiles : Bool
  blockchain : BlockChain
  timeline : BlocksTimeline
  leveldb : LevelDb
  /-- The block files by name. -/
  files : OrdMap Blob Bytes
  /-- What was handed to the workers, in order. -/
  delivered : List BlockInfo
  deriving DecidableEq

namespace SyncImpl

/-- `saveBlockToFileBinary(fileName, data)`: the size in the machine's byte order and the data
go behind what the file holds; returns where that was. -/
def saveBlockToFileBinary (files : OrdMap Blob Bytes) (fileName data : Blob) :
    UInt64 × OrdMap Blob Bytes :=
  let old := (files.find? fileName).getD []
  let blockSizeStr := (serializeInt 8 data.size).reverse
  (UInt64.ofNat old.length, files.insert fileName (old ++ blockSizeStr ++ data.val))

/-- `saveTransactions`: appends the dump to its file, and the block has its place there. -/
def saveTransactions (s : SyncImpl) (bi : BlockInfo) (binaryDump : Blob) (saveBlockToFile : Bool) :
    Except Err (BlockInfo × SyncImpl) :=
  if !saveBlockToFile then .ok (bi, s)
  else
    let fileName := bi.header.filePos.fileNameRelative
    if fileName.isEmpty then .error (.exception "File name not set")
    else
      let (currPos, files) := saveBlockToFileBinary s.files fileName binaryDump
      .ok ({ header := { bi.header with filePos := { bi.header.filePos with pos := currPos } }
             txs := bi.txs.map (fun tx =>
               { tx with
                 filePos := { fileNameRelative := fileName, pos := tx.filePos.pos + currPos } }) },
        { s with files })

/-- The metadata that `saveBlockToLeveldb` writes: of two blocks with one parent, the smaller
hash stays. -/
def nextMetadata (metadata : BlocksMetadata) (bh : BlockHeader) : BlocksMetadata :=
  { prevBlockHash := bh.prevHash
    blockHash :=
      if metadata.prevBlockHash = bh.prevHash then
        if metadata.blockHash < bh.hash then metadata.blockHash else bh.hash
      else bh.hash }

/-- The batch of `saveBlockToLeveldb(bi, timeLineKey, timelineElement)`. -/
def blockBatch (s : SyncImpl) (bh : BlockHeader) (timeLineKey : UInt64) (timelineElement : Blob) :
    Except Err Batch := do
  let batch ← if s.modules.block then Batch.new.addBlockHeader bh.hash bh else pure Batch.new
  let metadata ← s.leveldb.findBlockMetadata
  let batch ← batch.addBlockMetadata (nextMetadata metadata bh)
  batch.saveBlockTimeline timeLineKey timelineElement

/-- The batch of `saveSignBlockToLeveldb(bi, timeLineKey, timelineElement)`. -/
def signBlockBatch (s : SyncImpl) (bh : SignBlockHeader) (timeLineKey : UInt64)
    (timelineElement : Blob) : Except Err Batch := do
  let batch ← if s.modules.block then Batch.new.addSignBlockHeader bh.hash bh else pure Batch.new
  batch.saveBlockTimeline timeLineKey timelineElement

/-- Write a batch, or keep the exception that making it ended with. -/
def commit (s : SyncImpl) : Except Err Batch → Except Err Unit × SyncImpl
  | .error e => (.error e, s)
  | .ok batch => (.ok (), { s with leveldb := addBatch batch s.leveldb })

/-- `gba->confirmBlock(filepos)`: only the file source writes. -/
def confirmBlock (s : SyncImpl) (fromFile : Bool) (filepos : Except Err FilePosition) :
    Except Err Unit × SyncImpl :=
  match filepos with
  | .error e => (.error e, s)
  | .ok filepos =>
    if fromFile then s.commit (Batch.new.addFileMetadata filepos) else (.ok (), s)

/-- The `FileInfo` of a block's end. -/
def endOfBlock (filePos : FilePosition) (endBlockPos : Except Err UInt64) :
    Except Err FilePosition :=
  endBlockPos.map (fun pos => { filePos with pos })

/-- Where `gba` points. -/
structure Source where
  /-- It is a `FileBlockSource`. -/
  isFile : Bool
  isNoDefaultSource : Bool
  deriving DecidableEq

/-- A round with a block that `addBlock` gave a number, from there on. -/
def acceptBlock (s : SyncImpl) (src : Source) (bi : BlockInfo) (currentBlockNum : Nat) :
    Except Err Unit × SyncImpl :=
  if currentBlockNum = 0 then (.error (.exception "Incorrect block number"), s)
  else
    let bi : BlockInfo :=
      { header := bi.header.withNumber (some currentBlockNum)
        txs := bi.txs.map (fun tx => { tx with blockNumber := UInt64.ofNat currentBlockNum }) }
    match s.timeline.addSimpleBlock bi.header with
    | (.error e, timeline) => (.error e, { s with timeline })
    | (.ok (timelineKey, timelineElement), timeline) =>
      -- the workers have the block before its header is written
      let s := { s with timeline, delivered := s.delivered ++ [bi] }
      match s.commit (s.blockBatch bi.header timelineKey timelineElement) with
      | (.error e, s) => (.error e, s)
      | (.ok (), s) => s.confirmBlock src.isFile (endOfBlock bi.header.filePos bi.header.endBlockPos)

/--
A round of `process` with a block of the chain. `findCommonAncestor` asks other
servers and changes nothing here; it finds a conflict, or none, or throws. The
round hands a conflict to its caller.
-/
def processBlock {γ : Type} (findCommonAncestor : BlockChain → Except Err (Option γ))
    (s : SyncImpl) (src : Source) (bi : BlockInfo) (dump : Blob) :
    Except Err (Option γ) × SyncImpl :=
  match s.saveTransactions bi dump (s.isSaveBlockToFiles && !src.isNoDefaultSource) with
  | .error e => (.error e, s)
  | .ok (bi, s) =>
    match s.blockchain.addBlock bi.header with
    | (.error e, blockchain) => (.error e, { s with blockchain })
    | (.ok none, blockchain) =>
      let s := { s with blockchain }
      match findCommonAncestor blockchain with
      | .error e => (.error e, s)
      | .ok none => (.error (.exception "False alarm"), s)
      | .ok (some conflict) => (.ok (some conflict), s)
    | (.ok (some currentBlockNum), blockchain) =>
      match acceptBlock { s with blockchain } src bi currentBlockNum with
      | (.error e, s) => (.error e, s)
      | (.ok (), s) => (.ok none, s)

/-- A round of `process` with a signature block. -/
def processSignBlock (s : SyncImpl) (src : Source) (bi : SignBlockInfo) (dump : Blob) :
    Except Err Unit × SyncImpl :=
  let placed : Except Err (SignBlockInfo × SyncImpl) :=
    if !(s.isSaveBlockToFiles && !src.isNoDefaultSource) then .ok (bi, s)
    else
      let fileName := bi.header.filePos.fileNameRelative
      if fileName.isEmpty then .error (.exception "File name not set")
      else
        let (currPos, files) := saveBlockToFileBinary s.files fileName dump
        .ok ({ bi with
               header := { bi.header with filePos := { bi.header.filePos with pos := currPos } } },
          { s with files })
  match placed with
  | .error e => (.error e, s)
  | .ok (bi, s) =>
    match s.timeline.addSignBlock bi.header with
    | (.error e, timeline) => (.error e, { s with timeline })
    | (.ok (timelineKey, timelineElement), timeline) =>
      let s := { s with timeline }
      match s.commit (s.signBlockBatch bi.header timelineKey timelineElement) with
      | (.error e, s) => (.error e, s)
      | (.ok (), s) => s.confirmBlock src.isFile (endOfBlock bi.header.filePos bi.header.endBlockPos)

end SyncImpl

end TorrentNode
