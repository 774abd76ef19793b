import Mathlib.Data.Prod.Lex
import TorrentNode.Lib.OrdSet
import TorrentNode.Lib.Ranked
import TorrentNode.Parsing.Block

/-!
# Rejected blocks (`NetworkRejectedBlockSource`, `RejectedTxsWorker`)

Once a second the worker asks a server for the last rejected blocks. The source keeps
the blocks it knows, and the worker remembers which ones were the last of them. It
appends the transactions of the others to the history of rejections.
-/

namespace TorrentNode

open CursorReader

/-! ## Parsing -/

/-- The header of a block of rejected transactions. -/
structure RejectedTxsBlockHeader where
  blockSize : UInt64
  timestamp : UInt64
  filePos : FilePosition
  hash : Blob
  prevHash : Blob
  txsSign : Blob
  txsPubkey : Blob
  deriving DecidableEq

/-- A block of rejected transactions. -/
structure RejectedTxsBlockInfo where
  header : RejectedTxsBlockHeader
  txs : List RejectedTransactionInfo
  deriving DecidableEq

/-- The header behind the size, whose type is checked. -/
def readRejectedTxsBlockHeaderWithoutSize : Deserializer RejectedTxsBlockHeader := do
  let blockType ← readInt 8
  lift (check (blockType == REJECTED_TXS_BLOCK_TYPE) "Incorrect block type")
  let timestamp ← readInt 8
  let prevHash ← readBytes 32
  let txsSign ← readCounted
  let txsPubkey ← readCounted
  pure { blockSize := 0, timestamp, filePos := default, hash := ∅, prevHash, txsSign, txsPubkey }

/-- The loop of `readRejectedTxs`. -/
def readRejectedTxs : Nat → List RejectedTransactionInfo →
    Deserializer (List RejectedTransactionInfo)
  | 0, _ => fail (.std "endless")
  | fuel + 1, txs => do
    let (isInitialized, tx_size, txInfo) ← readRedjectedTransactionInfo ⟨∅, 0⟩
    let txs := if isInitialized then txs ++ [txInfo] else txs
    if tx_size = 0 then pure txs else readRejectedTxs fuel txs

/-- A block of rejected transactions, header and transactions. -/
def parseRejectedTxsBlockInfo (env : ParseEnv) (posInFile : UInt64) (raw : Blob) :
    Except Err RejectedTxsBlockInfo := do
  let (header, txs_pos) ← readRejectedTxsBlockHeaderWithoutSize.runFrom raw.val 0
  let (txs, _) ← (readRejectedTxs (raw.size + 1) []).runFrom raw.val txs_pos
  pure { header :=
           { header with
             hash := env.get_double_sha256 raw.val
             blockSize := UInt64.ofNat raw.size
             filePos := { header.filePos with pos := posInFile } },
         txs }

/-! ## The source -/

/-- What a server announces. -/
structure RejectedBlockMessage where
  hash : Blob
  blockNumber : UInt64
  timestamp : UInt64
  deriving DecidableEq

/-- What is handed to the worker. -/
structure RejectedBlockResult where
  hash : Blob
  blockNumber : UInt64
  timestamp : UInt64
  deriving DecidableEq

/-- A block with its number. -/
structure RejectedBlock where
  block : RejectedTxsBlockInfo
  blockNumber : UInt64
  deriving DecidableEq

/-- The hash of the block. -/
def RejectedBlock.hash (b : RejectedBlock) : Blob := b.block.header.hash

/-- What the container holds. -/
structure BlockHolder where
  dump : Blob
  info : RejectedTxsBlockInfo
  number : UInt64
  deriving DecidableEq

namespace BlockHolder

/-- The hash, by which blocks are found. -/
def hash (b : BlockHolder) : Blob := b.info.header.hash

/-- The time that it tells. -/
def timestamp (b : BlockHolder) : UInt64 := b.info.header.timestamp

/-- The key of `SequenceTag`. -/
def sequence (b : BlockHolder) : UInt64 ×ₗ UInt64 := toLex (b.number, b.timestamp)

end BlockHolder

/-- The blocks in the order of the index `SequenceTag`; the index `HashTag` is a search. -/
abbrev BlocksContainer : Type := Ranked BlockHolder.sequence

/-- `find(hash)` in the index `HashTag`. -/
def BlocksContainer.findHash (blocks : BlocksContainer) (hash : Blob) : Option BlockHolder :=
  blocks.list.find? (fun b => b.hash = hash)

/-- More are not kept. -/
def MAXIMUM_REJECTED_BLOCKS : Nat := 1000

/-- What the servers answer: the last blocks, and the dumps for some hashes. -/
structure RejectedAnswers where
  getLastRejectedBlocks : Except Err (List RejectedBlockMessage)
  getRejectedBlocksDumps : List Blob → Except Err (List Blob)

/-- `NetworkRejectedBlockSource`: the blocks that are kept. -/
structure NetworkRejectedBlockSource where
  blocks : BlocksContainer

namespace NetworkRejectedBlockSource

/-- The headers that are not in the container, with their indices. -/
def getMissingBlocks (s : NetworkRejectedBlockSource) (headers : List RejectedBlockMessage) :
    List Blob × List Nat :=
  let missing := headers.zipIdx.filter (fun h => (s.blocks.findHash h.1.hash).isNone)
  (missing.map (fun h => h.1.hash), missing.map Prod.snd)

/-- A round of the loop of `parseBlocks`; nothing where there is no dump. -/
def parseBlock (env : ParseEnv) (headers : List RejectedBlockMessage) (index : Nat) (dump : Blob) :
    Except Err (Option BlockHolder) :=
  match headers[index]? with
  | none => .error (.std "out_of_range")
  | some blockHeader =>
    if dump.isEmpty then .ok none else do
      let info ← parseRejectedTxsBlockInfo env 0 dump
      check (info.header.hash == blockHeader.hash && info.header.timestamp == blockHeader.timestamp)
        "Incorrect parsed block"
      pure (some { dump, info, number := blockHeader.blockNumber })

/-- Parses the dumps, as many as were asked for; what cannot be parsed is left out. -/
def parseBlocks (env : ParseEnv) (headers : List RejectedBlockMessage) (blockDumps : List Blob)
    (missingIndices : List Nat) : Except Err (List BlockHolder) := do
  check (blockDumps.length == missingIndices.length) "Incorrect block dumps"
  let holders ← (missingIndices.zip blockDumps).mapM (fun e => parseBlock env headers e.1 e.2)
  pure holders.reduceOption

/-- Keeps the new blocks, and no more than the bound in all. -/
def addNewBlocks (s : NetworkRejectedBlockSource) (holders : List BlockHolder) :
    NetworkRejectedBlockSource :=
  { s with blocks := (holders.foldl Ranked.insert s.blocks).bounded MAXIMUM_REJECTED_BLOCKS }

/-- The last so many, in the order of their numbers and times. -/
def getLastBlocks (s : NetworkRejectedBlockSource) (count : Nat) : List RejectedBlockResult :=
  (s.blocks.last count).map (fun holder =>
    { hash := holder.hash, blockNumber := holder.number, timestamp := holder.timestamp })

/-- The blocks of an answer that the source does not have. -/
def newBlocks (env : ParseEnv) (answers : RejectedAnswers) (s : NetworkRejectedBlockSource) :
    Except Err (List BlockHolder) := do
  let blockHeaders ← answers.getLastRejectedBlocks
  let (missingHashes, missingIndices) := s.getMissingBlocks blockHeaders
  check (missingHashes.length == missingIndices.length) "Incorrect missing blocks"
  let blockDumps ← answers.getRejectedBlocksDumps missingHashes
  parseBlocks env blockHeaders blockDumps missingIndices

/-- `calcLastBlocks`: asks for what is missing and returns the last blocks. -/
def calcLastBlocks (env : ParseEnv) (answers : RejectedAnswers) (count : Nat)
    (s : NetworkRejectedBlockSource) :
    Except Err (List RejectedBlockResult) × NetworkRejectedBlockSource :=
  match s.newBlocks env answers with
  | .error e => (.error e, s)
  | .ok holders => (.ok ((s.addNewBlocks holders).getLastBlocks count), s.addNewBlocks holders)

/-- `getBlocks`: the blocks with these hashes, as far as they are kept. -/
def getBlocks (s : NetworkRejectedBlockSource) (hashes : List Blob) : List RejectedBlock :=
  hashes.filterMap (fun hash =>
    (s.blocks.findHash hash).map (fun b => { block := b.info, blockNumber := b.number }))

end NetworkRejectedBlockSource

/-! ## The worker -/

/-- `RejectedTransactionHistory::Element` -/
structure RejectedElement where
  blockNumber : UInt64
  timestamp : UInt64
  errorCode : UInt64
  deriving DecidableEq

/-- What is known of a rejected transaction. -/
structure HistoryElement where
  hash : Blob
  history : List RejectedElement
  lastUpdateTime : Nat
  deriving DecidableEq

/-- More is not kept of a transaction. -/
def MAX_HISTORY_SIZE : Nat := 10

/-- Fifteen minutes, in seconds as all times here. -/
def LAST_TIME_LIFE_RECORD : Nat := 15 * 60

/-- `RejectedTxsWorker`: the history, and what was there in the last round. -/
structure RejectedTxsWorker where
  blockSource : NetworkRejectedBlockSource
  currentRejectedBlocks : OrdSet Bytes
  history : OrdMap Bytes HistoryElement

namespace RejectedTxsWorker

/-- Nothing was announced yet. -/
def new : RejectedTxsWorker := { blockSource := ⟨∅⟩, currentRejectedBlocks := ∅, history := ∅ }

/-- Those that were not there in the last round. -/
def filterNewBlocks (w : RejectedTxsWorker) (blocks : List RejectedBlockResult) :
    List RejectedBlockResult :=
  blocks.filter (fun block => (w.currentRejectedBlocks.find? block.hash.val).isNone)

/-- A transaction was rejected once more; of too many times the first are forgotten. -/
def addHistory (now : Nat) (blockNumber timestamp : UInt64) (history : OrdMap Bytes HistoryElement)
    (txInfo : RejectedTransactionInfo) : OrdMap Bytes HistoryElement :=
  let element := (history.find? txInfo.hash.val).getD
    { hash := txInfo.hash, history := [], lastUpdateTime := now }
  let elements := element.history ++ [{ blockNumber, timestamp, errorCode := txInfo.error }]
  history.insert txInfo.hash.val
    { element with
      lastUpdateTime := now
      history := if MAX_HISTORY_SIZE < elements.length then elements.tail else elements }

/-- What `processBlocks` does with a block. -/
def addBlock (now : Nat) (history : OrdMap Bytes HistoryElement) (block : RejectedBlock) :
    OrdMap Bytes HistoryElement :=
  block.block.txs.foldl (addHistory now block.blockNumber block.block.header.timestamp) history

/-- Keeps the transactions of the new blocks, and what is there now. -/
def processBlocks (now : Nat) (blocks : List RejectedBlock) (allHashes : List Blob)
    (w : RejectedTxsWorker) : RejectedTxsWorker :=
  { w with
    history := blocks.foldl (addBlock now) w.history
    currentRejectedBlocks := OrdSet.ofList (allHashes.map Subtype.val) }

/-- Forgets transactions that were not rejected for a long time. -/
def clearOldHistory (now : Nat) (w : RejectedTxsWorker) : RejectedTxsWorker :=
  let old := w.history.entries.filter (fun e => LAST_TIME_LIFE_RECORD ≤ now - e.2.lastUpdateTime)
  { w with history := old.foldl (fun history e => history.erase e.1) w.history }

/-- What comes from outside in a round of the loop. -/
structure Round where
  answers : RejectedAnswers
  /-- The time of `processBlocks`, and of `clearOldHistory`. -/
  processed : Nat
  cleared : Nat

/-- A round of the loop of `worker`: the blocks whose transactions it appends to the history. An
exception ends the loop. -/
def round (env : ParseEnv) (r : Round) (w : RejectedTxsWorker) :
    Except Err (List RejectedBlock) × RejectedTxsWorker :=
  match w.blockSource.calcLastBlocks env r.answers 100 with
  | (.error e, blockSource) => (.error e, { w with blockSource })
  | (.ok lastBlocks, blockSource) =>
    let newLastBlocks := w.filterNewBlocks lastBlocks
    let hashes := lastBlocks.map (fun b => b.hash)
    let newHashes := newLastBlocks.map (fun b => b.hash)
    let blocks := blockSource.getBlocks newHashes
    (.ok blocks, (({ w with blockSource }).processBlocks r.processed blocks hashes).clearOldHistory
      r.cleared)

end RejectedTxsWorker

end TorrentNode
