import Mathlib.Data.Prod.Lex
import TorrentNode.BlockSource.GetNewBlocks
import TorrentNode.Chain.Timeline
import TorrentNode.Sync.Process
import TorrentNode.Sync.SignedDump

/-!
# The source of new blocks (`NetworkBlockSource`)

Blocks come in batches. A batch is put together in a map, the sign blocks that the
servers name beside each block among them, parsed, and then handed over one entry a
call. The iterator into the map is what is left of the map from there on.
-/

namespace TorrentNode

/-- The variant that `parseNextBlockInfo` returns. -/
inductive NextBlockInfo where
  | monostate
  | block (bi : BlockInfo)
  | sign (bi : SignBlockInfo)
  | rejected

namespace NetworkBlockSource

/-- Where an entry belongs. -/
inductive BlockPos where
  | beforeBlock
  | block
  | afterBlock

/-- The order of the places: before the block, the block, behind it. -/
def BlockPos.index : BlockPos → Nat
  | beforeBlock => 0
  | block => 1
  | afterBlock => 2

theorem BlockPos.index_injective : Function.Injective BlockPos.index := by
  rintro (_ | _ | _) (_ | _ | _) h <;> simp [index] at h <;> rfl

instance : LinearOrder BlockPos := LinearOrder.lift' BlockPos.index BlockPos.index_injective

/-- `AdvancedBlock::Key`, in the order in which it is compared. -/
abbrev Key : Type := Nat ×ₗ BlockPos ×ₗ Blob

/-- `std::variant<BlockInfo, SignBlockInfo>`. -/
inductive ParsedBlock where
  | block (bi : BlockInfo)
  | sign (bi : SignBlockInfo)
  deriving DecidableEq

instance : Inhabited ParsedBlock := ⟨.block default⟩

/-- The hash of the block or sign block. -/
def ParsedBlock.hash : ParsedBlock → Blob
  | block bi => bi.header.hash
  | sign bi => bi.header.hash

/-- `AdvancedBlock`: a block or a sign block that was loaded and parsed. -/
structure AdvancedBlock where
  pos : BlockPos
  header : MinimumBlockHeader
  bi : ParsedBlock
  dump : Blob
  /-- What was thrown while the block was loaded or parsed. -/
  exception : Option Err
  deriving DecidableEq

namespace AdvancedBlock

/-- By number, then by the place around the block, then by hash. -/
def key (a : AdvancedBlock) : Key := toLex (a.header.number, toLex (a.pos, a.header.hash))

/-- A block of the chain. -/
def isBlock (a : AdvancedBlock) : Bool := a.pos = .block

end AdvancedBlock

/-- Sign blocks that belong behind the last block. -/
structure AfterBlocksAdditings where
  blockNumber : Nat
  file : Blob
  hashes : List Blob
  deriving DecidableEq

/-- A sign block that is to be loaded. -/
structure AdditingBlock where
  afterBlock : Bool
  number : Nat
  hash : Blob
  fileName : Blob
  deriving DecidableEq

/-- What does not change: the settings, the network, and the code that is called. -/
structure Env where
  net : Net
  isVerifySign : Bool
  isPreLoad : Bool
  scheme : SignatureScheme
  fromHex : Blob → Except Err Blob
  parseNextBlockInfo : Blob → Except Err NextBlockInfo
  /-- The number in a header that nobody has set. -/
  uninitialized : Nat → Nat

end NetworkBlockSource

open NetworkBlockSource in

/-- `NetworkBlockSource`: what is loaded, and how much of it was handed over. -/
structure NetworkBlockSource where
  getterBlocks : GetNewBlocksFromServer
  nextBlockToRead : Nat
  servers : List Blob
  lastBlockInBlockchain : Nat
  advancedBlocks : OrdMap Key AdvancedBlock
  /-- The entries from the iterator to the end of the map. -/
  currentProcessedBlock : List AdvancedBlock
  /-- `none` when it is cleared. -/
  afterBlocksAdditings : Option AfterBlocksAdditings
  lastFileName : Blob

namespace NetworkBlockSource

/-- How many blocks are loaded at a time. -/
def COUNT_ADVANCED_BLOCKS : Nat := 8

/-! ## Start -/

/-- The sign blocks behind the last block, when there are no new blocks. -/
def setAfterBlocksAdditings (s : NetworkBlockSource) (hashes : List Blob) : NetworkBlockSource :=
  if s.lastBlockInBlockchain = s.nextBlockToRead - 1 then
    { s with
      afterBlocksAdditings :=
        some { blockNumber := s.lastBlockInBlockchain, file := s.lastFileName, hashes } }
  else s

/-- `doProcess(countBlocks)`. -/
def doProcess (env : Env) (s : NetworkBlockSource) (countBlocks : Nat) :
    Except Err Nat × NetworkBlockSource :=
  let s := { s with
    nextBlockToRead := countBlocks + 1
    advancedBlocks := ∅
    getterBlocks := s.getterBlocks.clearAdvanced
    currentProcessedBlock := []
    afterBlocksAdditings := none }
  if env.isPreLoad then
    match s.getterBlocks.preLoadBlocks env.net countBlocks env.isVerifySign with
    | (.error e, g) => (.error e, { s with getterBlocks := g })
    | (.ok r, g) =>
      match r.lastBlock with
      | none => (.error (.exception r.error), { s with getterBlocks := g })
      | some lastBlock =>
        let s := { s with lastBlockInBlockchain := lastBlock, servers := r.servers }
        match g.addPreLoadBlocks env.net s.nextBlockToRead r.blockHeaders r.additionalBlockHashes
            r.blocksDumps with
        | (.error e, g) => (.error e, { s with getterBlocks := g })
        | (.ok hashes, g) =>
          (.ok lastBlock, setAfterBlocksAdditings { s with getterBlocks := g } hashes)
  else
    match s.getterBlocks.getLastBlock env.net with
    | (.error e, g) => (.error e, { s with getterBlocks := g })
    | (.ok r, g) =>
      match r.lastBlock with
      | none => (.error (.exception r.error), { s with getterBlocks := g })
      | some lastBlock =>
        let s := { s with
          getterBlocks := g, lastBlockInBlockchain := lastBlock, servers := r.servers }
        (.ok lastBlock, setAfterBlocksAdditings s (OrdSet.toList r.extraBlocks))

/-! ## A batch -/

/-- One round of the loop over the new blocks: what throws is kept in the entry. -/
def readAdvanced (env : Env) (s : NetworkBlockSource) (currBlock : Nat) :
    AdvancedBlock × GetNewBlocksFromServer :=
  match s.getterBlocks.getBlockHeader env.net currBlock s.lastBlockInBlockchain s.servers with
  | (.error e, g) =>
    ({ pos := .block, header := { (default : MinimumBlockHeader) with
         number := env.uninitialized g.asked }, bi := default, dump := ∅, exception := some e }, g)
  | (.ok header, g) =>
    match g.getBlockDump env.net header.hash header.blockSize true false s.servers
        env.isVerifySign with
    | (.error e, g) =>
      ({ pos := .block, header, bi := default, dump := ∅, exception := some e }, g)
    | (.ok dump, g) =>
      ({ pos := .block, header, bi := default, dump, exception := none }, g)

/-- Loads these blocks into the map, each with what was thrown over it. -/
def loadAdvanced (env : Env) : List Nat → NetworkBlockSource →
    Except Err Unit × NetworkBlockSource
  | [], s => (.ok (), s)
  | currBlock :: rest, s =>
    let (advanced, g) := readAdvanced env s currBlock
    -- only an exception is kept in the entry
    if advanced.exception = some .crash then (.error .crash, { s with getterBlocks := g })
    else if currBlock = advanced.header.number then
      loadAdvanced env rest { s with
        getterBlocks := g
        advancedBlocks := s.advancedBlocks.emplace advanced.key advanced }
    else (.error (.exception "Incorrect data"), { s with getterBlocks := g })

/-- The sign blocks that a header names. -/
def headerAdditings (header : MinimumBlockHeader) : List AdditingBlock :=
  (OrdSet.toList header.prevExtraBlocks).map
      (fun hash => ⟨false, header.number, hash, header.fileName⟩) ++
    (OrdSet.toList header.nextExtraBlocks).map
      (fun hash => ⟨true, header.number, hash, header.fileName⟩)

/-- The first half of a batch: its blocks of the chain, and the sign blocks it is to load. -/
def additings (env : Env) (s : NetworkBlockSource) :
    Except Err (List AdditingBlock) × NetworkBlockSource :=
  match s.afterBlocksAdditings with
  | none =>
    if s.lastBlockInBlockchain < s.nextBlockToRead then
      (.error (.exception "New blocks absent"), s)
    else
      let s := { s with advancedBlocks := ∅ }
      let countAdvanced :=
        min COUNT_ADVANCED_BLOCKS (s.lastBlockInBlockchain - s.nextBlockToRead + 1)
      if s.servers = [] then (.error (.exception "Servers empty"), s)
      else
        match loadAdvanced env (List.range' s.nextBlockToRead countAdvanced) s with
        | (.error e, s) => (.error e, s)
        | (.ok (), s) =>
          (.ok (s.advancedBlocks.entries.flatMap (fun e => headerAdditings e.2.header)), s)
  | some a =>
    if s.advancedBlocks.entries ≠ [] then (.error (.exception "Incorrect advanced blocks"), s)
    else
      (.ok (a.hashes.map (fun hash => ⟨true, a.blockNumber, hash, a.file⟩)),
        { s with afterBlocksAdditings := none })

/-- Leave out what has the same hash as an earlier one. -/
def withoutRepeats : List Blob → List AdditingBlock → List AdditingBlock
  | _, [] => []
  | existingHashs, block :: blocks =>
    if block.hash ∈ existingHashs then withoutRepeats existingHashs blocks
    else block :: withoutRepeats (block.hash :: existingHashs) blocks

/-- The entry of a sign block that is loaded. -/
def AdditingBlock.advanced (block : AdditingBlock) (dump : Blob) : AdvancedBlock where
  pos := if block.afterBlock then .afterBlock else .beforeBlock
  header := { (default : MinimumBlockHeader) with
    number := block.number, blockSize := dump.size, hash := block.hash
    fileName := block.fileName }
  bi := default
  dump := dump
  exception := none

/-- The last loop of `processAdditingBlocks`. -/
def loadAdditings (env : Env) : List AdditingBlock → NetworkBlockSource →
    Except Err Unit × NetworkBlockSource
  | [], s => (.ok (), s)
  | block :: blocks, s =>
    match s.getterBlocks.getBlockDump env.net block.hash 0 false true s.servers
        env.isVerifySign with
    | (.error e, g) => (.error e, { s with getterBlocks := g })
    | (.ok dump, g) =>
      loadAdditings env blocks { s with
        getterBlocks := g
        advancedBlocks := s.advancedBlocks.emplace (block.advanced dump).key (block.advanced dump) }

/-- Loads the sign blocks that the timeline does not have yet. -/
def processAdditingBlocks (env : Env) (timeline : BlocksTimeline)
    (additingBlocks : List AdditingBlock) (s : NetworkBlockSource) :
    Except Err Unit × NetworkBlockSource :=
  match timeline.filter (fun block => env.fromHex block.hash)
      (withoutRepeats [] additingBlocks) with
  | .error e => (.error e, s)
  | .ok blocks => loadAdditings env blocks s

/-- What the visitor makes of a block that is parsed. -/
def visitParsed (hashBlockForRequest basename : Blob) (signBlock : Option BlockSignatureCheckResult) :
    NextBlockInfo → Except Err ParsedBlock
  | .block bi => do
    check (bi.header.hash == hashBlockForRequest) "Incorrect block dump"
    let bi := bi.saveFilePath basename
    pure (.block (match signBlock with
      | some r => bi.saveSenderInfo r.sign r.pubkey r.address
      | none => bi))
  | .sign bi => do
    check (bi.header.hash == hashBlockForRequest) "Incorrect block dump"
    let bi := bi.saveFilePath basename
    pure (.sign (match signBlock with
      | some r => bi.saveSenderInfo r.sign r.pubkey r.address
      | none => bi))
  | _ => .error (.exception "Incorrect block type")

/-- The body of `parseBlockInfo` behind the signature: the dump is the bare one here. -/
def parseDump (env : Env) (header : MinimumBlockHeader) (dump : Blob)
    (signBlock : Option BlockSignatureCheckResult) : Except Err ParsedBlock := do
  check (dump.size == header.blockSize) "binaryDump.size() == nextBlockHeader.blockSize"
  let hashBlockForRequest ← env.fromHex header.hash
  let tmp ← env.parseNextBlockInfo dump
  let basename ← Blob.ofBytes (Batch.getBasename header.fileName.val)
  visitParsed hashBlockForRequest basename signBlock tmp

/-- `parseBlockInfo` at one entry. -/
def parseAdvanced (env : Env) (advanced : AdvancedBlock) : AdvancedBlock :=
  if advanced.exception.isSome then advanced
  else
    match (if env.isVerifySign then (env.scheme.checkSignatureBlock advanced.dump).map some
        else .ok none) with
    | .error e => { advanced with exception := some e }
    | .ok signBlock =>
      let dump := (signBlock.map BlockSignatureCheckResult.block).getD advanced.dump
      match parseDump env advanced.header dump signBlock with
      | .error e => { advanced with dump, exception := some e }
      | .ok bi => { advanced with dump, bi }

/-- Parses all that was loaded and begins to hand it over. -/
def parseBlockInfo (env : Env) (s : NetworkBlockSource) : NetworkBlockSource :=
  let advancedBlocks := s.advancedBlocks.mapValues (parseAdvanced env)
  { s with advancedBlocks, currentProcessedBlock := advancedBlocks.entries.map Prod.snd }

/-- A new batch. -/
def nextBatch (env : Env) (timeline : BlocksTimeline) (s : NetworkBlockSource) :
    Except Err Unit × NetworkBlockSource :=
  match s.additings env with
  | (.error e, s) => (.error e, s)
  | (.ok additingBlocks, s) =>
    match processAdditingBlocks env timeline additingBlocks s with
    | (.error e, s) => (.error e, s)
    | (.ok (), s) => (.ok (), s.parseBlockInfo env)

/-! ## Delivery -/

/-- `processAdvanced`: hand over the entry at the iterator, or throw what it keeps. -/
def processAdvanced (advanced : AdvancedBlock) (rest : List AdvancedBlock)
    (s : NetworkBlockSource) : Except Err (Option AdvancedBlock) × NetworkBlockSource :=
  match advanced.exception with
  | some e => (.error e, s)
  | none =>
    (.ok (some advanced), { s with
      lastFileName := advanced.header.fileName
      currentProcessedBlock := rest
      nextBlockToRead := if advanced.isBlock then s.nextBlockToRead + 1 else s.nextBlockToRead })

/-- `process`: the entry whose `bi` and `dump` are handed over, or none when it returns false. -/
def process (env : Env) (timeline : BlocksTimeline) (s : NetworkBlockSource) :
    Except Err (Option AdvancedBlock) × NetworkBlockSource :=
  match s.currentProcessedBlock with
  | advanced :: rest => s.processAdvanced advanced rest
  | [] =>
    if s.afterBlocksAdditings.isNone ∧ s.lastBlockInBlockchain < s.nextBlockToRead then
      (.ok none, s)
    else
      match s.nextBatch env timeline with
      | (.error e, s) => (.error e, s)
      | (.ok (), s) =>
        match s.currentProcessedBlock with
        | advanced :: rest => s.processAdvanced advanced rest
        | [] => (.ok none, s)

end NetworkBlockSource

end TorrentNode
