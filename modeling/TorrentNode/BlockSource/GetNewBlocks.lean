import TorrentNode.Base
import TorrentNode.Lib.OrdSet

/-!
# Blocks from other servers (`GetNewBlocksFromServer`)

Headers and dumps are asked for in parts and many at a time, and kept until they
are needed. The network is whatever it answers: two requests for the same thing
need not get the same answer, so each request has a number.
-/

namespace TorrentNode

/-- `MinimumBlockHeader`: what a server tells of a block. -/
structure MinimumBlockHeader where
  number : Nat
  blockSize : Nat
  /-- In hexadecimal, as all hashes in a message. -/
  hash : Blob
  parentHash : Blob
  fileName : Blob
  prevExtraBlocks : OrdSet Blob
  nextExtraBlocks : OrdSet Blob
  deriving DecidableEq

instance : Inhabited MinimumBlockHeader := ⟨⟨0, 0, ∅, ∅, ∅, ∅, ∅⟩⟩

/-- An answer to `pre-load`, taken into its parts. -/
structure PreloadBlocksResponse where
  error : Option String
  countBlocks : Nat
  blockHeaders : Blob
  additingBlocksHashes : Blob
  blockDumps : Blob
  deriving DecidableEq

/-- The parsers of the answers (`get_new_blocks_messages.cpp`). -/
structure Messages where
  parseCountBlocksMessage : Blob → Except Err (Nat × OrdSet Blob)
  parsePreloadBlocksMessage : Blob → Except Err PreloadBlocksResponse
  parseBlockHeader : Blob → Except Err MinimumBlockHeader
  parseBlocksHeader : Blob → Except Err (List MinimumBlockHeader)
  parseAdditionalBlockHashes : Blob → Except Err (List Blob)
  parseDumpBlockBinary : Blob → Bool → Except Err Blob
  parseDumpBlocksBinary : Blob → Bool → Except Err (List Blob)

/-- What comes of a `broadcast`. -/
structure Broadcast where
  /-- What each server answers, as the callbacks come. -/
  answers : List (Blob × Except String Blob)
  /-- What is thrown behind the callbacks: `checkStopSignal` throws, and so does `P2P_Graph` when
  no server is left. -/
  thrown : Option Err

/-- The network: what is answered to the request of a number. -/
structure P2P where
  /-- `broadcast` of `get-count-blocks`. -/
  countBlocks : Nat → Broadcast
  /-- `broadcast` of `pre-load` for a height, signed or not. -/
  preLoad : Nat → Nat → Bool → Broadcast
  /-- `requests` for headers: the first block and the number of blocks of each part. -/
  headers : Nat → List (Nat × Nat) → List Blob → Except Err (List Blob)
  /-- `requests` for dumps: the hashes of each part, signed or not. -/
  dumps : Nat → List (List Blob) → Bool → List Blob → Except Err (List Blob)
  /-- `request` for one dump of about this size. -/
  dump : Nat → Blob → Nat → Bool → Bool → List Blob → Except Err Blob
  /-- `requests` for one dump of unknown size. -/
  wholeDump : Nat → Blob → Bool → List Blob → Except Err Blob

/-- What holds for all the requests. -/
structure Net where
  messages : Messages
  p2p : P2P

/-- `GetNewBlocksFromServer`: what was loaded in advance. -/
structure GetNewBlocksFromServer where
  maxAdvancedLoadBlocks : Nat
  countBlocksInBatch : Nat
  isCompress : Bool
  advancedLoadsBlocksHeaders : List (Nat × MinimumBlockHeader)
  advancedLoadsBlocksDumps : OrdMap Blob Blob
  /-- How many requests there were. -/
  asked : Nat
  deriving DecidableEq

namespace GetNewBlocksFromServer

/-- What is added to the size of a dump that is asked for with its signature. -/
def ESTIMATE_SIZE_SIGNATURE : Nat := 250

/-- Bigger blocks are not loaded in advance. -/
def MAX_BLOCK_SIZE_WITHOUT_ADVANCE : Nat := 100 * 1000

/-- The next request has the next number. -/
def ask (g : GetNewBlocksFromServer) : GetNewBlocksFromServer := { g with asked := g.asked + 1 }

/-! ## The last block -/

/-- The callbacks of a `broadcast`, one after the other, and what it throws then. -/
def runCallbacks {ρ : Type} (callback : ρ → Blob × Except String Blob → Except Err ρ)
    (b : Broadcast) (r : ρ) : Except Err ρ :=
  match b.answers.foldlM callback r with
  | .error e => .error e
  | .ok r =>
    match b.thrown with
    | some e => .error e
    | none => .ok r

/-- The vote on the last block so far. -/
structure LastBlockResponse where
  servers : List Blob
  lastBlock : Option Nat
  extraBlocks : OrdSet Blob
  error : String
  deriving DecidableEq

/-- What the callback of `getLastBlock` does with a report. -/
def keepReport (r : LastBlockResponse) (server : Blob) (countBlocks : Nat)
    (extraBlocks : OrdSet Blob) : LastBlockResponse :=
  let lastBlock := r.lastBlock.getD 0
  if lastBlock < countBlocks then
    { r with lastBlock := some countBlocks, servers := [server], extraBlocks }
  else if lastBlock = countBlocks then
    { r with
      lastBlock := some lastBlock
      servers := r.servers ++ [server]
      extraBlocks := (OrdSet.toList extraBlocks).foldl (fun s k => OrdMap.insert s k ())
        r.extraBlocks }
  else { r with lastBlock := some lastBlock }

/-- The callback of `getLastBlock`, which catches the program's own exceptions. -/
def lastBlockCallback (net : Net) (r : LastBlockResponse) (answer : Blob × Except String Blob) :
    Except Err LastBlockResponse :=
  match answer.2 with
  | .error e => .ok { r with error := e }
  | .ok result =>
    match net.messages.parseCountBlocksMessage result with
    | .error (.exception msg) => .ok { r with error := msg }
    | .error e => .error e
    | .ok (countBlocks, extraBlocks) => .ok (keepReport r answer.1 countBlocks extraBlocks)

/-- `getLastBlock()`: the highest block that a server has, and the servers that have it. -/
def getLastBlock (net : Net) (g : GetNewBlocksFromServer) :
    Except Err LastBlockResponse × GetNewBlocksFromServer :=
  (runCallbacks (lastBlockCallback net) (net.p2p.countBlocks g.asked)
    { servers := [], lastBlock := none, extraBlocks := ∅, error := "" }, g.ask)

/-- The vote of the answers to `pre-load` so far. -/
structure LastBlockPreLoadResponse where
  servers : List Blob
  lastBlock : Option Nat
  error : String
  blockHeaders : Blob
  additionalBlockHashes : Blob
  blocksDumps : Blob
  deriving DecidableEq

/-- What the callback of `preLoadBlocks` does with an answer that is parsed. -/
def keepPreload (r : LastBlockPreLoadResponse) (server : Blob) (response : PreloadBlocksResponse) :
    LastBlockPreLoadResponse :=
  match response.error with
  | some e => { r with error := e }
  | none =>
    let lastBlock := r.lastBlock.getD 0
    if lastBlock < response.countBlocks then
      { r with
        lastBlock := some response.countBlocks
        servers := [server]
        blockHeaders := response.blockHeaders
        additionalBlockHashes := response.additingBlocksHashes
        blocksDumps := response.blockDumps }
    else if lastBlock = response.countBlocks then
      { r with lastBlock := some lastBlock, servers := r.servers ++ [server] }
    else { r with lastBlock := some lastBlock }

/-- The callback of `preLoadBlocks`, which catches the program's own exceptions. -/
def preLoadCallback (net : Net) (r : LastBlockPreLoadResponse)
    (answer : Blob × Except String Blob) : Except Err LastBlockPreLoadResponse :=
  match answer.2 with
  | .error e => .ok { r with error := e }
  | .ok result =>
    match net.messages.parsePreloadBlocksMessage result with
    | .error (.exception msg) => .ok { r with error := msg }
    | .error e => .error e
    | .ok response => .ok (keepPreload r answer.1 response)

/-- `preLoadBlocks`: the vote on the last block, with the blocks of an answer. -/
def preLoadBlocks (net : Net) (g : GetNewBlocksFromServer) (currentBlock : Nat) (isSign : Bool) :
    Except Err LastBlockPreLoadResponse × GetNewBlocksFromServer :=
  (runCallbacks (preLoadCallback net) (net.p2p.preLoad g.asked currentBlock isSign)
    { servers := [], lastBlock := none, error := "", blockHeaders := ∅
      additionalBlockHashes := ∅, blocksDumps := ∅ }, g.ask)

/-- Nothing is loaded in advance. -/
def clearAdvanced (g : GetNewBlocksFromServer) : GetNewBlocksFromServer :=
  { g with advancedLoadsBlocksHeaders := [], advancedLoadsBlocksDumps := ∅ }

/-! ## Headers -/

/-- Keep headers that must have consecutive numbers from `n` on. -/
def keepHeaders : Nat → List MinimumBlockHeader → GetNewBlocksFromServer →
    Except Err Unit × GetNewBlocksFromServer
  | _, [], g => (.ok (), g)
  | n, header :: headers, g =>
    if header.number = n then
      keepHeaders (n + 1) headers
        { g with advancedLoadsBlocksHeaders := g.advancedLoadsBlocksHeaders ++ [(n, header)] }
    else
      (.error (.exception ("Incorrect block number in answer: " ++ toString header.number ++ " " ++
        toString n)), g)

/-- The headers of a part. -/
def parsePart (net : Net) (blocksInPart : Nat) (answer : Blob) :
    Except Err (List MinimumBlockHeader) :=
  if blocksInPart ≠ 1 then do
    let blocks ← net.messages.parseBlocksHeader answer
    check (blocks.length == blocksInPart) "Incorrect answers"
    pure blocks
  else do
    let header ← net.messages.parseBlockHeader answer
    pure [header]

/-- The loop over the answers of `getBlockHeader`. -/
def keepParts (net : Net) : List ((Nat × Nat) × Blob) → GetNewBlocksFromServer →
    Except Err Unit × GetNewBlocksFromServer
  | [], g => (.ok (), g)
  | ((currBlockNum, blocksInPart), answer) :: parts, g =>
    match parsePart net blocksInPart answer with
    | .error e => (.error e, g)
    | .ok blocks =>
      match keepHeaders currBlockNum blocks g with
      | (.error e, g) => (.error e, g)
      | (.ok (), g) => keepParts net parts g

/-- `calcBlockIndexes(number)`: the first block of a part and how many it has. -/
def calcBlockIndexes (blockNum countBlocksInBatch maxCountBlocks number : Nat) : Nat × Nat :=
  (blockNum + number * countBlocksInBatch,
    min countBlocksInBatch (maxCountBlocks - number * countBlocksInBatch))

/-- `getBlockHeader(blockNum, maxBlockNum, servers)`; never asked for a block behind the last. -/
def getBlockHeader (net : Net) (g : GetNewBlocksFromServer) (blockNum maxBlockNum : Nat)
    (servers : List Blob) : Except Err MinimumBlockHeader × GetNewBlocksFromServer :=
  match g.advancedLoadsBlocksHeaders.find? (fun e => e.1 = blockNum) with
  | some e => (.ok e.2, g)
  | none =>
    let g := { g with advancedLoadsBlocksHeaders := [] }
    let countBlocks := min (maxBlockNum - blockNum + 1) g.maxAdvancedLoadBlocks
    let countParts := (countBlocks + g.countBlocksInBatch - 1) / g.countBlocksInBatch
    if countBlocks = 0 ∨ countParts = 0 then (.error (.exception "Incorrect count blocks"), g)
    else
      let parts := (List.range countParts).map
        (calcBlockIndexes blockNum g.countBlocksInBatch countBlocks)
      match net.p2p.headers g.asked parts servers with
      | .error e => (.error e, g.ask)
      | .ok answer =>
        if answer.length ≠ countParts then (.error (.exception "Incorrect answer"), g.ask)
        else
          match keepParts net (parts.zip answer) g.ask with
          | (.error e, g) => (.error e, g)
          | (.ok (), g) =>
            (.ok ((g.advancedLoadsBlocksHeaders.head?.map Prod.snd).getD default), g)

/-! ## Dumps -/

/-- Keep the dumps of a part under their hashes. -/
def keepDumps (g : GetNewBlocksFromServer) (dumps : List (Blob × Blob)) : GetNewBlocksFromServer :=
  { g with
    advancedLoadsBlocksDumps :=
      dumps.foldl (fun m e => m.insert e.1 e.2) g.advancedLoadsBlocksDumps }

/-- The dumps of a part, each with its hash. -/
def parseDumpsPart (net : Net) (isCompress : Bool) (hashes : List Blob) (answer : Blob) :
    Except Err (List (Blob × Blob)) :=
  match hashes with
  | [hash] => do
    let dump ← net.messages.parseDumpBlockBinary answer isCompress
    pure [(hash, dump)]
  | _ => do
    let blocks ← net.messages.parseDumpBlocksBinary answer isCompress
    check (blocks.length == hashes.length) "Incorrect answer"
    pure (hashes.zip blocks)

/-- The loop over the answers of `loadBlockDumpsToCache`. -/
def keepDumpsParts (net : Net) : List (List Blob × Blob) → GetNewBlocksFromServer →
    Except Err Unit × GetNewBlocksFromServer
  | [], g => (.ok (), g)
  | (hashes, answer) :: parts, g =>
    match parseDumpsPart net g.isCompress hashes answer with
    | .error e => (.error e, g)
    | .ok dumps => keepDumpsParts net parts (g.keepDumps dumps)

/-- The hashes of the parts of a request for dumps; how many there are is a `size_t`. -/
def dumpParts (countBlocksInBatch : Nat) (blocksHashs : List Blob) : List (List Blob) :=
  (List.range ((blocksHashs.length + countBlocksInBatch - 1) % 2 ^ 64 / countBlocksInBatch)).map
    (fun i => (blocksHashs.drop (i * countBlocksInBatch)).take countBlocksInBatch)

/-- Loads the dumps with these hashes in batches and keeps them. -/
def loadBlockDumpsToCache (net : Net) (g : GetNewBlocksFromServer) (blocksHashs : List Blob)
    (hintsServers : List Blob) (isSign : Bool) : Except Err Unit × GetNewBlocksFromServer :=
  if blocksHashs = [] then (.ok (), g)
  else
    let parts := dumpParts g.countBlocksInBatch blocksHashs
    match net.p2p.dumps g.asked parts isSign hintsServers with
    | .error e => (.error e, g.ask)
    | .ok responses =>
      if responses.length ≠ parts.length then (.error (.exception "Incorrect responses"), g.ask)
      else keepDumpsParts net (parts.zip responses) g.ask

/-- The block itself or one of the sign blocks around it. -/
def mentions (blockHash : Blob) (header : MinimumBlockHeader) : Bool :=
  header.hash == blockHash || (header.prevExtraBlocks.find? blockHash).isSome ||
    (header.nextExtraBlocks.find? blockHash).isSome

/-- The dumps that are loaded together with a block: its own unless it is big, and those of the
sign blocks around it. -/
def advancedHashes (header : MinimumBlockHeader) : List Blob :=
  (if header.blockSize ≤ MAX_BLOCK_SIZE_WITHOUT_ADVANCE then [header.hash] else []) ++
    OrdSet.toList header.prevExtraBlocks ++ OrdSet.toList header.nextExtraBlocks

/-- `getBlockDumpWithoutAdvancedLoad`, the one with a size unless `loadAll`. -/
def getBlockDumpWithoutAdvancedLoad (net : Net) (g : GetNewBlocksFromServer) (blockHash : Blob)
    (blockSize : Nat) (isPrecisionSize loadAll : Bool) (hintsServers : List Blob) (isSign : Bool) :
    Except Err Blob × GetNewBlocksFromServer :=
  if loadAll then (net.p2p.wholeDump g.asked blockHash isSign hintsServers, g.ask)
  else if isSign then
    (net.p2p.dump g.asked blockHash (blockSize + ESTIMATE_SIZE_SIGNATURE) false true hintsServers,
      g.ask)
  else (net.p2p.dump g.asked blockHash blockSize isPrecisionSize false hintsServers, g.ask)

/-- `getBlockDump`: a dump that was kept, or one that is loaded now with those around it. -/
def getBlockDump (net : Net) (g : GetNewBlocksFromServer) (blockHash : Blob) (blockSize : Nat)
    (isPrecisionSize loadAll : Bool) (hintsServers : List Blob) (isSign : Bool) :
    Except Err Blob × GetNewBlocksFromServer :=
  match g.advancedLoadsBlocksDumps.find? blockHash with
  | some dump => (.ok dump, g)
  | none =>
    let found := g.advancedLoadsBlocksHeaders.dropWhile (fun e => !mentions blockHash e.2)
    match loadBlockDumpsToCache net g (found.flatMap (fun e => advancedHashes e.2)) hintsServers
        isSign with
    | (.error e, g) => (.error e, g)
    | (.ok (), g) =>
      match g.advancedLoadsBlocksDumps.find? blockHash with
      | some dump => (.ok dump, g)
      | none =>
        getBlockDumpWithoutAdvancedLoad net g blockHash blockSize isPrecisionSize loadAll
          hintsServers isSign

/-! ## Blocks that came along with the last block -/

/-- The first loop of `addPreLoadBlocks`. -/
def addPreLoadHeaders : Nat → List MinimumBlockHeader → List Blob → GetNewBlocksFromServer →
    Except Err Unit × GetNewBlocksFromServer
  | _, [], _, g => (.ok (), g)
  | n, header :: headers, dumps, g =>
    if header.number = n then
      match dumps with
      -- the source reads behind the end of the vector here
      | [] => (.error (.std "out_of_range"), g)
      | dump :: dumps =>
        addPreLoadHeaders (n + 1) headers dumps
          { (g.keepDumps [(header.hash, dump)]) with
            advancedLoadsBlocksHeaders := g.advancedLoadsBlocksHeaders ++ [(n, header)] }
    else
      (.error (.exception ("Incorrect block number in answer: " ++ toString header.number ++ " " ++
        toString n)), g)

/-- The other loops: a dump for each of these hashes. Returns the dumps that are left. -/
def addPreLoadDumps : List Blob → List Blob → GetNewBlocksFromServer →
    Except Err (List Blob) × GetNewBlocksFromServer
  | [], dumps, g => (.ok dumps, g)
  | _ :: _, [], g => (.error (.exception "Incorrect index"), g)
  | hash :: hashes, dump :: dumps, g => addPreLoadDumps hashes dumps (g.keepDumps [(hash, dump)])

/-- What `addPreLoadBlocks` does when nothing is caught. -/
def tryAddPreLoadBlocks (net : Net) (g : GetNewBlocksFromServer) (fromBlock : Nat)
    (blockHeadersStr additionalBlockHashsesStr blockDumpsStr : Blob) :
    Except Err (List Blob) × GetNewBlocksFromServer :=
  let parsed : Except Err (List MinimumBlockHeader × List Blob × List Blob) := do
    let blocksHeaders ← net.messages.parseBlocksHeader blockHeadersStr
    let additingBlocksHashes ← net.messages.parseAdditionalBlockHashes additionalBlockHashsesStr
    let blocksDumps ← net.messages.parseDumpBlocksBinary blockDumpsStr g.isCompress
    pure (blocksHeaders, additingBlocksHashes, blocksDumps)
  match parsed with
  | .error e => (.error e, g)
  | .ok (blocksHeaders, additingBlocksHashes, blocksDumps) =>
    match addPreLoadHeaders fromBlock blocksHeaders blocksDumps g with
    | (.error e, g) => (.error e, g)
    | (.ok (), g) =>
      match addPreLoadDumps
          (blocksHeaders.flatMap (fun h => OrdSet.toList h.prevExtraBlocks) ++ additingBlocksHashes)
          (blocksDumps.drop blocksHeaders.length) g with
      | (.error e, g) => (.error e, g)
      | (.ok rest, g) =>
        if rest = [] then (.ok additingBlocksHashes, g)
        else (.error (.exception "Incorrect blocks dumps array"), g)

/-- `addPreLoadBlocks`: an exception of the program's own is logged, and no hashes are returned. -/
def addPreLoadBlocks (net : Net) (g : GetNewBlocksFromServer) (fromBlock : Nat)
    (blockHeadersStr additionalBlockHashsesStr blockDumpsStr : Blob) :
    Except Err (List Blob) × GetNewBlocksFromServer :=
  match tryAddPreLoadBlocks net g fromBlock blockHeadersStr additionalBlockHashsesStr
      blockDumpsStr with
  | (.error (.exception _), g) => (.ok [], g)
  | r => r

end GetNewBlocksFromServer

end TorrentNode
