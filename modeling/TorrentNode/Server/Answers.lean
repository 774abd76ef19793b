import TorrentNode.Chain.BlockChain
import TorrentNode.Chain.Signatures
import TorrentNode.Structs.Json
import TorrentNode.Sync.SignedDump
import TorrentNode.Utils.Compress

/-!
# What a node answers other nodes (`Server.cpp`, `generate_json.cpp`)

The documents in the first version of the format, which other nodes get, and the
handler of `pre-load`: the blocks behind a height together with their dumps and those
of the sign blocks around them.
-/

namespace TorrentNode

/-! ## Documents -/

/-- A JSON object of these members. -/
def jsonObject (members : List (String × Json)) : Json :=
  .object (members.map (fun m => (ascii m.1.toList, m.2)))

/-- `blockHeaderToJson` of the type `ForP2P`. -/
def blockHeaderToJson (bh : BlockHeader) : Except Err (List (String × Json)) :=
  match bh.blockNumber with
  | none => .error (.exception "Block header not set")
  | some blockNumber => do
    let hash ← Json.ofHash bh.hash
    let prevHash ← Json.ofHash bh.prevHash
    pure [("hash", hash), ("prev_hash", prevHash), ("number", .ofSizeT blockNumber),
      ("size", .ofSizeT bh.blockSize.toNat),
      ("fileName", .string bh.filePos.fileNameRelative)]

/-- `makeSignatures(resultVal, name, signaturesBlocks)`: the member that is added. -/
def makeSignatures (name : String) (signaturesBlocks : List Blob) : Except Err (String × Json) := do
  let signatures ← signaturesBlocks.mapM Json.ofHash
  pure (name, .array signatures)

/-- The sign blocks behind a header, which only the last header comes with. -/
def nextSignatures (isLast : Bool) (signaturesBlocks : List Blob) :
    Except Err (List (String × Json)) :=
  if isLast then do
    let next ← makeSignatures "next_extra_blocks" signaturesBlocks
    pure [next]
  else pure []

/-- The loop of `blockHeadersToP2PJsonImpl`. -/
def blockHeadersToP2PJsonLoop : List BlockHeader → List (List Blob) → Except Err (List Json)
  | [], _ => .ok []
  | _ :: _, [] => .error (.std "out_of_range")
  | b :: bh, prevSignature :: blockSignatures => do
    let res ← blockHeaderToJson b
    let next ← nextSignatures bh.isEmpty (blockSignatures.head?.getD [])
    let prev ← makeSignatures "prev_extra_blocks" prevSignature
    let vals ← blockHeadersToP2PJsonLoop bh blockSignatures
    pure (jsonObject (res ++ next ++ [prev]) :: vals)

/-- The headers with the hashes around them: for each block those before it, and those behind it. -/
def blockHeadersToP2PJsonImpl (bh : List BlockHeader) (blockSignatures : List (List Blob)) :
    Except Err Json := do
  check (bh.isEmpty || bh.length + 1 == blockSignatures.length) "Incorrect signatures vect"
  let vals ← blockHeadersToP2PJsonLoop bh blockSignatures
  pure (.array vals)

/-- The document that `blockHashesToJson` writes. -/
def blockHashesToJson (hashes : List Blob) : Except Err Json := do
  let array ← hashes.mapM Json.ofHash
  pure (jsonObject [("result", .array array)])

/-- `genDumpBlockBinary(block, isCompress)` -/
def genDumpBlockBinary (lz4 : LZ4) (block : Blob) (isCompress : Bool) : Except Err Blob :=
  if isCompress then Blob.ofBytes (lz4.compress block.val) else .ok block

/-- `genDumpBlocksBinary(blocks, isCompress)` -/
def genDumpBlocksBinary (lz4 : LZ4) (blocks : List Blob) (isCompress : Bool) : Except Err Blob := do
  let res ← Blob.ofBytes (blocks.flatMap serializeString)
  if isCompress then Blob.ofBytes (lz4.compress res.val) else pure res

/-! ## A node that answers -/

/-- What a node answers from. -/
structure Server (scheme : SignatureScheme) where
  blockchain : BlockChain
  timeline : BlocksTimeline
  dumps : DumpServer scheme

/-- The parameters of `pre-load`, as `makePreloadBlocksMessage` writes them. -/
structure PreLoadRequest where
  currentBlock : Nat
  isCompress : Bool
  isSign : Bool
  preLoad : Nat
  maxBlockSize : Nat

/-- What the answer to `pre-load` is made of. -/
structure PreLoadAnswer where
  countBlocks : Nat
  bhs : List BlockHeader
  blockSignaturesHashes : List (List Blob)
  blocks : List Blob
  deriving DecidableEq

/-- `get<int>` of a number written in decimal. -/
def getInt (n : Nat) : Except Err Nat := do
  check (decide (n < 2 ^ 31)) "Incorrect number"
  pure n

namespace Server

variable {scheme : SignatureScheme}

/-- More blocks are not sent at a time. -/
def MAX_PRELOAD_BLOCKS : Nat := 10

/-- More sign blocks in a row are not sent. -/
def MAX_SIGNATURES : Nat := 10

/-- The dump of a whole block, signed or not. -/
def wholeDump (s : Server scheme) (isSign : Bool) (hash : Blob) (filePos : FilePosition) :
    Except Err Blob :=
  s.dumps.getBlockDump hash filePos 0 (UInt64.ofNat (2 ^ 64 - 1)) false isSign

/-- The dump of a sign block, read from its place. -/
def signDump (s : Server scheme) (isSign : Bool) (element : MinimumSignBlockHeader) :
    Except Err Blob :=
  s.wholeDump isSign element.hash element.filePos

/-- `sync.getSignaturesBetween` and the `CHECK` behind it. -/
def fewSignatures (s : Server scheme) (firstBlock secondBlock : Option Blob) (msg : String) :
    Except Err (List MinimumSignBlockHeader) := do
  let blockSigns ← s.timeline.getSignaturesBetween firstBlock secondBlock
  check (decide (blockSigns.length ≤ MAX_SIGNATURES)) msg
  pure blockSigns

/-- The sign blocks before each block, and those behind the last. -/
def getBlocksSignaturesFull (s : Server scheme) (bhs : List BlockHeader) :
    Except Err (List (List MinimumSignBlockHeader)) :=
  match bhs.head?, bhs.getLast? with
  | some fst, some bck =>
    match fst.blockNumber with
    | none => .error (.std "bad_optional_access")
    | some number => do
      check (number != 0) "Incorrect block number"
      let blockSignatures ←
        bhs.mapM (fun bh => s.fewSignatures none (some bh.hash) "Too many block signatures")
      let blockSigns ← s.fewSignatures (some bck.hash) none "Too many block signatures"
      pure (blockSignatures ++ [blockSigns])
  | _, _ => .ok []

/-- The hashes of the runs. -/
def blockSignaturesConvert (blockSignatures : List (List MinimumSignBlockHeader)) :
    List (List Blob) :=
  blockSignatures.map (fun elements => elements.map MinimumSignBlockHeader.hash)

/-- The loop over the blocks of `pre-load`, which ends before one that is too big. -/
def preLoadLoop (s : Server scheme) (isSign : Bool) (maxBlockSize : Nat) :
    List Nat → Except Err (List (BlockHeader × Blob))
  | [] => .ok []
  | i :: rest => do
    let bh := s.blockchain.getBlockByNumber i
    check bh.blockNumber.isSome ("block " ++ toString i ++ " not found")
    if maxBlockSize < bh.blockSize.toNat then pure []
    else do
      let block ← s.wholeDump isSign bh.hash bh.filePos
      let blocks ← preLoadLoop s isSign maxBlockSize rest
      pure ((bh, block) :: blocks)

/-- The numbers that the loop goes through. -/
def preLoadNumbers (countBlocks currentBlock preLoad : Nat) : List Nat :=
  if countBlocks ≤ currentBlock + preLoad + MAX_PRELOAD_BLOCKS / 2 then
    List.range' (currentBlock + 1)
      (min (currentBlock + 1 + preLoad) (countBlocks + 1) - (currentBlock + 1))
  else []

/-- The sign blocks of the answer: around the blocks, or behind the last one when there are none. -/
def preLoadSignatures (s : Server scheme) (currentBlock : Nat) (bhs : List BlockHeader) :
    Except Err (List (List MinimumSignBlockHeader)) :=
  if bhs ≠ [] then s.getBlocksSignaturesFull bhs
  else if s.blockchain.countBlocks = currentBlock then do
    let b := s.blockchain.getBlockByNumber s.blockchain.countBlocks
    let signatures ← s.timeline.getSignaturesBetween (some b.hash) none
    pure [signatures]
  else pure []

/-- `pre-load`, up to the text of the answer. -/
def preLoad (s : Server scheme) (r : PreLoadRequest) : Except Err PreLoadAnswer := do
  let currentBlock ← getInt r.currentBlock
  let preLoadBlocks ← getInt r.preLoad
  let maxBlockSize ← getInt r.maxBlockSize
  check (decide (preLoadBlocks ≤ MAX_PRELOAD_BLOCKS)) "Incorrect preload parameter"
  let countBlocks := s.blockchain.countBlocks
  let loaded ← s.preLoadLoop r.isSign maxBlockSize
    (preLoadNumbers countBlocks currentBlock preLoadBlocks)
  let blockSignatures ← s.preLoadSignatures currentBlock (loaded.map Prod.fst)
  let dumps ← blockSignatures.flatten.mapM (s.signDump r.isSign)
  pure { countBlocks, bhs := loaded.map Prod.fst
         blockSignaturesHashes := blockSignaturesConvert blockSignatures
         blocks := loaded.map Prod.snd ++ dumps }

end Server

namespace PreLoadAnswer

/-- The document with the headers. -/
def headersDoc (a : PreLoadAnswer) : Except Err Json := do
  let vals ← blockHeadersToP2PJsonImpl a.bhs a.blockSignaturesHashes
  pure (jsonObject [("result", vals)])

/-- The document with the hashes of the sign blocks behind the last block, when there is one. -/
def hashesDoc (a : PreLoadAnswer) : Except Err (Option Json) :=
  if a.bhs = [] then do
    check (a.blockSignaturesHashes.length == 0 || a.blockSignaturesHashes.length == 1)
      "Incorrect block signatures"
    match a.blockSignaturesHashes with
    | [hashes] => do
      let doc ← blockHashesToJson hashes
      pure (some doc)
    | _ => pure none
  else pure none

/-- `preLoadBlocksJson` -/
def preLoadBlocksJson (rapidjson : RapidJson) (lz4 : LZ4) (a : PreLoadAnswer) (isCompress : Bool) :
    Except Err Blob := do
  let doc ← a.headersDoc
  let blockHeaders := rapidjson.jsonToString doc
  let blocksStr ← genDumpBlocksBinary lz4 a.blocks isCompress
  let hashes ← a.hashesDoc
  let signBlocksHashes := (hashes.map rapidjson.jsonToString).getD ∅
  Blob.ofBytes (serializeInt sizeofSizeT blockHeaders.size ++
    serializeInt sizeofSizeT signBlocksHashes.size ++ serializeInt sizeofSizeT blocksStr.size ++
    serializeInt sizeofSizeT a.countBlocks ++ blockHeaders.val ++ signBlocksHashes.val ++
    blocksStr.val)

end PreLoadAnswer

end TorrentNode
