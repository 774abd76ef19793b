import TorrentNode.BlockSource.GetNewBlocks
import TorrentNode.Structs.Json
import TorrentNode.Utils.Compress
import TorrentNode.Utils.Serialize

/-!
# The parsers of the answers (`get_new_blocks_messages.cpp`)

Headers and hashes come as JSON, dumps as frames that may be compressed, and the answer
to `pre-load` as both behind the sizes of its parts.
-/

namespace TorrentNode

open CursorReader

/-! ## JSON -/

/-- A `CHECK` that something is there. -/
def field {α : Type} (found : Option α) (msg : String) : Except Err α :=
  match found with
  | none => .error (.exception msg)
  | some a => .ok a

namespace RapidJson

variable (rapidjson : RapidJson)

/-- `doc.Parse(response.c_str())` and the `CHECK` behind it. -/
def parse (response : Blob) : Except Err Json :=
  field (rapidjson.Parse (cStr response)) ("rapidjson parse error. Data: " ++ text response.val)

/-- The `CHECK` that there is no member `error`. -/
def checkError (doc : Json) : Except Err Unit := do
  match ← doc.member "error" with
  | none => pure ()
  | some .null => pure ()
  | some e => .error (.exception (text (rapidjson.jsonToString e).val))

end RapidJson

/-- `get<std::string>(json)` -/
def getText (json : Json) : Except Err Blob := field json.getBlob "Incorrect json field"

/-- The set of hashes in an array that may be missing. -/
def parseExtraBlocks (json : Json) (name : String) : Except Err (OrdSet Blob) :=
  match (json.find? name).bind Json.getArray with
  | none => .ok ∅
  | some extraBlocks => do
    let hashes ← extraBlocks.mapM getText
    pure (OrdSet.ofList hashes)

/-- `parseBlockHeader(resultJson)`, called with objects only. -/
def parseHeaderJson (resultJson : Json) : Except Err MinimumBlockHeader := do
  let number ← field ((resultJson.find? "number").bind Json.getInt64) "number field not found"
  let hash ← field ((resultJson.find? "hash").bind Json.getBlob) "hash field not found"
  let parentHash ←
    field ((resultJson.find? "prev_hash").bind Json.getBlob) "prev_hash field not found"
  let blockSize ← field ((resultJson.find? "size").bind Json.getInt64) "size field not found"
  let fileName ←
    field ((resultJson.find? "fileName").bind Json.getBlob) "fileName field not found"
  let prevExtraBlocks ← parseExtraBlocks resultJson "prev_extra_blocks"
  let nextExtraBlocks ← parseExtraBlocks resultJson "next_extra_blocks"
  pure { number := number.toNat, blockSize := blockSize.toNat, hash, parentHash, fileName
         prevExtraBlocks, nextExtraBlocks }

/-- The loop of `parseBlocksHeader`. -/
def parseHeadersJson (resultJson : List Json) : Except Err (List MinimumBlockHeader) :=
  resultJson.mapM (fun rJson => do
    check rJson.isObject "result field not found"
    parseHeaderJson rJson)

/-! ## Dumps -/

/-- The loop of `parseDumpBlocksBinary`; nothing when it goes on for more than `fuel` rounds. -/
def readDumps : Nat → Bytes → Nat → Option (Except Err (List Blob))
  | 0, _, _ => none
  | fuel + 1, r, from' =>
    if from' < r.length then
      match deserializeString.runFrom r from' with
      | .error e => some (.error e)
      | .ok (block, next) => (readDumps fuel r next).map (fun rest => rest.map (block :: ·))
    else some (.ok [])

/-- **Frames are read back.** -/
theorem readDumps_frames : ∀ {blocks : List Blob} {fuel pos : Nat} {r : Bytes},
    r.length < 2 ^ 63 → pos ≤ r.length → r.drop pos = blocks.flatMap serializeString →
    blocks.length < fuel → readDumps fuel r pos = some (.ok blocks)
  | [], fuel + 1, pos, r, _, hpos, hat, _ => by
      have hend := congrArg List.length hat
      rw [List.length_drop, List.flatMap_nil, List.length_nil] at hend
      rw [readDumps, if_neg (by omega)]
  | block :: blocks, fuel + 1, pos, r, hlen, hpos, hat, hfuel => by
      rw [List.flatMap_cons] at hat
      have hsize := congrArg List.length hat
      rw [List.length_drop, List.length_append, length_serializeString] at hsize
      have hword : sizeofSizeT = 8 := rfl
      have hread := reads_string block r pos _ hlen hat
      have hnext : r.drop (pos + (serializeString block).length) =
          blocks.flatMap serializeString := by
        rw [← List.drop_drop, hat, List.drop_left]
      have hle : pos + (serializeString block).length ≤ r.length := by
        rw [length_serializeString]
        omega
      rw [List.length_cons] at hfuel
      have ih := readDumps_frames hlen hle hnext (show blocks.length < fuel by omega)
      rw [readDumps, if_pos (by omega), hread]
      simp only [ih]
      rfl

/-! ## Messages -/

/-- The parts of the answer to `pre-load` behind its sizes. -/
def preloadPart (response : Blob) (pos size : Nat) : Except Err (Blob × Nat) := do
  check (decide ((pos + size) % 2 ^ 64 ≤ response.size)) "Incorrect response"
  let part ← Blob.ofBytes ((response.val.drop pos).take size)
  pure (part, (pos + size) % 2 ^ 64)

/-- The four numbers in front. -/
def readSizes : Deserializer (Nat × Nat × Nat × Nat) := do
  let sizeHeaders ← deserializeInt sizeofSizeT
  let sizeAdditingBlocksHashes ← deserializeInt sizeofSizeT
  let sizeBlocks ← deserializeInt sizeofSizeT
  let countBlocks ← deserializeInt sizeofSizeT
  pure (sizeHeaders, sizeAdditingBlocksHashes, sizeBlocks, countBlocks)

/-- The second half of `parsePreloadBlocksMessage`: an answer that is not an error. -/
def parsePreloaded (response : Blob) : Except Err PreloadBlocksResponse := do
  let ((sizeHeaders, sizeAdditingBlocksHashes, sizeBlocks, countBlocks), pos) ←
    readSizes.runFrom response.val 0
  let (blockHeaders, pos) ← preloadPart response pos sizeHeaders
  let (additingBlocksHashes, pos) ← preloadPart response pos sizeAdditingBlocksHashes
  let (blockDumps, pos) ← preloadPart response pos sizeBlocks
  check (pos == response.size) "Incorrect response"
  pure { error := none, countBlocks, blockHeaders, additingBlocksHashes, blockDumps }

namespace RapidJson

variable (rapidjson : RapidJson)

/-- `parsePreloadBlocksMessage`: a short answer may be an error instead. -/
def parsePreloadBlocksMessage (response : Blob) : Except Err PreloadBlocksResponse :=
  match if response.size ≤ 320 then rapidjson.Parse (cStr response) else none with
  | none => parsePreloaded response
  | some doc => do
    match ← doc.member "error" with
    | none => .error (.exception "Unknown response")
    | some .null => .error (.exception "Unknown response")
    | some e =>
      pure { error := some (text (rapidjson.jsonToString e).val), countBlocks := 0
             blockHeaders := ∅, additingBlocksHashes := ∅, blockDumps := ∅ }

/-- `parseCountBlocksMessage`: the height, and the sign blocks behind it. -/
def parseCountBlocksMessage (response : Blob) : Except Err (Nat × OrdSet Blob) := do
  let doc ← rapidjson.parse response
  rapidjson.checkError doc
  let resultJson ←
    field ((doc.find? "result").filter Json.isObject) "result field not found"
  let countBlocks ←
    field ((resultJson.find? "count_blocks").bind Json.getInt) "count_blocks field not found"
  let nextExtraBlocks ← parseExtraBlocks resultJson "next_extra_blocks"
  pure (countBlocks.toNat, nextExtraBlocks)

/-- `parseAdditionalBlockHashes`: no text at all stands for no hashes. -/
def parseAdditionalBlockHashes (response : Blob) : Except Err (List Blob) :=
  if response.isEmpty then .ok []
  else do
    let doc ← rapidjson.parse response
    rapidjson.checkError doc
    let jsonArray ← field ((doc.find? "result").bind Json.getArray) "result field not found"
    jsonArray.mapM getText

/-- `parseBlockHeader`: the header of one block. -/
def parseBlockHeader (response : Blob) : Except Err MinimumBlockHeader := do
  let doc ← rapidjson.parse response
  rapidjson.checkError doc
  let resultJson ←
    field ((doc.find? "result").filter Json.isObject) "result field not found"
  parseHeaderJson resultJson

/-- `parseBlocksHeader`: the headers of blocks that follow each other. -/
def parseBlocksHeader (response : Blob) : Except Err (List MinimumBlockHeader) := do
  let doc ← rapidjson.parse response
  rapidjson.checkError doc
  let resultJson ← field ((doc.find? "result").bind Json.getArray) "result field not found"
  parseHeadersJson resultJson

end RapidJson

/-- `parseDumpBlockBinary`: the dump as it was before it was compressed. -/
def parseDumpBlockBinary (lz4 : LZ4) (response : Blob) (isCompress : Bool) : Except Err Blob :=
  if isCompress then Blob.ofBytes (lz4.decompress response.val) else .ok response

/-- A loop that never ends stands as an exception that nothing throws. -/
def parseDumpBlocksBinary (lz4 : LZ4) (response : Blob) (isCompress : Bool) :
    Except Err (List Blob) :=
  let r := if isCompress then lz4.decompress response.val else response.val
  (readDumps (r.length + 1) r 0).getD (.error (.std "endless"))

/-- The parsers that the program uses. -/
def messages (rapidjson : RapidJson) (lz4 : LZ4) : Messages where
  parseCountBlocksMessage := rapidjson.parseCountBlocksMessage
  parsePreloadBlocksMessage := rapidjson.parsePreloadBlocksMessage
  parseBlockHeader := rapidjson.parseBlockHeader
  parseBlocksHeader := rapidjson.parseBlocksHeader
  parseAdditionalBlockHashes := rapidjson.parseAdditionalBlockHashes
  parseDumpBlockBinary := parseDumpBlockBinary lz4
  parseDumpBlocksBinary := parseDumpBlocksBinary lz4

end TorrentNode
