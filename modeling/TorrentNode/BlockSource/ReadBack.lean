import Mathlib.Data.List.TakeWhile
import TorrentNode.BlockSource.Messages
import TorrentNode.Server.Answers

/-!
# What is written is read back

The documents that a node writes for others, read by their parsers: hashes come back as
hexadecimal strings, and a list of sign blocks as the set of its hashes.
-/

namespace TorrentNode

open CursorReader

/-! ## Hashes -/

/-- The string that a hash is sent as, if a string can be that long. -/
def hexBlob (hash : Blob) : Blob :=
  if h : (hexBytes hash.val).length < 2 ^ 63 then ⟨hexBytes hash.val, h⟩ else ∅

theorem ofHash_eq_ok {hash : Blob} {json : Json} (h : Json.ofHash hash = .ok json) :
    (hexBlob hash).val = hexBytes hash.val ∧ json = .string (hexBlob hash) := by
  obtain ⟨hex, hhex, h⟩ := bind_eq_ok.mp h
  obtain rfl := Except.ok.inj h
  have hval := Blob.ofBytes_eq_ok.mp hhex
  have hlt : (hexBytes hash.val).length < 2 ^ 63 := hval ▸ hex.property
  have hblob : (hexBlob hash).val = hexBytes hash.val := by rw [hexBlob, dif_pos hlt]
  exact ⟨hblob, by rw [Subtype.ext (hval.trans hblob.symm)]⟩

/-- A hash that can be sent. -/
def Sendable (hash : Blob) : Prop := (hexBlob hash).val = hexBytes hash.val

theorem hexBlob_injective {a b : Blob} (ha : Sendable a) (hb : Sendable b)
    (h : hexBlob a = hexBlob b) : a = b :=
  Subtype.ext (hexBytes_injective (ha.symm.trans ((congrArg Subtype.val h).trans hb)))

theorem getBlob_hex {hash : Blob} (h : Sendable hash) :
    (Json.string (hexBlob hash)).getBlob = some (hexBlob hash) := by
  refine congrArg some (Subtype.ext (List.takeWhile_eq_self_iff.mpr ?_))
  intro c hc
  rw [h] at hc
  exact decide_eq_true (hexBytes_ne_zero c hc)

theorem getText_hex {hash : Blob} (h : Sendable hash) :
    getText (.string (hexBlob hash)) = .ok (hexBlob hash) := by
  rw [getText, getBlob_hex h]
  rfl

/-- **A list of hashes is read back.** -/
theorem mapM_getText {hashes : List Blob} {array : List Json}
    (h : hashes.mapM Json.ofHash = .ok array) :
    (∀ hash ∈ hashes, Sendable hash) ∧ array.mapM getText = .ok (hashes.map hexBlob) := by
  induction hashes generalizing array with
  | nil =>
      rw [List.mapM_nil] at h
      obtain rfl := Except.ok.inj h
      exact ⟨by simp, rfl⟩
  | cons hash hashes ih =>
      rw [List.mapM_cons] at h
      obtain ⟨json, hjson, h⟩ := bind_eq_ok.mp h
      obtain ⟨array', harray, h⟩ := bind_eq_ok.mp h
      obtain rfl := Except.ok.inj h
      obtain ⟨hsend, rfl⟩ := ofHash_eq_ok hjson
      obtain ⟨hsends, hread⟩ := ih harray
      refine ⟨List.forall_mem_cons.mpr ⟨hsend, hsends⟩, ?_⟩
      rw [List.mapM_cons, getText_hex hsend, hread]
      rfl

/-! ## Headers -/

/-- What the parser of headers makes of a header with these sign blocks around it. -/
structure ReadAs (bh : BlockHeader) (prev next : List Blob) (header : MinimumBlockHeader) :
    Prop where
  number : bh.blockNumber = some header.number
  blockSize : header.blockSize = bh.blockSize.toNat
  hash : header.hash = hexBlob bh.hash
  sendable : Sendable bh.hash
  prevExtraBlocks : header.prevExtraBlocks = OrdSet.ofList (prev.map hexBlob)
  prevSendable : ∀ hash ∈ prev, Sendable hash
  nextExtraBlocks : header.nextExtraBlocks = OrdSet.ofList (next.map hexBlob)
  nextSendable : ∀ hash ∈ next, Sendable hash

theorem find?_nil (name : String) : (jsonObject []).find? name = none := rfl

/-- A member is found by its name. -/
theorem find?_cons (m : String × Json) (members : List (String × Json)) (name : String) :
    (jsonObject (m :: members)).find? name =
      if ascii m.1.toList = ascii name.toList then some m.2
      else (jsonObject members).find? name := by
  unfold jsonObject Json.find?
  simp only [List.map_cons, List.find?_cons]
  by_cases h : ascii m.1.toList = ascii name.toList
  · rw [if_pos h, decide_eq_true h]
    rfl
  · rw [if_neg h, decide_eq_false h]

/-- What the parser looks for in a header. -/
structure HeaderMembers (json : Json) (bh : BlockHeader) (number : Nat) : Prop where
  number : json.find? "number" = some (.ofSizeT number)
  hash : json.find? "hash" = some (.string (hexBlob bh.hash))
  prevHash : json.find? "prev_hash" = some (.string (hexBlob bh.prevHash))
  size : json.find? "size" = some (.ofSizeT bh.blockSize.toNat)
  fileName : json.find? "fileName" = some (.string bh.filePos.fileNameRelative)

/-- A set of hashes in a header, or none. -/
theorem parseExtraBlocks_array {json : Json} {name : String} {hashes : List Blob}
    {array : List Json} (hmem : json.find? name = some (.array array))
    (h : hashes.mapM Json.ofHash = .ok array) :
    parseExtraBlocks json name = .ok (OrdSet.ofList (hashes.map hexBlob)) := by
  rw [parseExtraBlocks, hmem]
  simp only [Option.bind_some, Json.getArray, (mapM_getText h).2]
  rfl

theorem parseExtraBlocks_absent {json : Json} {name : String} (hmem : json.find? name = none) :
    parseExtraBlocks json name = .ok (OrdSet.ofList (([] : List Blob).map hexBlob)) := by
  rw [parseExtraBlocks, hmem]
  rfl

theorem parseHeaderJson_eq {json : Json} {bh : BlockHeader} {number : Nat} {prev next : List Blob}
    (hm : HeaderMembers json bh number) (hbh : bh.blockNumber = some number)
    (hnum : number < 2 ^ 63) (hsize : bh.blockSize.toNat < 2 ^ 63)
    (hhash : Sendable bh.hash) (hprevHash : Sendable bh.prevHash)
    (hprev : parseExtraBlocks json "prev_extra_blocks" =
      .ok (OrdSet.ofList (prev.map hexBlob)))
    (hnext : parseExtraBlocks json "next_extra_blocks" =
      .ok (OrdSet.ofList (next.map hexBlob)))
    (hprevs : ∀ hash ∈ prev, Sendable hash) (hnexts : ∀ hash ∈ next, Sendable hash) :
    ∃ header, parseHeaderJson json = .ok header ∧ ReadAs bh prev next header := by
  obtain ⟨fileName, hfile⟩ : ∃ fileName,
    (Json.string bh.filePos.fileNameRelative).getBlob = some fileName := ⟨_, rfl⟩
  refine ⟨{ number, blockSize := bh.blockSize.toNat, hash := hexBlob bh.hash
            parentHash := hexBlob bh.prevHash, fileName
            prevExtraBlocks := OrdSet.ofList (prev.map hexBlob)
            nextExtraBlocks := OrdSet.ofList (next.map hexBlob) }, ?_,
    ⟨hbh, rfl, rfl, hhash, rfl, hprevs, rfl, hnexts⟩⟩
  have hn : (UInt64.ofNat number).toNat = number := toNat_ofNat_of_lt (by omega)
  have hs : (UInt64.ofNat bh.blockSize.toNat).toNat = bh.blockSize.toNat :=
    toNat_ofNat_of_lt (by omega)
  unfold parseHeaderJson
  simp only [hm.number, hm.hash, hm.prevHash, hm.size, hm.fileName, Option.bind_some,
    Json.getInt64_ofSizeT hnum, Json.getInt64_ofSizeT hsize, getBlob_hex hhash,
    getBlob_hex hprevHash, hfile, field, hprev, hnext, Bind.bind, Except.bind, hn, hs]
  rfl

/-- The members of a header with its sign blocks, in front of the members behind. -/
theorem headerMembers {bh : BlockHeader} {number : Nat} {hash prevHash : Json}
    {more : List (String × Json)} (hhash : Json.ofHash bh.hash = .ok hash)
    (hprevHash : Json.ofHash bh.prevHash = .ok prevHash) :
    HeaderMembers (jsonObject ([("hash", hash), ("prev_hash", prevHash),
      ("number", .ofSizeT number), ("size", .ofSizeT bh.blockSize.toNat),
      ("fileName", .string bh.filePos.fileNameRelative)] ++ more)) bh number := by
  obtain ⟨-, rfl⟩ := ofHash_eq_ok hhash
  obtain ⟨-, rfl⟩ := ofHash_eq_ok hprevHash
  constructor <;> simp +decide only [List.cons_append, find?_cons, if_true, if_false]

/-- The members that hold the sign blocks. -/
theorem makeSignatures_eq_ok {name : String} {hashes : List Blob} {m : String × Json}
    (h : makeSignatures name hashes = .ok m) :
    ∃ array, hashes.mapM Json.ofHash = .ok array ∧ m = (name, .array array) := by
  obtain ⟨array, harray, h⟩ := bind_eq_ok.mp h
  exact ⟨array, harray, (Except.ok.inj h).symm⟩

/-- **A header is read back**: one with the sign blocks before it, and those behind it if any. -/
theorem parseHeaderJson_written {bh : BlockHeader} {number : Nat} {res : List (String × Json)}
    {prev : List Blob} {prevMember : String × Json} {next : List Blob}
    {nextMember : List (String × Json)} (hres : blockHeaderToJson bh = .ok res)
    (hbh : bh.blockNumber = some number) (hnum : number < 2 ^ 63)
    (hsize : bh.blockSize.toNat < 2 ^ 63)
    (hprev : makeSignatures "prev_extra_blocks" prev = .ok prevMember)
    (hnext : nextMember = [] ∧ next = [] ∨ ∃ m, nextMember = [m] ∧
      makeSignatures "next_extra_blocks" next = .ok m) :
    ∃ header, parseHeaderJson (jsonObject (res ++ nextMember ++ [prevMember])) = .ok header ∧
      ReadAs bh prev next header := by
  rw [blockHeaderToJson, hbh] at hres
  obtain ⟨hash, hhash, hres⟩ := bind_eq_ok.mp hres
  obtain ⟨prevHash, hprevHash, hres⟩ := bind_eq_ok.mp hres
  obtain rfl := Except.ok.inj hres
  obtain ⟨prevArray, hprevArray, rfl⟩ := makeSignatures_eq_ok hprev
  have hm := @headerMembers bh number hash prevHash
    (nextMember ++ [("prev_extra_blocks", Json.array prevArray)]) hhash hprevHash
  rw [← List.append_assoc] at hm
  rcases hnext with ⟨rfl, rfl⟩ | ⟨m, rfl, hm'⟩
  · refine parseHeaderJson_eq hm hbh hnum hsize (ofHash_eq_ok hhash).1 (ofHash_eq_ok hprevHash).1
      (parseExtraBlocks_array ?_ hprevArray) (parseExtraBlocks_absent ?_)
      (mapM_getText hprevArray).1 (by simp)
    · simp +decide only [List.cons_append, List.nil_append, List.append_nil, find?_cons, if_true,
        if_false]
    · simp +decide only [List.cons_append, List.nil_append, List.append_nil, find?_cons, if_false,
        find?_nil]
  · obtain ⟨nextArray, hnextArray, rfl⟩ := makeSignatures_eq_ok hm'
    refine parseHeaderJson_eq hm hbh hnum hsize (ofHash_eq_ok hhash).1 (ofHash_eq_ok hprevHash).1
      (parseExtraBlocks_array ?_ hprevArray)
      (parseExtraBlocks_array ?_ hnextArray)
      (mapM_getText hprevArray).1 (mapM_getText hnextArray).1
    · simp +decide only [List.cons_append, List.nil_append, find?_cons, if_true, if_false]
    · simp +decide only [List.cons_append, List.nil_append, find?_cons, if_true, if_false]

/-- The sign blocks that a list of headers is written with: those before each, and the last ones
also behind. -/
def Written : List BlockHeader → List (List Blob) → List MinimumBlockHeader → Prop
  | [], _, headers => headers = []
  | _ :: _, [], _ => False
  | b :: bh, prev :: signatures, headers =>
    ∃ header rest, headers = header :: rest ∧
      ReadAs b prev (if bh = [] then signatures.head?.getD [] else []) header ∧
      Written bh signatures rest

/-- **The headers are read back.** -/
theorem parseHeadersJson_written {bhs : List BlockHeader} {signatures : List (List Blob)}
    {vals : List Json} (h : blockHeadersToP2PJsonLoop bhs signatures = .ok vals)
    (hnum : ∀ bh ∈ bhs, ∃ n, bh.blockNumber = some n ∧ n < 2 ^ 63)
    (hsize : ∀ bh ∈ bhs, bh.blockSize.toNat < 2 ^ 63) :
    ∃ headers, parseHeadersJson vals = .ok headers ∧ Written bhs signatures headers := by
  induction bhs generalizing signatures vals with
  | nil =>
      obtain rfl := Except.ok.inj h
      exact ⟨[], rfl, rfl⟩
  | cons b bhs ih =>
      cases signatures with
      | nil => cases h
      | cons prev signatures =>
          rw [blockHeadersToP2PJsonLoop] at h
          obtain ⟨res, hres, h⟩ := bind_eq_ok.mp h
          obtain ⟨nextMember, hnext, h⟩ := bind_eq_ok.mp h
          obtain ⟨prevMember, hprev, h⟩ := bind_eq_ok.mp h
          obtain ⟨rest, hrest, h⟩ := bind_eq_ok.mp h
          obtain rfl := Except.ok.inj h
          obtain ⟨n, hbh, hn⟩ := hnum b List.mem_cons_self
          -- Only the last header of the answer says what stands behind it.
          have hnext' : nextMember = [] ∧ (if bhs = [] then signatures.head?.getD [] else []) = [] ∨
              ∃ m, nextMember = [m] ∧ makeSignatures "next_extra_blocks"
                (if bhs = [] then signatures.head?.getD [] else []) = .ok m := by
            unfold nextSignatures at hnext
            cases bhs with
            | nil =>
                obtain ⟨m, hm, hnext⟩ := bind_eq_ok.mp hnext
                exact Or.inr ⟨m, (Except.ok.inj hnext).symm, hm⟩
            | cons b' bhs => exact Or.inl ⟨(Except.ok.inj hnext).symm, rfl⟩
          obtain ⟨header, hheader, hread⟩ := parseHeaderJson_written hres hbh hn
            (hsize b List.mem_cons_self) hprev hnext'
          obtain ⟨headers, hheaders, hwritten⟩ := ih hrest
            (fun bh hbh => hnum bh (List.mem_cons_of_mem _ hbh))
            (fun bh hbh => hsize bh (List.mem_cons_of_mem _ hbh))
          refine ⟨header :: headers, ?_, header, headers, rfl, hread, hwritten⟩
          unfold parseHeadersJson at hheaders ⊢
          rw [List.mapM_cons, hheaders]
          simp only [jsonObject, Json.isObject, check_true] at hheader ⊢
          simp only [hheader, Bind.bind, Except.bind]
          rfl

/-! ## Documents with a result -/

section

variable {rapidjson : RapidJson} {response : Blob} {result : Json}

/-- The text of a document parses, and the document has no error. -/
theorem parse_result (h : rapidjson.ReadsBack (jsonObject [("result", result)])) :
    rapidjson.parse (rapidjson.jsonToString (jsonObject [("result", result)])) =
        .ok (jsonObject [("result", result)]) ∧
      rapidjson.checkError (jsonObject [("result", result)]) = .ok () ∧
      (jsonObject [("result", result)]).find? "result" = some result := by
  have herror : (jsonObject [("result", result)]).member "error" = .ok none := by
    rw [Json.member_eq _ rfl]
    simp +decide only [find?_cons, if_false, find?_nil]
  refine ⟨?_, ?_, ?_⟩
  · rw [RapidJson.parse, h]
    rfl
  · rw [RapidJson.checkError, herror]
    rfl
  · simp +decide only [find?_cons, if_true]

theorem parseBlocksHeader_written {vals : List Json} {headers : List MinimumBlockHeader}
    (h : rapidjson.ReadsBack (jsonObject [("result", .array vals)]))
    (hvals : parseHeadersJson vals = .ok headers) :
    rapidjson.parseBlocksHeader
      (rapidjson.jsonToString (jsonObject [("result", .array vals)])) = .ok headers := by
  obtain ⟨hparse, herror, hresult⟩ := parse_result h
  unfold RapidJson.parseBlocksHeader
  rw [hparse]
  simp only [Bind.bind, Except.bind, herror, hresult, Option.bind_some, Json.getArray, field, hvals]

theorem parseAdditionalBlockHashes_written {hashes : List Blob} {doc : Json}
    (hdoc : blockHashesToJson hashes = .ok doc) (h : rapidjson.ReadsBack doc)
    (hempty : rapidjson.Parse [] = none) :
    rapidjson.parseAdditionalBlockHashes (rapidjson.jsonToString doc) =
      .ok (hashes.map hexBlob) := by
  obtain ⟨array, harray, hdoc⟩ := bind_eq_ok.mp hdoc
  obtain rfl := Except.ok.inj hdoc
  have hne : (rapidjson.jsonToString (jsonObject [("result", .array array)])).isEmpty = false := by
    rw [Blob.isEmpty_eq_false]
    intro hnil
    rw [RapidJson.ReadsBack, hnil] at h
    exact absurd (hempty.symm.trans h) (by simp)
  obtain ⟨hparse, herror, hresult⟩ := parse_result h
  unfold RapidJson.parseAdditionalBlockHashes
  rw [hne, hparse]
  simp only [Bool.false_eq_true, if_false, Bind.bind, Except.bind, herror, hresult,
    Option.bind_some, Json.getArray, field]
  exact (mapM_getText harray).2

end

/-! ## Dumps -/

/-- Each frame has bytes of its own, so there are no more of them than bytes. -/
theorem length_le_frames (blocks : List Blob) :
    blocks.length ≤ (blocks.flatMap serializeString).length := by
  induction blocks with
  | nil => exact Nat.le_refl _
  | cons block blocks ih =>
      have hword : sizeofSizeT = 8 := rfl
      rw [List.flatMap_cons, List.length_append, length_serializeString, List.length_cons]
      omega

/-- **A batch of dumps is read back.** -/
theorem parseDumpBlocksBinary_written {lz4 : LZ4} {blocks : List Blob} {isCompress : Bool}
    {str : Blob} (h : genDumpBlocksBinary lz4 blocks isCompress = .ok str)
    (hlz4 : isCompress = true → blocks.flatMap serializeString ≠ [] →
      lz4.Lossless (blocks.flatMap serializeString)) :
    parseDumpBlocksBinary lz4 str isCompress = .ok blocks := by
  unfold genDumpBlocksBinary at h
  obtain ⟨res, hres, h⟩ := bind_eq_ok.mp h
  have hval := Blob.ofBytes_eq_ok.mp hres
  have hr : (if isCompress then lz4.decompress str.val else str.val) =
      blocks.flatMap serializeString := by
    cases isCompress with
    | false =>
        obtain rfl := Except.ok.inj h
        exact hval
    | true =>
        rw [if_pos rfl, Blob.ofBytes_eq_ok.mp h, hval]
        exact LZ4.decompress_compress (hlz4 rfl)
  have hlen : (blocks.flatMap serializeString).length < 2 ^ 63 := hval ▸ res.property
  have hfew := length_le_frames blocks
  unfold parseDumpBlocksBinary
  rw [hr]
  dsimp only
  rw [readDumps_frames hlen (Nat.zero_le _) (List.drop_zero ..) (by omega)]
  rfl

/-! ## The answer to `pre-load` -/

theorem preloadPart_at {response part : Blob} {pos : Nat} {rest : Bytes}
    (hat : response.val.drop pos = part.val ++ rest) (hpos : pos ≤ response.size) :
    preloadPart response pos part.size = .ok (part, pos + part.size) ∧
      response.val.drop (pos + part.size) = rest ∧ pos + part.size ≤ response.size := by
  have hlen := congrArg List.length hat
  rw [List.length_drop, List.length_append] at hlen
  have hlt := response.property
  unfold Blob.size at hpos ⊢
  have hend : pos + part.val.length ≤ response.val.length := by omega
  have hmod : (pos + part.val.length) % 2 ^ 64 = pos + part.val.length :=
    Nat.mod_eq_of_lt (by omega)
  refine ⟨?_, ?_, hend⟩
  · unfold preloadPart
    rw [hmod, decide_eq_true (by unfold Blob.size; exact hend), check_true, hat, List.take_left' rfl,
      Blob.ofBytes_val]
    rfl
  · rw [← List.drop_drop, hat, List.drop_left' rfl]

theorem reads_sizes {a b c d : Nat} (ha : a < 2 ^ 64) (hb : b < 2 ^ 64) (hc : c < 2 ^ 64) :
    Reads readSizes (serializeInt sizeofSizeT a ++ (serializeInt sizeofSizeT b ++
      (serializeInt sizeofSizeT c ++ serializeInt sizeofSizeT d))) (a, b, c, d % 2 ^ 64) := by
  have hd : serializeInt sizeofSizeT d = serializeInt sizeofSizeT (d % 2 ^ 64) :=
    (BigEndian.encode_mod sizeofSizeT d sizeofSizeT (Nat.le_refl _)).symm
  rw [hd]
  exact (reads_int (by decide) ha).bind ((reads_int (by decide) hb).bind
    ((reads_int (by decide) hc).bind (reads_int (by decide) (Nat.mod_lt _ (by decide))).map))

/-- **The parts of the answer are found again.** -/
theorem parsePreloaded_written {response headers hashes dumps : Blob} {count : Nat}
    (h : response.val = serializeInt sizeofSizeT headers.size ++
      serializeInt sizeofSizeT hashes.size ++ serializeInt sizeofSizeT dumps.size ++
      serializeInt sizeofSizeT count ++ headers.val ++ hashes.val ++ dumps.val) :
    parsePreloaded response = .ok { error := none, countBlocks := count % 2 ^ 64
                                    blockHeaders := headers, additingBlocksHashes := hashes
                                    blockDumps := dumps } := by
  have hheaders := headers.property
  have hhashes := hashes.property
  have hdumps := dumps.property
  have hsizes := @reads_sizes headers.size hashes.size dumps.size count (by unfold Blob.size; omega)
    (by unfold Blob.size; omega) (by unfold Blob.size; omega)
  have hsplit : response.val.drop 0 = (serializeInt sizeofSizeT headers.size ++
      (serializeInt sizeofSizeT hashes.size ++ (serializeInt sizeofSizeT dumps.size ++
        serializeInt sizeofSizeT count))) ++ (headers.val ++ (hashes.val ++ dumps.val)) := by
    rw [List.drop_zero, h]
    simp only [List.append_assoc]
  -- The four sizes are read from the front, then the three parts of these sizes.
  have hrun := hsizes response.val 0 _ response.property hsplit
  have hat : response.val.drop 32 = headers.val ++ (hashes.val ++ dumps.val) := by
    rw [← List.drop_zero (l := response.val), hsplit]
    exact List.drop_left' (by simp [sizeofSizeT])
  have hlen := congrArg List.length h
  have hge : 32 ≤ response.size := by
    unfold Blob.size
    simp only [List.length_append, length_serializeInt, sizeofSizeT] at hlen
    omega
  obtain ⟨hpart, hat, hle⟩ := preloadPart_at hat hge
  obtain ⟨hpart', hat', hle'⟩ := preloadPart_at hat hle
  obtain ⟨hpart'', -, -⟩ := preloadPart_at (hat'.trans (List.append_nil _).symm) hle'
  -- Nothing is left behind the last part.
  have hend : 32 + headers.size + hashes.size + dumps.size = response.size := by
    unfold Blob.size
    simp only [List.length_append, length_serializeInt, sizeofSizeT] at hlen
    omega
  unfold parsePreloaded
  rw [hrun]
  simp only [List.length_append, length_serializeInt, sizeofSizeT, Bind.bind, Except.bind,
    Nat.zero_add, hpart, hpart', hpart'', hend, beq_self_eq_true, check_true]
  rfl

/-- The answer is not a document: it starts with a zero, as it is short. -/
theorem cStr_answer {response : Blob} {n : Nat} (h : serializeInt sizeofSizeT n <+: response.val)
    (hn : n < 256 ^ 7) : cStr response = [] := by
  obtain ⟨rest, h⟩ := h
  have hzero : n / 256 ^ 7 % 256 = 0 := by rw [Nat.div_eq_of_lt hn]
  rw [cStr, ← h, serializeInt, sizeofSizeT, BigEndian.encode, hzero]
  rfl

end TorrentNode
