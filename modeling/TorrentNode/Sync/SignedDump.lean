import TorrentNode.P2P.Segments
import TorrentNode.Storage.BlockFiles
import TorrentNode.Sync.PrivateKey
import TorrentNode.Workers.Common

/-!
# Signed block dumps (`SyncImpl::getBlockDump`, `PrivateKey.cpp`)

A node that serves a block signs it: the size goes in front of the part that starts
the block, the signature behind the part that reaches its end. The node that loads
the block asks for a range that is longer than the block, cut into segments, and
reads the size, the block and the signature out of the parts put together. Several
segments may reach the end, and each is signed anew.
-/

namespace TorrentNode

/-- A signed dump, taken into its parts. -/
structure BlockSignatureCheckResult where
  block : Blob
  sign : Blob
  pubkey : Blob
  address : Blob
  deriving DecidableEq

namespace SignatureScheme

/-- The address belongs to the key, as `checkSignatureBlock` finds out. -/
def checkAddress (scheme : SignatureScheme) (pubkey address : Blob) : Except Err Unit :=
  let asSecp : Except Err Unit := do
    let calculatedAddress ← scheme.makeAddressFromSecpKey pubkey
    check (decide (calculatedAddress = address)) "Not validate"
  match asSecp with
  | .error (.exception _) => check (decide (scheme.get_address pubkey = address)) "Not validate"
  | res => res

/-- The four strings of a signed block. -/
def readSigned : Deserializer BlockSignatureCheckResult := do
  let block ← deserializeString
  let sign ← deserializeString
  let pubkey ← deserializeString
  let address ← deserializeString
  pure { block, sign, pubkey, address }

/-- `checkSignatureBlock(blockDump)`; what stands behind the four strings is not looked at. -/
def checkSignatureBlock (scheme : SignatureScheme) (blockDump : Blob) :
    Except Err BlockSignatureCheckResult := do
  let result ← deserializeAll readSigned blockDump
  check (scheme.crypto_check_sign_data result.sign result.pubkey result.block) "Not validate"
  scheme.checkAddress result.pubkey result.address
  pure result

end SignatureScheme

variable {scheme : SignatureScheme}

/-- `makeFirstPartBlockSign(blockSize)` -/
def makeFirstPartBlockSign (blockSize : UInt64) : Bytes := serializeUInt64 blockSize

/-- A signature with the key and the address, as they stand behind a block. -/
def PrivateKey.signature (key : PrivateKey scheme) (sign : Blob) : Bytes :=
  serializeString sign ++ serializeString key.pubk ++ serializeString key.address

/-- `makeBlockSign(blockDump, privateKey)` -/
def makeBlockSign (blockDump : Blob) (key : PrivateKey scheme) (random : Nat) : Except Err Bytes := do
  let sign ← key.sign random blockDump
  pure (key.signature sign)

/-- What a node serves block dumps from, when it answers a request. -/
structure DumpServer (scheme : SignatureScheme) where
  modules : Modules
  /-- The newest blocks, by hash. -/
  blockDumpCache : OrdMap Blob Blob
  files : OrdMap Blob Bytes
  privateKey : Option (PrivateKey scheme)
  /-- What is drawn for the signature of a block in this request. -/
  random : Blob → Nat

/-- The node at another request. -/
def DumpServer.drawing (s : DumpServer scheme) (random : Blob → Nat) : DumpServer scheme :=
  { s with random }

/-- `std::string::substr(pos, count)` -/
def substr (str : Blob) (pos count : UInt64) : Except Err Blob :=
  if str.size < pos.toNat then .error (.std "out_of_range")
  else Blob.ofBytes ((str.val.drop pos.toNat).take count.toNat)

/-- The size in front of the part that starts the block, the signature behind the one that ends it. -/
def signPart (key : PrivateKey scheme) (random : Nat) (fromByte toByte : UInt64) (res : Blob)
    (realSizeBlock : UInt64) (fullBlockDump : Blob) : Except Err Bytes := do
  let first := if fromByte = 0 then makeFirstPartBlockSign realSizeBlock else []
  let last ← if toByte ≥ realSizeBlock then makeBlockSign fullBlockDump key random else pure []
  pure (first ++ res.val ++ last)

namespace DumpServer

/-- The part of the dump, the size of the block, and the block where it has to be signed. -/
def loadDump (s : DumpServer scheme) (hash : Blob) (filePos : FilePosition)
    (fromByte toByte : UInt64) (isSign : Bool) : Except Err (Blob × UInt64 × Blob) :=
  match s.blockDumpCache.find? hash with
  | none => do
    check (!filePos.fileNameRelative.isEmpty) "Empty file name in block header"
    match s.files.find? filePos.fileNameRelative with
    | none => .error (.exception "Not opened file")
    | some file => do
      let (size_block, dumpBlock) ← TorrentNode.getBlockDump file filePos.pos fromByte toByte
      if isSign ∧ toByte ≥ size_block ∧ fromByte ≠ 0 then do
        let (_, fullBlockDump) ← TorrentNode.getBlockDump file filePos.pos 0 toByte
        pure (dumpBlock, size_block, fullBlockDump)
      else pure (dumpBlock, size_block, dumpBlock)
  | some element => do
    let res ← substr element fromByte (toByte - fromByte)
    pure (res, UInt64.ofNat element.size, element)

/-- `getBlockDump(hash, filePos, fromByte, toByte, isHex, isSign)` -/
def getBlockDump (s : DumpServer scheme) (hash : Blob) (filePos : FilePosition)
    (fromByte toByte : UInt64) (isHex isSign : Bool) : Except Err Blob := do
  check (s.modules.block && s.modules.blockRaw) "modules block block_raw not set"
  let (res, realSizeBlock, fullBlockDump) ← s.loadDump hash filePos fromByte toByte isSign
  let signed : Bytes ←
    if isSign then
      match s.privateKey with
      | none => .error (.exception "Private key not set")
      | some key => signPart key (s.random hash) fromByte toByte res realSizeBlock fullBlockDump
    else pure res.val
  Blob.ofBytes (if isHex then ascii (toHex signed).toList else signed)

end DumpServer

/-! ## The node that loads the block -/

/-- What the client adds to the size of a dump that is asked for with its signature. -/
def ESTIMATE_SIZE_SIGNATURE : Nat := 250

/--
`checkErrorGetBlockDumpResponse`: `jsonError` is what rapidjson and the member
`error` have to say about a text in braces.
-/
def checkErrorGetBlockDumpResponse (jsonError : Bytes → Option String) (response : Blob)
    (manyBlocks isSign isCompress : Bool) (sizeDump : Nat) : Option String :=
  let braces := decide (response.size ≤ 512) && response.val.head? == some 123 &&
    response.val.getLast? == some 125
  match if braces then jsonError response.val else none with
  | some e => some e
  | none =>
    if !manyBlocks && !isSign && !isCompress && response.size != sizeDump then
      some "Incorrect response"
    else none

/-- `parseDumpBlockResponse`, and the `CHECK` on its error in `requestImpl`. -/
def parseDumpBlockResponse (jsonError : Bytes → Option String) (manyBlocks isSign isCompress : Bool)
    (result : Blob) (segment : Segment) : Except Err Blob :=
  if result.isEmpty then .ok ∅
  else
    match checkErrorGetBlockDumpResponse jsonError result manyBlocks isSign isCompress
        (segment.toByte - segment.fromByte) with
    | some e => .error (.exception e)
    | none => .ok result

/-- The segments that a signed block of this size is asked for in. -/
def signedSegments (blockSize maxServers : Nat) : Except Err (List Segment) :=
  makeSegments (countSegments (blockSize + ESTIMATE_SIZE_SIGNATURE) MIN_RESPONSE_SIZE maxServers)
    (blockSize + ESTIMATE_SIZE_SIGNATURE) MIN_RESPONSE_SIZE

/--
`getBlockDumpWithoutAdvancedLoad(blockHash, blockSize, …, isSign)` and
`checkSignatureBlock`, each segment being answered by `serve`.
-/
def loadSigned (scheme : SignatureScheme) (jsonError : Bytes → Option String)
    (serve : Segment → Except Err Blob) (blockSize maxServers : Nat) :
    Except Err BlockSignatureCheckResult := do
  let segments ← signedSegments blockSize maxServers
  let answers ← segments.mapM (fun segment => do
    let result ← serve segment
    parseDumpBlockResponse jsonError false true false result segment)
  let whole ← Blob.ofBytes (answers.flatMap Subtype.val)
  scheme.checkSignatureBlock whole

/-- A request for a segment of a signed dump, answered by this node. -/
def DumpServer.serve (s : DumpServer scheme) (hash : Blob) (filePos : FilePosition)
    (segment : Segment) : Except Err Blob :=
  s.getBlockDump hash filePos (UInt64.ofNat segment.fromByte) (UInt64.ofNat segment.toByte) false true

/-! ## What a node answers -/

/-- A node that has the block `B`, in its cache or in a file. -/
def DumpServer.Holds (s : DumpServer scheme) (hash : Blob) (filePos : FilePosition) (B : Blob)
    (cached : Bool) : Prop :=
  if cached then s.blockDumpCache.find? hash = some B
  else s.blockDumpCache.find? hash = none ∧ filePos.fileNameRelative.isEmpty = false ∧
    ∃ before behind, (before ++ blockFraming.frame B.val ++ behind).length < 2 ^ 63 ∧
      s.files.find? filePos.fileNameRelative = some (before ++ blockFraming.frame B.val ++ behind) ∧
      filePos.pos = UInt64.ofNat before.length

/-- A node that serves the block `B` and signs it, out of its cache or out of a file. -/
structure Serving (s : DumpServer scheme) (hash : Blob) (filePos : FilePosition) (B : Blob)
    (key : PrivateKey scheme) (cached : Bool) : Prop where
  modules : (s.modules.block && s.modules.blockRaw) = true
  signs : s.privateKey = some key
  made : key.Made
  holds : s.Holds hash filePos B cached

/-- The bytes from `fromByte` to `toByte` of a block with this signature. -/
def signedPart (key : PrivateKey scheme) (sign B : Blob) (fromByte toByte : Nat) : Bytes :=
  (if fromByte = 0 then serializeInt sizeofSizeT B.size else []) ++
    ((B.val.drop fromByte).take (toByte - fromByte)) ++
    (if B.size ≤ toByte then key.signature sign else [])

/-- What a request for these bytes is answered with. -/
def signedAnswer (key : PrivateKey scheme) (random : Nat) (B : Blob) (fromByte toByte : Nat) :
    Except Err Bytes :=
  if B.size ≤ toByte then do
    let sign ← key.sign random B
    pure (signedPart key sign B fromByte toByte)
  else pure (signedPart key ∅ B fromByte toByte)

section

variable {s : DumpServer scheme} {hash B : Blob} {filePos : FilePosition} {key : PrivateKey scheme}
  {cached : Bool} {a b : Nat}

/-- The part of the block, and what the signature is made over. -/
theorem loadDump_ok (isSign : Bool) (h : s.Holds hash filePos B cached) (hab : a ≤ b)
    (hb : b < 2 ^ 64) (hin : ¬ (cached = true ∧ B.size < a)) :
    ∃ res size full, s.loadDump hash filePos (UInt64.ofNat a) (UInt64.ofNat b) isSign =
        .ok (res, size, full) ∧ res.val = (B.val.drop a).take (b - a) ∧
      (a = 0 → size = UInt64.ofNat B.size) ∧
      (UInt64.ofNat b ≥ size ↔ B.size ≤ b) ∧ (isSign = true → B.size ≤ b → full = B) := by
  have hsize := B.property
  have ha' : (UInt64.ofNat a).toNat = a := toNat_ofNat_of_lt (by omega)
  have hb' : (UInt64.ofNat b).toNat = b := toNat_ofNat_of_lt hb
  have hB' : (UInt64.ofNat B.size).toNat = B.size := toNat_ofNat_of_lt (by rw [Blob.size]; omega)
  have hreach : UInt64.ofNat b ≥ UInt64.ofNat B.size ↔ B.size ≤ b := by
    rw [ge_iff_le, UInt64.le_iff_toNat_le, hb', hB']
  have hle : UInt64.ofNat a ≤ UInt64.ofNat b := by rw [UInt64.le_iff_toNat_le, ha', hb']; exact hab
  unfold DumpServer.Holds at h
  -- A cached dump is cut in memory, any other is read from its file.
  cases cached with
  | true =>
    rw [if_pos rfl] at h
    have hlen : ((B.val.drop a).take (b - a)).length < 2 ^ 63 := by
      rw [List.length_take, List.length_drop]; omega
    have hsub : substr B (UInt64.ofNat a) (UInt64.ofNat b - UInt64.ofNat a)
        = .ok ⟨(B.val.drop a).take (b - a), hlen⟩ := by
      rw [substr, ha', if_neg (fun hlt => hin ⟨rfl, hlt⟩), UInt64.toNat_sub_of_le _ _ hle, ha', hb',
        Blob.ofBytes, dif_pos hlen]
    refine ⟨⟨_, hlen⟩, UInt64.ofNat B.size, B, ?_, rfl, fun _ => rfl, hreach, fun _ _ => rfl⟩
    simp only [DumpServer.loadDump, h, hsub]
    rfl
  | false =>
    rw [if_neg (by simp)] at h
    obtain ⟨hnone, hname, before, behind, hfit, hfile, hpos⟩ := h
    obtain ⟨res, hres, hget⟩ := getBlockDump_part hfit hab hb
    obtain ⟨whole, hwhole, hget0⟩ := getBlockDump_part hfit (Nat.zero_le b) hb
    have hall : ∀ c : Blob, B.size ≤ b → c.val = (B.val.drop 0).take (b - 0) → c = B := by
      intro c hc hval
      apply Subtype.ext
      rw [hval, List.drop_zero]
      exact List.take_of_length_le hc
    -- behind the end of the block its size is not told
    generalize htold : (if a < B.val.length then UInt64.ofNat B.val.length else 0) = size at hget
    have hfirst : a = 0 → size = UInt64.ofNat B.size := by
      intro hz
      rw [← htold]
      split
      · rfl
      · have hzero : B.size = 0 := by rw [Blob.size]; omega
        rw [hzero]
        rfl
    have hreach' : UInt64.ofNat b ≥ size ↔ B.size ≤ b := by
      rw [← htold]
      split
      · exact hreach
      · have hpast : B.size ≤ b := by rw [Blob.size]; omega
        exact iff_of_true (by rw [ge_iff_le, UInt64.le_iff_toNat_le]; exact Nat.zero_le _) hpast
    have hload : s.loadDump hash filePos (UInt64.ofNat a) (UInt64.ofNat b) isSign =
        if isSign = true ∧ UInt64.ofNat b ≥ size ∧ UInt64.ofNat a ≠ 0 then .ok (res, size, whole)
        else .ok (res, size, res) := by
      have hget0' : TorrentNode.getBlockDump (before ++ blockFraming.frame B.val ++ behind)
          (UInt64.ofNat before.length) 0 (UInt64.ofNat b) = _ := hget0
      simp only [DumpServer.loadDump, hnone, hname, hfile, hpos, hget, hget0', Bool.not_false,
        check_true]
      rfl
    -- The whole block is read again where it is to be signed and was asked for in part.
    by_cases hend : isSign = true ∧ UInt64.ofNat b ≥ size ∧ UInt64.ofNat a ≠ 0
    · exact ⟨res, size, whole, by rw [hload, if_pos hend], hres, hfirst, hreach',
        fun _ hc => hall whole hc hwhole⟩
    · refine ⟨res, size, res, by rw [hload, if_neg hend], hres, hfirst, hreach', ?_⟩
      intro hs hc
      obtain rfl : a = 0 := by
        by_contra hne
        exact hend ⟨hs, hreach'.mpr hc, fun he => hne (by rw [← ha', he]; rfl)⟩
      exact hall res hc hres

/-- A part that starts behind a cached block cannot be answered. -/
theorem loadDump_cached_error (isSign : Bool) (h : s.Holds hash filePos B true) (hout : B.size < a)
    (ha : a < 2 ^ 64) :
    s.loadDump hash filePos (UInt64.ofNat a) (UInt64.ofNat b) isSign =
      .error (.std "out_of_range") := by
  unfold DumpServer.Holds at h
  rw [if_pos rfl] at h
  have hsub : substr B (UInt64.ofNat a) (UInt64.ofNat b - UInt64.ofNat a)
      = .error (.std "out_of_range") := by
    rw [substr, toNat_ofNat_of_lt ha, if_pos hout]
  simp only [DumpServer.loadDump, h, hsub]
  rfl

/-- The part with its size and its signature, once it is loaded. -/
theorem signPart_eq {random : Nat} {res full : Blob} {size : UInt64} (ha : a < 2 ^ 64)
    (hres : res.val = (B.val.drop a).take (b - a)) (hfirst : a = 0 → size = UInt64.ofNat B.size)
    (hreach : UInt64.ofNat b ≥ size ↔ B.size ≤ b) (hfull : B.size ≤ b → full = B) :
    signPart key random (UInt64.ofNat a) (UInt64.ofNat b) res size full =
      signedAnswer key random B a b := by
  have hzero : UInt64.ofNat a = 0 ↔ a = 0 := by
    rw [← UInt64.toNat_inj, toNat_ofNat_of_lt ha]
    rfl
  have hstart : (if UInt64.ofNat a = 0 then makeFirstPartBlockSign size else []) =
      if a = 0 then serializeInt sizeofSizeT B.size else [] := by
    by_cases hz : a = 0
    · rw [if_pos hz, if_pos (hzero.mpr hz), hfirst hz, makeFirstPartBlockSign, serializeUInt64,
        toNat_ofNat_of_lt (by have := B.property; rw [Blob.size]; omega)]
    · rw [if_neg hz, if_neg (fun he => hz (hzero.mp he))]
  unfold signPart signedAnswer
  rw [hstart]
  by_cases hr : B.size ≤ b
  · rw [if_pos hr, if_pos (hreach.mpr hr), hfull hr, makeBlockSign]
    cases key.sign random B with
    | error e => rfl
    | ok sign =>
      show Except.ok _ = Except.ok _
      rw [signedPart, if_pos hr, hres]
  · rw [if_neg hr, if_neg (fun he => hr (hreach.mp he))]
    show Except.ok _ = Except.ok _
    rw [signedPart, if_neg hr, hres]

/-- **What a node answers** to a request for a part of a signed block. -/
theorem getBlockDump_signed {isHex : Bool} (hmod : (s.modules.block && s.modules.blockRaw) = true)
    (hkey : s.privateKey = some key) (h : s.Holds hash filePos B cached) (hab : a ≤ b)
    (hb : b < 2 ^ 64) :
    s.getBlockDump hash filePos (UInt64.ofNat a) (UInt64.ofNat b) isHex true =
      if cached = true ∧ B.size < a then .error (.std "out_of_range")
      else signedAnswer key (s.random hash) B a b >>= fun bytes =>
        Blob.ofBytes (if isHex then hexBytes bytes else bytes) := by
  by_cases hout : cached = true ∧ B.size < a
  · rw [if_pos hout]
    obtain ⟨rfl, hout⟩ := hout
    simp only [DumpServer.getBlockDump, hmod, check_true, loadDump_cached_error true h hout (by omega)]
    rfl
  · rw [if_neg hout]
    obtain ⟨res, size, full, hload, hres, hfirst, hreach, hfull⟩ := loadDump_ok true h hab hb hout
    rw [← signPart_eq (by omega) hres hfirst hreach (hfull rfl)]
    simp only [DumpServer.getBlockDump, hmod, check_true, hload, hkey]
    rfl

/-- The same for a segment. -/
theorem serve_eq {segment : Segment} (h : Serving s hash filePos B key cached)
    (hab : segment.fromByte ≤ segment.toByte) (hb : segment.toByte < 2 ^ 64) :
    s.serve hash filePos segment =
      if cached = true ∧ B.size < segment.fromByte then .error (.std "out_of_range")
      else signedAnswer key (s.random hash) B segment.fromByte segment.toByte >>= Blob.ofBytes :=
  getBlockDump_signed h.modules h.signs h.holds hab hb

end

/-- A signature ends with the last character of the address. -/
theorem getLast?_signature {key : PrivateKey scheme} (sign : Blob) (hne : key.address ≠ ∅) :
    (key.signature sign).getLast? = key.address.val.getLast? := by
  have hend : key.signature sign = serializeString sign ++ serializeString key.pubk ++
      serializeInt sizeofSizeT key.address.size ++ key.address.val := by
    rw [PrivateKey.signature, List.append_assoc _ (serializeInt _ _)]
    rfl
  rw [hend, List.getLast?_append_of_ne_nil _ (fun he => hne (Subtype.ext he))]

theorem signature_ne_nil (key : PrivateKey scheme) (sign : Blob) : key.signature sign ≠ [] := by
  have hlen := length_serializeString sign
  intro he
  rw [PrivateKey.signature, List.append_assoc, List.append_eq_nil_iff] at he
  rw [he.1, List.length_nil] at hlen
  unfold sizeofSizeT at hlen
  omega

/-- Different signatures look different. -/
theorem signature_injective {key : PrivateKey scheme} {sign sign' : Blob}
    (h : key.signature sign = key.signature sign') : sign = sign' := by
  unfold PrivateKey.signature at h
  have hstrings := List.append_cancel_right (List.append_cancel_right h)
  unfold serializeString at hstrings
  exact Subtype.ext (List.append_inj_right hstrings
    (by rw [length_serializeInt, length_serializeInt]))

/-- There is a zero in every signature: one of those in front of the address. -/
theorem zero_mem_signature (hscheme : scheme.Lawful) {key : PrivateKey scheme} (hmade : key.Made)
    (sign : Blob) : 0 ∈ key.signature sign := by
  refine List.mem_append_right _ (List.mem_append_left _ ?_)
  rcases hmade.size_address hscheme with h | h <;> rw [h] <;> decide

/-- An answer that is long, or does not end with a brace, is taken as it is. -/
theorem parseDumpBlockResponse_ok {jsonError : Bytes → Option String} {result : Blob}
    {segment : Segment} (h : 512 < result.size ∨ result.val.getLast? ≠ some 125) :
    parseDumpBlockResponse jsonError false true false result segment = .ok result := by
  unfold parseDumpBlockResponse
  by_cases he : result.isEmpty = true
  · rw [if_pos he]
    exact congrArg Except.ok (Subtype.ext (Blob.isEmpty_iff.mp he).symm)
  · have hbraces : (decide (result.size ≤ 512) && result.val.head? == some 123 &&
        result.val.getLast? == some 125) = false := by
      rcases h with h | h
      · rw [decide_eq_false (by omega)]; rfl
      · rw [beq_eq_false_iff_ne.mpr h, Bool.and_false]
    rw [if_neg he, checkErrorGetBlockDumpResponse, hbraces]
    rfl

/-! ## The segments put together -/

section

variable {key : PrivateKey scheme} {signs : Segment → Blob} {B : Blob}

/-- The segments that reach the end of a block of this size. -/
def reaching (blockSize : Nat) (segments : List Segment) : List Segment :=
  segments.filter (fun segment => blockSize ≤ segment.toByte)

/-- What a segment is answered with, but for the size in front. -/
def innerPart (key : PrivateKey scheme) (signs : Segment → Blob) (B : Blob) (segment : Segment) :
    Bytes :=
  (B.val.drop segment.fromByte).take (segment.toByte - segment.fromByte) ++
    (if B.size ≤ segment.toByte then key.signature (signs segment) else [])

/-- **Segments in a row put the block together**, with a signature for each that reaches its end. -/
theorem flatMap_innerPart {fromByte last : Nat} {segments : List Segment}
    (h : Contiguous fromByte last segments) (hlast : B.size ≤ last) :
    segments.flatMap (innerPart key signs B) = B.val.drop fromByte ++
      (reaching B.size segments).flatMap (fun segment => key.signature (signs segment)) := by
  induction h with
  | nil n =>
      rw [List.drop_of_length_le hlast]
      rfl
  | @cons segment last rest hle hrest ih =>
      rw [List.flatMap_cons, ih hlast, innerPart, reaching, reaching, List.filter_cons]
      by_cases hr : B.size ≤ segment.toByte
      · have htake : (B.val.drop segment.fromByte).take (segment.toByte - segment.fromByte)
            = B.val.drop segment.fromByte := by
          apply List.take_of_length_le
          rw [List.length_drop]
          have : B.val.length ≤ segment.toByte := hr
          omega
        simp only [if_pos hr, decide_eq_true hr, if_true, htake, List.drop_of_length_le hr,
          List.nil_append, List.flatMap_cons, List.append_assoc]
      · have hsplit : (B.val.drop segment.fromByte).take (segment.toByte - segment.fromByte) ++
            B.val.drop segment.toByte = B.val.drop segment.fromByte := by
          have hd : B.val.drop segment.toByte
              = (B.val.drop segment.fromByte).drop (segment.toByte - segment.fromByte) := by
            rw [List.drop_drop, Nat.add_sub_cancel' hle]
          rw [hd, List.take_append_drop]
        simp only [if_neg hr, decide_eq_false hr, List.append_nil, ← List.append_assoc, hsplit]
        rfl

theorem signedPart_eq (sign : Blob) (segment : Segment) :
    signedPart key sign B segment.fromByte segment.toByte =
      (if segment.fromByte = 0 then serializeInt sizeofSizeT B.size else []) ++
        innerPart key (fun _ => sign) B segment := by
  rw [signedPart, innerPart, List.append_assoc]

/-- The first of the segments starts the block, and no other does. -/
theorem flatMap_signedPart {step size : Nat} (hstep : 0 < step) (hsize : 0 < size)
    (hB : B.size ≤ size) : ∀ n, (segmentsFrom step size n 0 0).flatMap
      (fun segment => signedPart key (signs segment) B segment.fromByte segment.toByte) =
    serializeString B ++ (reaching B.size (segmentsFrom step size n 0 0)).flatMap
      (fun segment => key.signature (signs segment)) := by
  intro n
  have hinner : (segmentsFrom step size n 0 0).flatMap (innerPart key signs B) = _ :=
    flatMap_innerPart (contiguous_segmentsFrom step size n 0 0 (Nat.zero_le size)) hB
  have hfirst : (segmentsFrom step size n 0 0).flatMap
      (fun segment => signedPart key (signs segment) B segment.fromByte segment.toByte) =
      serializeInt sizeofSizeT B.size ++
        (segmentsFrom step size n 0 0).flatMap (innerPart key signs B) := by
    cases n with
    | zero =>
        simp only [segmentsFrom, List.flatMap_cons, List.flatMap_nil, List.append_nil, signedPart_eq,
          if_true, innerPart]
    | succ n =>
        have hrest : ∀ segment ∈ segmentsFrom step size n 1 (min (0 + step) size),
            signedPart key (signs segment) B segment.fromByte segment.toByte =
              innerPart key signs B segment := by
          intro segment hs
          obtain ⟨hfrom, -⟩ := mem_segmentsFrom (Nat.min_le_right _ _) hs
          rw [signedPart_eq, if_neg (by omega), List.nil_append]
          rfl
        rw [segmentsFrom, List.flatMap_cons, List.flatMap_cons, List.flatMap_congr hrest,
          signedPart_eq, if_pos rfl, List.append_assoc]
        rfl
  rw [hfirst, hinner, List.drop_zero, serializeString, List.append_assoc]

/-- The last of the segments reaches the end of the block. -/
theorem reaching_ne_nil {step size : Nat} (hB : B.size ≤ size) (n : Nat) :
    reaching B.size (segmentsFrom step size n 0 0) ≠ [] := by
  have hlast := getLast?_segmentsFrom step size n 0 0 (Nat.zero_le size)
  exact List.ne_nil_of_mem
    (List.mem_filter.mpr ⟨List.mem_of_getLast? hlast, decide_eq_true hB⟩)

end

/-! ## The segments of a signed block -/

/-- The number of segments that a signed block is asked for in. -/
def signedCount (blockSize maxServers : Nat) : Nat :=
  countSegments (blockSize + ESTIMATE_SIZE_SIGNATURE) MIN_RESPONSE_SIZE maxServers

/-- How long they are, but for the last. -/
def signedStep (blockSize maxServers : Nat) : Nat :=
  segmentStep (signedCount blockSize maxServers) (blockSize + ESTIMATE_SIZE_SIGNATURE)
    MIN_RESPONSE_SIZE

theorem signedStep_pos (blockSize maxServers : Nat) : 0 < signedStep blockSize maxServers := by
  unfold signedStep segmentStep ESTIMATE_SIZE_SIGNATURE MIN_RESPONSE_SIZE
  omega

/-- The segments that a signed block of this size is asked for in. -/
def signedList (blockSize maxServers : Nat) : List Segment :=
  segmentsFrom (signedStep blockSize maxServers) (blockSize + ESTIMATE_SIZE_SIGNATURE)
    (signedCount blockSize maxServers - 1) 0 0

theorem signedSegments_eq (blockSize maxServers : Nat) :
    signedSegments blockSize maxServers = .ok (signedList blockSize maxServers) := by
  have hstep : (signedStep blockSize maxServers != 0) = true :=
    bne_iff_ne.mpr (Nat.pos_iff_ne_zero.mp (signedStep_pos blockSize maxServers))
  unfold signedStep signedCount at hstep
  rw [signedSegments, makeSegments, hstep]
  rfl

/-- A segment that does not reach the end of the block is at least as long as an answer may be. -/
theorem long_of_not_reaching {blockSize maxServers : Nat} {segment : Segment}
    (hs : segment ∈ signedList blockSize maxServers) (hend : segment.toByte < blockSize) :
    segment.toByte = segment.fromByte + signedStep blockSize maxServers ∧
      MIN_RESPONSE_SIZE ≤ signedStep blockSize maxServers := by
  obtain ⟨-, -, -, -, hstep⟩ := mem_segmentsFrom (Nat.zero_le _) hs
  have he := hstep (by omega)
  refine ⟨he, ?_⟩
  have hlt : signedStep blockSize maxServers < blockSize + ESTIMATE_SIZE_SIGNATURE := by omega
  unfold signedStep segmentStep at hlt ⊢
  omega

/-- No segment starts behind the end of the block exactly if the last does not. -/
theorem starts_within_iff {blockSize maxServers : Nat} :
    (∀ segment ∈ signedList blockSize maxServers, segment.fromByte ≤ blockSize) ↔
      (signedCount blockSize maxServers - 1) * signedStep blockSize maxServers ≤ blockSize := by
  constructor
  · intro hall
    have hlast := hall _
      (List.mem_of_getLast? (getLast?_segmentsFrom _ _ _ 0 0 (Nat.zero_le _)))
    dsimp only at hlast
    unfold ESTIMATE_SIZE_SIGNATURE at hlast
    omega
  · intro hlast segment hs
    obtain ⟨-, -, -, hfrom, -⟩ := mem_segmentsFrom (Nat.zero_le _) hs
    omega

theorem flatMap_signedList {key : PrivateKey scheme} {signs : Segment → Blob} {B : Blob}
    {maxServers : Nat} : (signedList B.size maxServers).flatMap
      (fun segment => signedPart key (signs segment) B segment.fromByte segment.toByte) =
    serializeString B ++ (reaching B.size (signedList B.size maxServers)).flatMap
      (fun segment => key.signature (signs segment)) :=
  flatMap_signedPart (signedStep_pos B.size maxServers)
    (by unfold ESTIMATE_SIZE_SIGNATURE; omega) (Nat.le_add_right _ _) _

theorem parse_signedPart {key : PrivateKey scheme} {sign B result : Blob}
    {jsonError : Bytes → Option String} {maxServers : Nat} {segment : Segment}
    (hscheme : scheme.Lawful) (hmade : key.Made) (hs : segment ∈ signedList B.size maxServers)
    (hres : result.val = signedPart key sign B segment.fromByte segment.toByte) :
    parseDumpBlockResponse jsonError false true false result segment = .ok result := by
  apply parseDumpBlockResponse_ok
  rcases Nat.lt_or_ge segment.toByte B.size with hlt | hge
  · left
    obtain ⟨hstep, hlong⟩ := long_of_not_reaching hs hlt
    have hlen := congrArg List.length hres
    rw [signedPart, List.length_append, List.length_append, List.length_take, List.length_drop]
      at hlen
    unfold MIN_RESPONSE_SIZE at hlong
    unfold Blob.size at hlt ⊢
    omega
  · right
    obtain ⟨hne, hbrace⟩ := hmade.no_brace hscheme
    rw [hres, signedPart, if_pos hge, List.getLast?_append_of_ne_nil _ (signature_ne_nil key sign),
      getLast?_signature sign hne]
    exact fun he => hbrace (List.mem_of_getLast? he)

/-! ## What is loaded -/

/-- **Answers put together**, each of them known. -/
theorem concat_eq_ok {α : Type} {f : α → Except Err Blob} {P : α → Prop} {part : α → Bytes}
    {l : List α} (hf : ∀ a ∈ l, ∀ {answer}, f a = .ok answer ↔ P a ∧ answer.val = part a)
    {whole : Blob} :
    (l.mapM f >>= fun answers => Blob.ofBytes (answers.flatMap Subtype.val)) = .ok whole ↔
      (∀ a ∈ l, P a) ∧ whole.val = l.flatMap part := by
  rw [bind_eq_ok]
  constructor
  · rintro ⟨answers, hanswers, hwhole⟩
    have hall := forall₂_of_mapM hanswers
    refine ⟨fun a ha => ?_, ?_⟩
    · obtain ⟨answer, hanswer⟩ := exists_of_forall₂ hall ha
      exact ((hf a ha).mp hanswer).1
    · rw [Blob.ofBytes_eq_ok.mp hwhole]
      exact flatMap_of_forall₂ hall (fun a answer ha he => ((hf a ha).mp he).2)
  · rintro ⟨hall, hwhole⟩
    have hshort : ∀ a ∈ l, (part a).length < 2 ^ 63 := by
      intro a ha
      have hsub : (part a).length ≤ (l.flatMap part).length :=
        (List.sublist_flatten_of_mem (List.mem_map_of_mem ha)).length_le
      have := whole.property
      rw [hwhole] at this
      omega
    have hone : ∀ a ∈ l, f a = .ok (if h : (part a).length < 2 ^ 63 then ⟨part a, h⟩ else ∅) := by
      intro a ha
      rw [dif_pos (hshort a ha)]
      exact (hf a ha).mpr ⟨hall a ha, rfl⟩
    refine ⟨_, mapM_eq_ok hone, Blob.ofBytes_eq_ok.mpr ?_⟩
    rw [hwhole, List.flatMap_map]
    refine List.flatMap_congr (fun a ha => ?_)
    rw [dif_pos (hshort a ha)]

section

variable {key : PrivateKey scheme} {B : Blob}

/-- The signature that a request draws. -/
def drawnSign (key : PrivateKey scheme) (B : Blob) (random : Nat) : Blob :=
  (key.sign random B).toOption.getD ∅

/-- Every segment that reaches the end of the block can be signed. -/
def Signable (key : PrivateKey scheme) (B : Blob) (draws : Segment → Nat) (segments : List Segment) :
    Prop :=
  ∀ segment ∈ reaching B.size segments, ∃ sign, key.sign (draws segment) B = .ok sign

/-- The answers, put together, fit into one string. -/
def Fits (key : PrivateKey scheme) (B : Blob) (draws : Segment → Nat) (segments : List Segment) :
    Prop :=
  (serializeString B ++ (reaching B.size segments).flatMap
    (fun segment => key.signature (drawnSign key B (draws segment)))).length < 2 ^ 63

/-- A part that can be signed is answered with the signature that is drawn. -/
theorem signedAnswer_eq_ok {random a b : Nat} {bytes : Bytes} :
    signedAnswer key random B a b = .ok bytes ↔
      (B.size ≤ b → ∃ sign, key.sign random B = .ok sign) ∧
        bytes = signedPart key (drawnSign key B random) B a b := by
  unfold signedAnswer
  by_cases hr : B.size ≤ b
  · rw [if_pos hr, bind_eq_ok]
    constructor
    · rintro ⟨sign, hsign, hbytes⟩
      cases hbytes
      rw [drawnSign, hsign]
      exact ⟨fun _ => ⟨sign, rfl⟩, rfl⟩
    · rintro ⟨hsign, rfl⟩
      obtain ⟨sign, hsign⟩ := hsign hr
      rw [drawnSign, hsign]
      exact ⟨sign, rfl, rfl⟩
  · rw [if_neg hr, signedPart, signedPart, if_neg hr, if_neg hr]
    exact ⟨fun he => ⟨fun hc => absurd hc hr, (Except.ok.inj he).symm⟩, fun he => congrArg _ he.2.symm⟩

variable {s : DumpServer scheme} {hash : Blob} {filePos : FilePosition} {cached : Bool}
  {jsonError : Bytes → Option String} {maxServers : Nat} {draws : Segment → Blob → Nat}

/-- What the client has of a segment. -/
theorem answer_eq_ok (hscheme : scheme.Lawful) (h : Serving s hash filePos B key cached)
    {segment : Segment} (hs : segment ∈ signedList B.size maxServers) {answer : Blob} :
    (do let result ← (s.drawing (draws segment)).serve hash filePos segment
        parseDumpBlockResponse jsonError false true false result segment) = .ok answer ↔
      (cached = true → segment.fromByte ≤ B.size) ∧
      (B.size ≤ segment.toByte → ∃ sign, key.sign (draws segment hash) B = .ok sign) ∧
      answer.val = signedPart key (drawnSign key B (draws segment hash)) B segment.fromByte
        segment.toByte := by
  have hsize := B.property
  obtain ⟨-, hle, hto, -⟩ := mem_segmentsFrom (Nat.zero_le _) hs
  have hserving : Serving (s.drawing (draws segment)) hash filePos B key cached :=
    ⟨h.modules, h.signs, h.made, h.holds⟩
  rw [serve_eq hserving hle (by unfold Blob.size ESTIMATE_SIZE_SIGNATURE at hto; omega)]
  by_cases hout : cached = true ∧ B.size < segment.fromByte
  · rw [if_pos hout]
    exact iff_of_false (fun he => by cases he) (fun he => by have := he.1 hout.1; omega)
  · rw [if_neg hout, bind_eq_ok]
    have hin : cached = true → segment.fromByte ≤ B.size :=
      fun hc => Nat.le_of_not_lt (fun hlt => hout ⟨hc, hlt⟩)
    constructor
    · rintro ⟨result, hresult, hanswer⟩
      obtain ⟨bytes, hbytes, hresult⟩ := bind_eq_ok.mp hresult
      obtain ⟨hsign, rfl⟩ := signedAnswer_eq_ok.mp hbytes
      have hval := Blob.ofBytes_eq_ok.mp hresult
      rw [parse_signedPart hscheme h.made hs hval] at hanswer
      cases hanswer
      exact ⟨hin, hsign, hval⟩
    · rintro ⟨-, hsign, hval⟩
      exact ⟨answer, bind_eq_ok.mpr ⟨_, signedAnswer_eq_ok.mpr ⟨hsign, rfl⟩,
        Blob.ofBytes_eq_ok.mpr hval⟩, parse_signedPart hscheme h.made hs hval⟩

/-- **What the client puts together**, and when it has all of it. -/
theorem loadSigned_eq_ok (hscheme : scheme.Lawful) (h : Serving s hash filePos B key cached)
    {r : BlockSignatureCheckResult} :
    loadSigned scheme jsonError
        (fun segment => (s.drawing (draws segment)).serve hash filePos segment) B.size maxServers =
        .ok r ↔
      ((cached = true → (signedCount B.size maxServers - 1) * signedStep B.size maxServers ≤ B.size) ∧
        Signable key B (fun segment => draws segment hash) (signedList B.size maxServers)) ∧
      ∃ whole : Blob, whole.val = serializeString B ++
          (reaching B.size (signedList B.size maxServers)).flatMap
            (fun segment => key.signature (drawnSign key B (draws segment hash))) ∧
        scheme.checkSignatureBlock whole = .ok r := by
  have hflat := @flatMap_signedList scheme key (fun segment => drawnSign key B (draws segment hash)) B
    maxServers
  -- What one segment brings: its part, and the signature if it reaches the end.
  have hone : ∀ segment ∈ signedList B.size maxServers, ∀ {answer},
      (do let result ← (s.drawing (draws segment)).serve hash filePos segment
          parseDumpBlockResponse jsonError false true false result segment) = .ok answer ↔
        ((cached = true → segment.fromByte ≤ B.size) ∧
          (B.size ≤ segment.toByte → ∃ sign, key.sign (draws segment hash) B = .ok sign)) ∧
        answer.val = signedPart key (drawnSign key B (draws segment hash)) B segment.fromByte
          segment.toByte := by
    intro segment hs answer
    rw [answer_eq_ok hscheme h hs, and_assoc]
  -- Of the starts, the last one is the greatest.
  have hcond : (∀ segment ∈ signedList B.size maxServers,
      (cached = true → segment.fromByte ≤ B.size) ∧
      (B.size ≤ segment.toByte → ∃ sign, key.sign (draws segment hash) B = .ok sign)) ↔
      (cached = true → (signedCount B.size maxServers - 1) * signedStep B.size maxServers ≤ B.size) ∧
        Signable key B (fun segment => draws segment hash) (signedList B.size maxServers) := by
    rw [← starts_within_iff]
    unfold Signable reaching
    simp only [List.mem_filter, decide_eq_true_eq]
    grind
  rw [loadSigned, signedSegments_eq, ← hcond]
  constructor
  · intro hload
    obtain ⟨segments, he, hload⟩ := bind_eq_ok.mp hload
    cases he
    obtain ⟨answers, hanswers, hload⟩ := bind_eq_ok.mp hload
    obtain ⟨whole, hwhole, hcheck⟩ := bind_eq_ok.mp hload
    obtain ⟨hall, hval⟩ := (concat_eq_ok hone).mp (bind_eq_ok.mpr ⟨answers, hanswers, hwhole⟩)
    exact ⟨hall, whole, hval.trans hflat, hcheck⟩
  · rintro ⟨hall, whole, hval, hcheck⟩
    obtain ⟨answers, hanswers, hwhole⟩ :=
      bind_eq_ok.mp ((concat_eq_ok hone).mpr ⟨hall, hval.trans hflat.symm⟩)
    exact bind_eq_ok.mpr ⟨_, rfl, bind_eq_ok.mpr ⟨answers, hanswers,
      bind_eq_ok.mpr ⟨whole, hwhole, hcheck⟩⟩⟩

/-- The strings of a signed block read back, whatever stands behind them. -/
theorem checkSignatureBlock_signed {sign whole : Blob} {rest : Bytes}
    (h : whole.val = serializeString B ++ (key.signature sign ++ rest)) :
    scheme.checkSignatureBlock whole = (do
      check (scheme.crypto_check_sign_data sign key.pubk B) "Not validate"
      scheme.checkAddress key.pubk key.address
      pure { block := B, sign, pubkey := key.pubk, address := key.address }) := by
  have hreads : Reads SignatureScheme.readSigned (serializeString B ++ key.signature sign)
      { block := B, sign, pubkey := key.pubk, address := key.address } := by
    rw [PrivateKey.signature, List.append_assoc]
    exact (reads_string B).bind ((reads_string _).bind ((reads_string _).bind (reads_string _).map))
  have hrun := hreads whole.val 0 rest whole.property (by rw [List.drop_zero, h, List.append_assoc])
  have hall : deserializeAll SignatureScheme.readSigned whole =
      .ok { block := B, sign, pubkey := key.pubk, address := key.address } := by
    rw [deserializeAll, hrun]
    rfl
  rw [SignatureScheme.checkSignatureBlock, hall]
  rfl

/-- **When a signature checks**, in a scheme that keeps its promises. -/
theorem checks_iff (hscheme : scheme.Lawful) (hmade : key.Made) {random : Nat} {sign : Blob}
    (hsign : key.sign random B = .ok sign) :
    (scheme.crypto_check_sign_data sign key.pubk B = true ∧
        scheme.checkAddress key.pubk key.address = .ok ()) ↔
      key.Checkable ∧ B.size < 2 ^ 31 := by
  unfold SignatureScheme.crypto_check_sign_data PrivateKey.Checkable
  -- A key from bare bytes is a point, which is no public key for the check;
  rcases hmade.cases with ⟨hsecp, hpoint, -⟩ | ⟨hsecp, hwritten, -⟩
  · rw [hscheme.point hpoint, hsecp]
    simp
  -- any other has to name its own address and sign a length that fits into an `int`.
  · have haddress : scheme.checkAddress key.pubk key.address =
        check (decide (scheme.get_address key.pubk = key.address)) "Not validate" := by
      rw [SignatureScheme.checkAddress, SignatureScheme.makeAddressFromSecpKey,
        hscheme.written hwritten]
      rfl
    have howned : check (decide (scheme.get_address key.pubk = key.address)) "Not validate" = .ok () ↔
        scheme.get_address key.pubk = key.address := by
      by_cases he : scheme.get_address key.pubk = key.address
      · rw [decide_eq_true he]
        exact iff_of_true rfl he
      · rw [decide_eq_false he]
        exact iff_of_false (by decide) he
    rw [PrivateKey.sign, hsecp, if_neg Bool.false_ne_true, SignatureScheme.crypto_sign_data] at hsign
    rw [haddress, howned, hsecp, Bool.and_eq_true]
    split at hsign
    · rename_i hint
      -- what is signed is the whole block only if its length fits into an `int`
      have hwhole : B.val = B.val.take (B.size % 2 ^ 32) ↔ B.size < 2 ^ 31 := by
        constructor
        · intro he
          have hlen := congrArg List.length he
          rw [List.length_take] at hlen
          unfold Blob.size at hint hlen ⊢
          omega
        · intro hlt
          rw [Nat.mod_eq_of_lt (by omega)]
          exact (List.take_length).symm
      constructor
      · rintro ⟨⟨hec, hverify⟩, haddr⟩
        exact ⟨⟨rfl, hec, haddr⟩, hwhole.mp ((hscheme.signed hwritten hec hsign B).mp hverify)⟩
      · rintro ⟨⟨-, hec, haddr⟩, hlt⟩
        exact ⟨⟨hec, (hscheme.signed hwritten hec hsign B).mpr (hwhole.mpr hlt)⟩, haddr⟩
    · cases hsign

/-- The signatures of the segments that reach the end, the first of them apart. -/
theorem exists_reaching (B : Blob) (maxServers : Nat) : ∃ first more,
    reaching B.size (signedList B.size maxServers) = first :: more ∧
      first ∈ signedList B.size maxServers := by
  cases he : reaching B.size (signedList B.size maxServers) with
  | nil => exact absurd he (reaching_ne_nil (Nat.le_add_right _ _) _)
  | cons first more =>
    have hmem : first ∈ reaching B.size (signedList B.size maxServers) := by
      rw [he]
      exact List.mem_cons_self
    exact ⟨first, more, rfl, (List.mem_filter.mp hmem).1⟩

/--
**Signed blocks in segments.** A node that loads a signed block gets the block with its
signature exactly when the key of the serving node can be checked, the length of the block
fits into an `int`, every request that needs a signature gets one, the answers fit into a
string and, if the serving node has the block in its cache, the last segment does not start
behind the block's end.
-/
theorem loadSigned_iff (hscheme : scheme.Lawful) (h : Serving s hash filePos B key cached) :
    (∃ segment sign, segment ∈ signedList B.size maxServers ∧
      key.sign (draws segment hash) B = .ok sign ∧
      loadSigned scheme jsonError
        (fun segment => (s.drawing (draws segment)).serve hash filePos segment) B.size maxServers =
        .ok { block := B, sign, pubkey := key.pubk, address := key.address }) ↔
      (key.Checkable ∧ B.size < 2 ^ 31) ∧
      (cached = true → (signedCount B.size maxServers - 1) * signedStep B.size maxServers ≤ B.size) ∧
      Signable key B (fun segment => draws segment hash) (signedList B.size maxServers) ∧
      Fits key B (fun segment => draws segment hash) (signedList B.size maxServers) := by
  obtain ⟨first, more, hreaching, hfirst⟩ := exists_reaching B maxServers
  -- the signature that is read is that of the first segment to reach the end
  have hread : Signable key B (fun segment => draws segment hash) (signedList B.size maxServers) →
      key.sign (draws first hash) B = .ok (drawnSign key B (draws first hash)) := by
    intro hsignable
    obtain ⟨sign, hsign⟩ := hsignable first (by rw [hreaching]; exact List.mem_cons_self)
    rw [drawnSign, hsign]
    rfl
  have hcheck : ∀ whole : Blob, whole.val = serializeString B ++
      (reaching B.size (signedList B.size maxServers)).flatMap
        (fun segment => key.signature (drawnSign key B (draws segment hash))) → _ :=
    fun whole hval => checkSignatureBlock_signed (by rw [hval, hreaching, List.flatMap_cons])
  constructor
  -- What is loaded was checked;
  · rintro ⟨segment, sign, -, -, hload⟩
    obtain ⟨⟨hlast, hsignable⟩, whole, hval, hr⟩ := (loadSigned_eq_ok hscheme h).mp hload
    rw [hcheck whole hval] at hr
    obtain ⟨hverify, hr⟩ := check_bind_eq_ok.mp hr
    obtain ⟨_, howned, -⟩ := bind_eq_ok.mp hr
    refine ⟨(checks_iff hscheme h.made (hread hsignable)).mp ⟨hverify, howned⟩, hlast, hsignable, ?_⟩
    have hfit := whole.property
    rw [hval] at hfit
    exact hfit
  -- conversely the check lets it pass.
  · rintro ⟨hcheckable, hlast, hsignable, hfit⟩
    obtain ⟨hverify, howned⟩ := (checks_iff hscheme h.made (hread hsignable)).mpr hcheckable
    refine ⟨first, _, hfirst, hread hsignable, (loadSigned_eq_ok hscheme h).mpr
      ⟨⟨hlast, hsignable⟩, ⟨_, hfit⟩, rfl, ?_⟩⟩
    rw [hcheck _ rfl]
    exact check_bind_eq_ok.mpr ⟨hverify, bind_eq_ok.mpr ⟨(), howned, rfl⟩⟩

end

/-! ## A node that signs -/

/-- A scheme whose signatures are the text itself, behind one byte that is drawn. -/
def trustingScheme : SignatureScheme where
  SHA256 _ := Vector.replicate 32 0
  RIPEMD160 _ := Vector.replicate 20 0
  toLower text := ⟨text.val.map lowerCase, by rw [List.length_map]; exact text.property⟩
  secp256k1_ec_pubkey_create _ := none
  secp256k1_ec_pubkey_parse _ := none
  secp256k1_ecdsa_sign _ _ := none
  CRYPTO_generate_public _ := .ok (Blob.replicate 65 4 (by decide))
  EVP_DigestSign random _ data := Blob.ofBytes (UInt8.ofNat random :: data)
  EVP_PKEY_get1_EC_KEY _ := true
  ECDSA_do_verify sign _ data := decide (data.val = sign.val.tail)

theorem trustingScheme_lawful : trustingScheme.Lawful where
  toLower _ := rfl
  point h := by cases h
  written _ := rfl
  signed {_ _ _ sign _} _ _ hsign text := by
    show decide (text.val = sign.val.tail) = true ↔ _
    rw [decide_eq_true_iff, Blob.ofBytes_eq_ok.mp hsign, List.tail_cons]

/-- The address of every key in that scheme. -/
def trustingAddress : Blob := trustingScheme.addressText []

/-- A key of the scheme that trusts every signature. -/
def trustingKey : PrivateKey trustingScheme where
  privateKey := Blob.replicate 39 1 (by decide)
  pubk := Blob.replicate 65 4 (by decide)
  address := trustingAddress
  isSecp := false

theorem made_trustingKey : trustingKey.Made :=
  ⟨Blob.replicate 39 1 (by decide), trustingAddress, by decide +kernel⟩

theorem checkable_trustingKey : trustingKey.Checkable := by
  unfold PrivateKey.Checkable
  decide +kernel

/-- A node with this block in its cache. -/
def cachingServer (B : Blob) : DumpServer trustingScheme where
  modules := { block := true, txs := true, balance := true, addrTxs := true, blockRaw := true
               v8 := true, nodeTest := true }
  blockDumpCache := OrdMap.insert ∅ ∅ B
  files := ∅
  privateKey := some trustingKey
  random _ := 0

theorem serving_cachingServer (B : Blob) :
    Serving (cachingServer B) ∅ default B trustingKey true :=
  { modules := rfl, signs := rfl, made := made_trustingKey, holds := OrdMap.find?_insert_self }

/-- A dump of one byte. -/
def oneByte : Blob := Blob.replicate 1 7 Blob.byte_fits

theorem sign_trustingKey (random : Nat) :
    ∃ sign, trustingKey.sign random oneByte = .ok sign := ⟨_, rfl⟩

/-- Every segment draws something else. -/
def ownDraws (segment : Segment) (_ : Blob) : Nat := segment.toByte

/-- A block of one byte, asked for over one connection. -/
theorem loadSigned_iff_byte :
    trustingScheme.Lawful ∧ Serving (cachingServer oneByte) ∅ default oneByte trustingKey true ∧
    ∃ segment sign, segment ∈ signedList oneByte.size 1 ∧
      trustingKey.sign (ownDraws segment ∅) oneByte = .ok sign ∧
      loadSigned trustingScheme (fun _ => none)
        (fun segment => ((cachingServer oneByte).drawing (ownDraws segment)).serve ∅ default segment)
        oneByte.size 1 =
        .ok { block := oneByte, sign, pubkey := trustingKey.pubk, address := trustingKey.address } := by
  have hserving := serving_cachingServer oneByte
  refine ⟨trustingScheme_lawful, hserving, (loadSigned_iff trustingScheme_lawful hserving).mpr
    ⟨⟨checkable_trustingKey, by decide⟩, fun _ => by decide, ?_, ?_⟩⟩
  · exact fun segment _ => sign_trustingKey _
  · unfold Fits
    decide +kernel

/-- A cached block of 9800 bytes is not loaded over two connections. -/
theorem loadSigned_cached_lost :
    ¬ ∀ (scheme : SignatureScheme) (s : DumpServer scheme) (hash B : Blob) (filePos : FilePosition)
      (key : PrivateKey scheme) (cached : Bool) (maxServers : Nat) (draws : Segment → Blob → Nat),
      scheme.Lawful → 0 < maxServers → Serving s hash filePos B key cached → key.Checkable →
      1 ≤ B.size → ∃ segment sign, segment ∈ signedList B.size maxServers ∧
        key.sign (draws segment hash) B = .ok sign ∧
        loadSigned scheme (fun _ => none)
          (fun segment => (s.drawing (draws segment)).serve hash filePos segment) B.size maxServers =
          .ok { block := B, sign, pubkey := key.pubk, address := key.address } := by
  intro h
  have hB : (Blob.replicate 9800 7 (by decide)).size = 9800 := List.length_replicate
  have hserving := serving_cachingServer (Blob.replicate 9800 7 (by decide))
  obtain ⟨segment, sign, -, -, hload⟩ := h _ _ _ _ _ _ _ 2 (fun _ _ => 0) trustingScheme_lawful
    (by decide) hserving checkable_trustingKey (by rw [hB]; decide)
  have hlast := ((loadSigned_eq_ok trustingScheme_lawful hserving).mp hload).1.1 rfl
  rw [hB] at hlast
  exact absurd hlast (by decide)

end TorrentNode
