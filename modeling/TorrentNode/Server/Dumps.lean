import TorrentNode.Server.Answers

/-!
# Parts of a block on request (`get-dump-block-by-hash`, `get-dump-block-by-number`)

One handler serves both requests. It looks the header up, has the part loaded, from the
cache of dumps or from the file of the block, and sends it, as JSON where hexadecimal
text was asked for. The branch for a main block that was asked for by its hash has the
part loaded without asking for hexadecimal text.
-/

namespace TorrentNode

/-- `findSignature(hash)` -/
def BlocksTimeline.findSignature (t : BlocksTimeline) (hash : Blob) : Option MinimumSignBlockHeader :=
  match t.hashes.find? hash with
  | none => none
  | some found =>
    match t.timeline[found]? with
    | some (.sign element) => some element
    | _ => none

/-- The parameters of the request behind the hash or the number. -/
structure DumpRequest where
  fromByte : UInt64
  toByte : UInt64
  isHex : Bool
  isSign : Bool
  isCompress : Bool

/-- What is sent: `genBlockDumpJson(res)`, or the bytes themselves. -/
inductive DumpAnswer where
  | json (res : Blob)
  | binary (res : Blob)
  deriving DecidableEq

/-- What the handler does with the part that was loaded. -/
def DumpRequest.send (r : DumpRequest) (lz4 : LZ4) (hashOrNumber : String) (blockDump : Blob) :
    Except Err DumpAnswer := do
  let res ← genDumpBlockBinary lz4 blockDump r.isCompress
  check (!res.isEmpty) ("block " ++ hashOrNumber ++ " not found")
  pure (if r.isHex then .json res else .binary res)

namespace Server

variable {scheme : SignatureScheme}

/-- `getBlockDump<size_t>` -/
def getBlockDumpByNumber (s : Server scheme) (lz4 : LZ4) (r : DumpRequest) (number : Nat) :
    Except Err DumpAnswer := do
  let bh := s.blockchain.getBlockByNumber number
  if bh.blockNumber.isNone then .error (.user ("block " ++ toString number ++ " not found"))
  else do
    let blockDump ←
      s.dumps.getBlockDump bh.hash bh.filePos r.fromByte r.toByte r.isHex r.isSign
    r.send lz4 (toString number) blockDump

/-- `getBlockDump<std::string>`, `hash` being what `fromHex` makes of the text that was sent. -/
def getBlockDumpByHash (s : Server scheme) (lz4 : LZ4) (r : DumpRequest) (hashText : String)
    (hash : Blob) : Except Err DumpAnswer := do
  let bh ← s.blockchain.getBlock hash
  let blockDump ←
    if bh.blockNumber.isSome then
      -- not `r.isHex`, as everywhere else
      s.dumps.getBlockDump bh.hash bh.filePos r.fromByte r.toByte false r.isSign
    else
      match s.timeline.findSignature hash with
      | none => .error (.exception ("block " ++ hashText ++ " not found"))
      | some found =>
        s.dumps.getBlockDump found.hash found.filePos r.fromByte r.toByte r.isHex r.isSign
  r.send lz4 hashText blockDump

/-- The node with the dump of a block in its cache. -/
def withDump (s : Server scheme) (hash dump : Blob) : Server scheme :=
  { s with dumps := { s.dumps with blockDumpCache := s.dumps.blockDumpCache.insert hash dump } }

/-- The node when the dump of the block is no longer in its cache. -/
def withoutDump (s : Server scheme) (hash : Blob) : Server scheme :=
  { s with dumps := { s.dumps with blockDumpCache := s.dumps.blockDumpCache.erase hash } }

end Server

/-- The block `bh` of the chain, with this number. -/
structure BlockChain.MainBlock (c : BlockChain) (number : Nat) (bh : BlockHeader) : Prop where
  byNumber : c.getBlockByNumber number = bh
  byHash : c.getBlock bh.hash = .ok bh
  numbered : bh.blockNumber = some number

/-- A sign block of the timeline. -/
structure BlocksTimeline.SignBlock (t : BlocksTimeline) (c : BlockChain)
    (element : MinimumSignBlockHeader) : Prop where
  found : t.findSignature element.hash = some element
  other : ∃ bh, c.getBlock element.hash = .ok bh ∧ bh.blockNumber = none

namespace DumpServer

variable {scheme : SignatureScheme}

/-- The file of the block has its dump at the position of its header. -/
structure Stored (s : DumpServer scheme) (filePos : FilePosition) (B : Blob) : Prop where
  named : filePos.fileNameRelative.isEmpty = false
  framed : ∃ before behind, (before ++ blockFraming.frame B.val ++ behind).length < 2 ^ 63 ∧
    s.files.find? filePos.fileNameRelative = some (before ++ blockFraming.frame B.val ++ behind) ∧
    filePos.pos = UInt64.ofNat before.length

/--
The bytes from `fromByte` to `toByte` of a block, signed or not, if the node serves them
in a request that draws `random`.
-/
def part (s : DumpServer scheme) (B : Blob) (random fromByte toByte : Nat) (isSign : Bool) :
    Option Bytes :=
  if s.modules.block && s.modules.blockRaw then
    if isSign then
      s.privateKey.bind (fun key => (signedAnswer key random B fromByte toByte).toOption)
    else some ((B.val.drop fromByte).take (toByte - fromByte))
  else none

/-- The text of a part, if that was asked for. -/
def spelled (isHex : Bool) (bytes : Bytes) : Bytes := if isHex then hexBytes bytes else bytes

theorem le_length_spelled (isHex : Bool) (b : Bytes) : b.length ≤ (spelled isHex b).length := by
  unfold spelled
  split
  · rw [length_hexBytes]; omega
  · exact Nat.le_refl _

theorem length_spelled_le (isHex : Bool) (b : Bytes) : (spelled isHex b).length ≤ 2 * b.length := by
  unfold spelled
  split
  · rw [length_hexBytes]
  · omega

theorem spelled_ne_nil (isHex : Bool) {b : Bytes} (h : b ≠ []) : spelled isHex b ≠ [] := by
  have hpos := List.length_pos_iff.mpr h
  have hle := le_length_spelled isHex b
  exact List.length_pos_iff.mp (by omega)

theorem eq_ok_of_toOption {α : Type} {x : Except Err α} {a : α} (h : x.toOption = some a) :
    x = .ok a := by
  cases x with
  | error e => cases h
  | ok b => exact congrArg Except.ok (Option.some.inj h)

/-- **What is loaded**, or that nothing is, whatever the error. -/
theorem toOption_getBlockDump {s : DumpServer scheme} {hash B : Blob} {filePos : FilePosition}
    {cached : Bool} {a b : Nat} (isHex isSign : Bool) (h : s.Holds hash filePos B cached)
    (hab : a ≤ b) (hb : b < 2 ^ 64) :
    (s.getBlockDump hash filePos (UInt64.ofNat a) (UInt64.ofNat b) isHex isSign).toOption =
      if cached = true ∧ B.size < a then none
      else (s.part B (s.random hash) a b isSign).bind
        (fun bytes => (Blob.ofBytes (spelled isHex bytes)).toOption) := by
  unfold part
  -- The modules, the key and the part of the dump, in the order of the checks.
  cases hmod : s.modules.block && s.modules.blockRaw with
  | false =>
    rw [if_neg Bool.false_ne_true, Option.bind_none, ite_self]
    simp only [getBlockDump, hmod, check_false]
    cases isSign <;> rfl
  | true =>
    rw [if_pos rfl]
    cases isSign with
    | true =>
      rw [if_pos rfl]
      cases hkey : s.privateKey with
      | some key =>
        rw [getBlockDump_signed hmod hkey h hab hb, Option.bind_some]
        split
        · rfl
        · cases signedAnswer key (s.random hash) B a b <;> rfl
      | none =>
        rw [Option.bind_none, Option.bind_none, ite_self]
        simp only [getBlockDump, hmod, check_true, hkey]
        cases s.loadDump hash filePos (UInt64.ofNat a) (UInt64.ofNat b) true <;> rfl
    | false =>
      rw [if_neg Bool.false_ne_true]
      by_cases hout : cached = true ∧ B.size < a
      · rw [if_pos hout]
        obtain ⟨rfl, hout⟩ := hout
        simp only [getBlockDump, hmod, check_true, loadDump_cached_error false h hout (by omega)]
        rfl
      · rw [if_neg hout]
        obtain ⟨res, size, full, hload, hres, -⟩ := loadDump_ok false h hab hb hout
        simp only [getBlockDump, hmod, check_true, hload, Option.bind_some, ← hres]
        rfl

/-- One of the ways to get at a part: what the request draws, and where the dump comes from. -/
structure Asked where
  random : Nat
  isHex : Bool
  cached : Bool

/--
The node serves the part: it has the modules, and a key where one is needed, which signs,
and what it sends fits into a string.
-/
def CanServe (s : DumpServer scheme) (B : Blob) (fromByte toByte : Nat) (isSign : Bool) (x : Asked) :
    Prop :=
  (s.modules.block && s.modules.blockRaw) = true ∧
    if isSign then ∃ key, s.privateKey = some key ∧
      (B.size ≤ toByte → ∃ sign, key.sign x.random B = .ok sign) ∧
      (spelled x.isHex (signedPart key (drawnSign key B x.random) B fromByte toByte)).length < 2 ^ 63
    else (spelled x.isHex ((B.val.drop fromByte).take (toByte - fromByte))).length < 2 ^ 63

/-- No byte of the block lies between `fromByte` and `toByte`, and nothing is put around them. -/
def NoBytes (size fromByte toByte : Nat) (isSign : Bool) : Prop :=
  (size ≤ fromByte ∨ fromByte = toByte) ∧ (isSign = true → fromByte ≠ 0 ∧ toByte < size)

/-- There is an answer: bytes that the node serves, not from behind a cached dump. -/
structure Answered (s : DumpServer scheme) (B : Blob) (fromByte toByte : Nat) (isSign : Bool)
    (x : Asked) : Prop where
  within : x.cached = true → fromByte ≤ B.size
  bytes : ¬ NoBytes B.size fromByte toByte isSign
  served : s.CanServe B fromByte toByte isSign x

/-- Where a signature is needed, all of them draw the same. -/
def SameSigns (s : DumpServer scheme) (B : Blob) (toByte : Nat) (isSign : Bool) (asked : List Asked) :
    Prop :=
  isSign = true → B.size ≤ toByte → ∀ key, s.privateKey = some key →
    ∀ x ∈ asked, ∀ y ∈ asked, key.sign x.random B = key.sign y.random B

/-- The signatures of a secp256k1 key are the same, whatever is drawn. -/
theorem sameSigns_of_isSecp {s : DumpServer scheme} {B : Blob} {toByte : Nat} {isSign : Bool}
    (h : ∀ key, s.privateKey = some key → key.isSecp = true) (asked : List Asked) :
    s.SameSigns B toByte isSign asked := by
  intro _ _ key hkey x _ y _
  rw [PrivateKey.sign, PrivateKey.sign, h key hkey]
  rfl

section

variable {s : DumpServer scheme} {B : Blob} {a b random : Nat} {isSign : Bool} {bytes : Bytes}
  {x y : Asked}

theorem canServe_iff : s.CanServe B a b isSign x ↔
    ∃ bytes, s.part B x.random a b isSign = some bytes ∧ (spelled x.isHex bytes).length < 2 ^ 63 := by
  unfold CanServe part
  cases hmod : s.modules.block && s.modules.blockRaw with
  | false => simp
  | true =>
    cases isSign with
    | true =>
      simp only [true_and, if_true, Option.bind_eq_some_iff]
      constructor
      · rintro ⟨key, hkey, hsign, hlen⟩
        exact ⟨_, ⟨key, hkey, by rw [signedAnswer_eq_ok.mpr ⟨hsign, rfl⟩]; rfl⟩, hlen⟩
      · rintro ⟨bytes, ⟨key, hkey, hbytes⟩, hlen⟩
        obtain ⟨hsign, rfl⟩ := signedAnswer_eq_ok.mp (eq_ok_of_toOption hbytes)
        exact ⟨key, hkey, hsign, hlen⟩
    | false => simp

theorem part_eq_nil_iff (hab : a ≤ b) (h : s.part B random a b isSign = some bytes) :
    bytes = [] ↔ NoBytes B.size a b isSign := by
  have hplain : (B.val.drop a).take (b - a) = [] ↔ B.size ≤ a ∨ a = b := by
    rw [← List.length_eq_zero_iff, List.length_take, List.length_drop, Blob.size]
    omega
  unfold part at h
  split at h
  · cases isSign with
    | false =>
      obtain rfl := Option.some.inj h
      rw [hplain, NoBytes]
      simp
    | true =>
      obtain ⟨key, -, hbytes⟩ := Option.bind_eq_some_iff.mp h
      obtain ⟨-, rfl⟩ := signedAnswer_eq_ok.mp (eq_ok_of_toOption hbytes)
      have hsign := signature_ne_nil key (drawnSign key B random)
      have hfirst : serializeInt sizeofSizeT B.size ≠ [] := by
        intro he
        have hlen := length_serializeInt sizeofSizeT B.size
        rw [he] at hlen
        exact absurd hlen (by decide)
      rw [signedPart, List.append_eq_nil_iff, List.append_eq_nil_iff, hplain, NoBytes]
      by_cases ha : a = 0
      · simp [ha, hfirst]
      · by_cases hb : B.size ≤ b
        · simp [ha, hb, hsign]
        · simp [ha, hb]
          omega
  · exact absurd h (by simp)

/-- The signed part that a request is answered with. -/
theorem signed_of_canServe (h : s.CanServe B a b true x) : ∃ key, s.privateKey = some key ∧
    s.part B x.random a b true = some (signedPart key (drawnSign key B x.random) B a b) ∧
    (B.size ≤ b → key.sign x.random B = .ok (drawnSign key B x.random)) := by
  obtain ⟨hmod, key, hkey, hsign, -⟩ := h
  refine ⟨key, hkey, ?_, fun hr => ?_⟩
  · rw [part, if_pos hmod, if_pos rfl, hkey, Option.bind_some, signedAnswer_eq_ok.mpr ⟨hsign, rfl⟩]
    rfl
  · obtain ⟨sign, hsign⟩ := hsign hr
    rw [drawnSign, hsign]
    rfl

/-- Two parts are the same exactly if the signatures in them are. -/
theorem part_eq_iff (hx : s.CanServe B a b isSign x) (hy : s.CanServe B a b isSign y) :
    s.part B x.random a b isSign = s.part B y.random a b isSign ↔
      (isSign = true → B.size ≤ b → ∀ key, s.privateKey = some key →
        key.sign x.random B = key.sign y.random B) := by
  cases isSign with
  | false => exact iff_of_true rfl (fun h => absurd h Bool.false_ne_true)
  | true =>
    obtain ⟨key, hkey, hpart, hsign⟩ := signed_of_canServe hx
    obtain ⟨key', hkey', hpart', hsign'⟩ := signed_of_canServe hy
    obtain rfl : key = key' := Option.some.inj (hkey.symm.trans hkey')
    rw [hpart, hpart', Option.some.injEq, signedPart, signedPart, List.append_cancel_left_eq]
    by_cases hr : B.size ≤ b
    · rw [if_pos hr, if_pos hr]
      constructor
      · intro he _ _ key' hk
        obtain rfl : key = key' := Option.some.inj (hkey.symm.trans hk)
        rw [hsign hr, hsign' hr, signature_injective he]
      · intro hall
        have he := hall rfl hr key hkey
        rw [hsign hr, hsign' hr] at he
        rw [Except.ok.inj he]
    · rw [if_neg hr, if_neg hr]
      exact iff_of_true rfl (fun _ hc => absurd hc hr)

/-- The bytes of a part are never the hexadecimal text of another. -/
theorem part_ne_hexBytes (hscheme : scheme.Lawful) (hmade : ∀ key, s.privateKey = some key → key.Made)
    {bytes' : Bytes} (hx : s.CanServe B a b isSign x) (hy : s.CanServe B a b isSign y)
    (h : s.part B x.random a b isSign = some bytes) (h' : s.part B y.random a b isSign = some bytes')
    (hne : bytes ≠ []) : bytes ≠ hexBytes bytes' := by
  intro he
  by_cases hsame : s.part B x.random a b isSign = s.part B y.random a b isSign
  · -- the text is twice as long as the bytes
    obtain rfl : bytes = bytes' := Option.some.inj (h.symm.trans (hsame.trans h'))
    have htwice := congrArg List.length he
    rw [length_hexBytes] at htwice
    have hpos := List.length_pos_iff.mpr hne
    omega
  · -- there is a zero in the signature, and none in a text
    rw [part_eq_iff hx hy] at hsame
    push Not at hsame
    obtain ⟨rfl, hr, -⟩ := hsame
    obtain ⟨key, hkey, hpart, -⟩ := signed_of_canServe hx
    obtain rfl := Option.some.inj (h.symm.trans hpart)
    have hzero : 0 ∈ signedPart key (drawnSign key B x.random) B a b := by
      rw [signedPart, if_pos hr]
      exact List.mem_append_right _ (zero_mem_signature hscheme (hmade key hkey) _)
    rw [he] at hzero
    exact hexBytes_ne_zero 0 hzero rfl

end

end DumpServer

/-- All of the answers are the same bytes, or all of them errors. -/
def Agree (answers : List (Except Err DumpAnswer)) : Prop :=
  ∀ x ∈ answers, ∀ y ∈ answers, x.toOption = y.toOption

namespace Server

variable {scheme : SignatureScheme}

/-- The node at a request that draws this for its signature. -/
def drawing (s : Server scheme) (random : Nat) : Server scheme :=
  { s with dumps := s.dumps.drawing (fun _ => random) }

/--
A main block asked for by hash and by number, with its dump in the cache and without: four
requests, each with a draw of its own.
-/
def mainAnswers (s : Server scheme) (lz4 : LZ4) (r : DumpRequest) (number : Nat) (bh : BlockHeader)
    (hashText : String) (B : Blob) (draws : (byHash cached : Bool) → Nat) :
    List (Except Err DumpAnswer) :=
  [((s.withDump bh.hash B).drawing (draws true true)).getBlockDumpByHash lz4 r hashText bh.hash,
    ((s.withDump bh.hash B).drawing (draws false true)).getBlockDumpByNumber lz4 r number,
    ((s.withoutDump bh.hash).drawing (draws true false)).getBlockDumpByHash lz4 r hashText bh.hash,
    ((s.withoutDump bh.hash).drawing (draws false false)).getBlockDumpByNumber lz4 r number]

/-- A sign block asked for by hash, with its dump in the cache and without. -/
def signAnswers (s : Server scheme) (lz4 : LZ4) (r : DumpRequest) (element : MinimumSignBlockHeader)
    (hashText : String) (B : Blob) (draws : (cached : Bool) → Nat) : List (Except Err DumpAnswer) :=
  [((s.withDump element.hash B).drawing (draws true)).getBlockDumpByHash lz4 r hashText element.hash,
    ((s.withoutDump element.hash).drawing (draws false)).getBlockDumpByHash lz4 r hashText
      element.hash]

/-- What the four requests come down to: by hash no text is made. -/
def mainAsked (isHex : Bool) (draws : (byHash cached : Bool) → Nat) : List DumpServer.Asked :=
  [⟨draws true true, false, true⟩, ⟨draws false true, isHex, true⟩, ⟨draws true false, false, false⟩,
    ⟨draws false false, isHex, false⟩]

/-- What the two requests for a sign block come down to. -/
def signAsked (isHex : Bool) (draws : (cached : Bool) → Nat) : List DumpServer.Asked :=
  [⟨draws true, isHex, true⟩, ⟨draws false, isHex, false⟩]

/-- What is sent for a dump, whatever the block is called in an error. -/
def sent (lz4 : LZ4) (r : DumpRequest) (blockDump : Blob) : Option DumpAnswer :=
  (r.send lz4 "" blockDump).toOption

theorem toOption_bind {α β : Type} (x : Except Err α) (f : α → Except Err β) :
    (x >>= f).toOption = x.toOption.bind (fun a => (f a).toOption) := by
  cases x <;> rfl

theorem toOption_send (lz4 : LZ4) (r : DumpRequest) (hashOrNumber : String) (blockDump : Blob) :
    (r.send lz4 hashOrNumber blockDump).toOption = sent lz4 r blockDump := by
  unfold sent DumpRequest.send
  cases genDumpBlockBinary lz4 blockDump r.isCompress with
  | error e => rfl
  | ok res =>
    show (check (!res.isEmpty) _ >>= _).toOption = (check (!res.isEmpty) _ >>= _).toOption
    cases res.isEmpty <;> rfl

/-- Nothing is no answer, compressed or not. -/
theorem sent_empty (lz4 : LZ4) (r : DumpRequest) : sent lz4 r ∅ = none := by
  unfold sent DumpRequest.send genDumpBlockBinary
  cases r.isCompress <;> rfl

theorem sent_plain {lz4 : LZ4} {r : DumpRequest} {blockDump : Blob} (h : r.isCompress = false)
    (hne : blockDump.val ≠ []) :
    sent lz4 r blockDump = some (if r.isHex then .json blockDump else .binary blockDump) := by
  have hfull : blockDump.isEmpty = false := by
    rw [← Bool.not_eq_true, Blob.isEmpty_iff]
    exact hne
  unfold sent DumpRequest.send genDumpBlockBinary
  rw [h, if_neg Bool.false_ne_true]
  show (check (!blockDump.isEmpty) _ >>= _).toOption = _
  rw [hfull]
  rfl

section

variable {s : Server scheme} {lz4 : LZ4} {r : DumpRequest} {hashText : String}

theorem toOption_byNumber {number : Nat} {bh : BlockHeader}
    (h : s.blockchain.MainBlock number bh) :
    (s.getBlockDumpByNumber lz4 r number).toOption =
      (s.dumps.getBlockDump bh.hash bh.filePos r.fromByte r.toByte r.isHex r.isSign).toOption.bind
        (sent lz4 r) := by
  unfold getBlockDumpByNumber
  simp only [h.byNumber, h.numbered, Option.isNone_some, Bool.false_eq_true, if_false]
  rw [toOption_bind]
  exact congrArg _ (funext (fun dump => toOption_send lz4 r _ dump))

theorem toOption_byHash {number : Nat} {bh : BlockHeader} (h : s.blockchain.MainBlock number bh) :
    (s.getBlockDumpByHash lz4 r hashText bh.hash).toOption =
      (s.dumps.getBlockDump bh.hash bh.filePos r.fromByte r.toByte false r.isSign).toOption.bind
        (sent lz4 r) := by
  unfold getBlockDumpByHash
  rw [h.byHash]
  show (if bh.blockNumber.isSome = true then (_ : Except Err DumpAnswer) else _).toOption = _
  rw [h.numbered, if_pos (Option.isSome_some), toOption_bind]
  exact congrArg _ (funext (fun dump => toOption_send lz4 r _ dump))

theorem toOption_bySign {element : MinimumSignBlockHeader}
    (h : s.timeline.SignBlock s.blockchain element) :
    (s.getBlockDumpByHash lz4 r hashText element.hash).toOption =
      (s.dumps.getBlockDump element.hash element.filePos r.fromByte r.toByte r.isHex
        r.isSign).toOption.bind (sent lz4 r) := by
  obtain ⟨bh, hbh, hnumber⟩ := h.other
  unfold getBlockDumpByHash
  rw [hbh, h.found]
  show (if bh.blockNumber.isSome = true then (_ : Except Err DumpAnswer) else _).toOption = _
  rw [hnumber, if_neg (by decide), toOption_bind]
  exact congrArg _ (funext (fun dump => toOption_send lz4 r _ dump))

/-- What a request finds, as text if that is asked for. -/
def text (s : Server scheme) (B : Blob) (r : DumpRequest) (x : DumpServer.Asked) : Option Bytes :=
  (s.dumps.part B x.random r.fromByte.toNat r.toByte.toNat r.isSign).map
    (DumpServer.spelled x.isHex)

/-- What is sent for the part of a block, out of the cache or out of the file. -/
def sentPart (s : Server scheme) (lz4 : LZ4) (r : DumpRequest) (B : Blob) (x : DumpServer.Asked) :
    Option DumpAnswer :=
  if x.cached = true ∧ B.size < r.fromByte.toNat then none
  else ((s.text B r x).bind (fun bytes => (Blob.ofBytes bytes).toOption)).bind (sent lz4 r)

theorem toOption_part {s' : Server scheme} {hash B : Blob} {filePos : FilePosition}
    {x : DumpServer.Asked} (h : s'.dumps.Holds hash filePos B x.cached) (hle : r.fromByte ≤ r.toByte)
    (hmod : s'.dumps.modules = s.dumps.modules) (hkey : s'.dumps.privateKey = s.dumps.privateKey)
    (hdraw : s'.dumps.random hash = x.random) :
    (s'.dumps.getBlockDump hash filePos r.fromByte r.toByte x.isHex r.isSign).toOption.bind
      (sent lz4 r) = s.sentPart lz4 r B x := by
  have hload := DumpServer.toOption_getBlockDump x.isHex r.isSign h
    (UInt64.le_iff_toNat_le.mp hle) r.toByte.toNat_lt
  rw [UInt64.ofNat_toNat, UInt64.ofNat_toNat] at hload
  have hpart : s'.dumps.part B (s'.dumps.random hash) r.fromByte.toNat r.toByte.toNat r.isSign =
      s.dumps.part B x.random r.fromByte.toNat r.toByte.toNat r.isSign := by
    unfold DumpServer.part
    rw [hmod, hkey, hdraw]
  rw [hload, hpart, sentPart, text, Option.bind_map]
  split <;> rfl

theorem agree_iff {answers : List (Except Err DumpAnswer)} {outcomes : List (Option DumpAnswer)}
    (h : answers.map Except.toOption = outcomes) :
    Agree answers ↔ ∀ x ∈ outcomes, ∀ y ∈ outcomes, x = y := by
  subst h
  simp only [Agree, List.forall_mem_map]

theorem holds_withDump (hash B : Blob) (filePos : FilePosition) (random : Nat) :
    ((s.withDump hash B).drawing random).dumps.Holds hash filePos B true := by
  unfold DumpServer.Holds withDump
  exact OrdMap.find?_insert_self

theorem holds_withoutDump {hash B : Blob} {filePos : FilePosition} (h : s.dumps.Stored filePos B)
    (random : Nat) : ((s.withoutDump hash).drawing random).dumps.Holds hash filePos B false := by
  unfold DumpServer.Holds withoutDump
  exact ⟨OrdMap.find?_erase_self, h.named, h.framed⟩

theorem agree_mainAnswers {number : Nat} {bh : BlockHeader} {B : Blob}
    {draws : (byHash cached : Bool) → Nat} (h : s.blockchain.MainBlock number bh)
    (hstored : s.dumps.Stored bh.filePos B) (hle : r.fromByte ≤ r.toByte) :
    Agree (s.mainAnswers lz4 r number bh hashText B draws) ↔
      ∀ x ∈ mainAsked r.isHex draws, ∀ y ∈ mainAsked r.isHex draws,
        s.sentPart lz4 r B x = s.sentPart lz4 r B y := by
  have hone : ∀ (s' : Server scheme) random cached, s'.blockchain = s.blockchain →
      s'.dumps.Holds bh.hash bh.filePos B cached → s'.dumps.modules = s.dumps.modules →
      s'.dumps.privateKey = s.dumps.privateKey → s'.dumps.random bh.hash = random →
      (s'.getBlockDumpByHash lz4 r hashText bh.hash).toOption =
        s.sentPart lz4 r B ⟨random, false, cached⟩ ∧
      (s'.getBlockDumpByNumber lz4 r number).toOption =
        s.sentPart lz4 r B ⟨random, r.isHex, cached⟩ := by
    intro s' random cached hc hholds hmod hkey hdraw
    rw [← hc] at h
    rw [toOption_byHash h, toOption_byNumber h]
    exact ⟨@toOption_part _ _ _ _ _ _ _ _ ⟨random, false, cached⟩ hholds hle hmod hkey hdraw,
      @toOption_part _ _ _ _ _ _ _ _ ⟨random, r.isHex, cached⟩ hholds hle hmod hkey hdraw⟩
  have houtcomes : (s.mainAnswers lz4 r number bh hashText B draws).map Except.toOption =
      (mainAsked r.isHex draws).map (s.sentPart lz4 r B) := by
    have hin := fun random => hone ((s.withDump bh.hash B).drawing random) random true rfl
      (holds_withDump _ _ _ _) rfl rfl rfl
    have hout := fun random => hone ((s.withoutDump bh.hash).drawing random) random false rfl
      (holds_withoutDump hstored _) rfl rfl rfl
    rw [mainAnswers, mainAsked, List.map_cons, List.map_cons, List.map_cons, List.map_cons,
      (hin _).1, (hin _).2, (hout _).1, (hout _).2]
    rfl
  rw [agree_iff houtcomes]
  simp only [List.forall_mem_map]

theorem agree_signAnswers {element : MinimumSignBlockHeader} {B : Blob}
    {draws : (cached : Bool) → Nat} (h : s.timeline.SignBlock s.blockchain element)
    (hstored : s.dumps.Stored element.filePos B) (hle : r.fromByte ≤ r.toByte) :
    Agree (s.signAnswers lz4 r element hashText B draws) ↔
      ∀ x ∈ signAsked r.isHex draws, ∀ y ∈ signAsked r.isHex draws,
        s.sentPart lz4 r B x = s.sentPart lz4 r B y := by
  have hin : ∀ random, ((s.withDump element.hash B).drawing random).timeline.SignBlock
      ((s.withDump element.hash B).drawing random).blockchain element := fun _ => h
  have hout : ∀ random, ((s.withoutDump element.hash).drawing random).timeline.SignBlock
      ((s.withoutDump element.hash).drawing random).blockchain element := fun _ => h
  have houtcomes : (s.signAnswers lz4 r element hashText B draws).map Except.toOption =
      (signAsked r.isHex draws).map (s.sentPart lz4 r B) := by
    rw [signAnswers, signAsked, List.map_cons, List.map_cons, toOption_bySign (hin _),
      toOption_bySign (hout _),
      @toOption_part _ s _ r _ _ _ _ ⟨draws true, r.isHex, true⟩
        (holds_withDump _ _ element.filePos _) hle rfl rfl rfl,
      @toOption_part _ s _ r _ _ _ _ ⟨draws false, r.isHex, false⟩
        (holds_withoutDump hstored _) hle rfl rfl rfl]
    rfl
  rw [agree_iff houtcomes]
  simp only [List.forall_mem_map]

/-! ### When there is an answer -/

variable {B : Blob} {x y : DumpServer.Asked}

theorem sentPart_none (hab : r.fromByte ≤ r.toByte)
    (h : ¬ s.dumps.Answered B r.fromByte.toNat r.toByte.toNat r.isSign x) :
    s.sentPart lz4 r B x = none := by
  unfold sentPart
  by_cases hout : x.cached = true ∧ B.size < r.fromByte.toNat
  · exact if_pos hout
  rw [if_neg hout, text]
  cases hpart : s.dumps.part B x.random r.fromByte.toNat r.toByte.toNat r.isSign with
  | none => rfl
  | some bytes =>
    rw [Option.map_some, Option.bind_some]
    by_cases hlen : (DumpServer.spelled x.isHex bytes).length < 2 ^ 63
    · obtain rfl : bytes = [] := by
        by_contra hne
        exact h
          { within := fun hc => Nat.le_of_not_lt (fun hlt => hout ⟨hc, hlt⟩)
            bytes := fun hno => hne
              ((DumpServer.part_eq_nil_iff (UInt64.le_iff_toNat_le.mp hab) hpart).mpr hno)
            served := DumpServer.canServe_iff.mpr ⟨bytes, hpart, hlen⟩ }
      cases x.isHex <;> exact sent_empty lz4 r
    · rw [Blob.ofBytes, dif_neg hlen]
      rfl

/-- What is sent, where nothing is compressed. -/
theorem sentPart_some (hab : r.fromByte ≤ r.toByte) (hplain : r.isCompress = false)
    (h : s.dumps.Answered B r.fromByte.toNat r.toByte.toNat r.isSign x) :
    ∃ dump : Blob, s.text B r x = some dump.val ∧
      s.sentPart lz4 r B x = some (if r.isHex then .json dump else .binary dump) := by
  obtain ⟨bytes, hpart, hlen⟩ := DumpServer.canServe_iff.mp h.served
  have htext : s.text B r x = some (DumpServer.spelled x.isHex bytes) := by rw [text, hpart]; rfl
  have hne : bytes ≠ [] := fun he =>
    h.bytes ((DumpServer.part_eq_nil_iff (UInt64.le_iff_toNat_le.mp hab) hpart).mp he)
  have hin : ¬ (x.cached = true ∧ B.size < r.fromByte.toNat) := by
    rintro ⟨hc, hlt⟩
    have := h.within hc
    omega
  refine ⟨⟨_, hlen⟩, htext, ?_⟩
  rw [sentPart, if_neg hin, htext, Option.bind_some, Blob.ofBytes, dif_pos hlen]
  exact sent_plain hplain (DumpServer.spelled_ne_nil x.isHex hne)

/--
Requests agree, compressed or not, exactly if all of them find the same as soon as one is
answered.
-/
theorem sentParts_agree_iff {fromByte toByte : UInt64} {isHex isSign : Bool} (asked : List DumpServer.Asked)
    (hle : fromByte ≤ toByte) :
    (∀ isCompress, ∀ x ∈ asked, ∀ y ∈ asked,
        s.sentPart lz4 ⟨fromByte, toByte, isHex, isSign, isCompress⟩ B x =
          s.sentPart lz4 ⟨fromByte, toByte, isHex, isSign, isCompress⟩ B y) ↔
      ((∃ x ∈ asked, s.dumps.Answered B fromByte.toNat toByte.toNat isSign x) →
        (∀ x ∈ asked, s.dumps.Answered B fromByte.toNat toByte.toNat isSign x) ∧
        ∀ x ∈ asked, ∀ y ∈ asked,
          (s.dumps.part B x.random fromByte.toNat toByte.toNat isSign).map
              (DumpServer.spelled x.isHex) =
            (s.dumps.part B y.random fromByte.toNat toByte.toNat isSign).map
              (DumpServer.spelled y.isHex)) := by
  constructor
  · rintro hagree ⟨x, hx, hanswered⟩
    -- If one request is answered, all are, and with the same text.
    have hall : ∀ y ∈ asked, s.dumps.Answered B fromByte.toNat toByte.toNat isSign y := by
      intro y hy
      by_contra hnot
      obtain ⟨dump, -, hsome⟩ := @sentPart_some _ s lz4 ⟨fromByte, toByte, isHex, isSign, false⟩ B x hle
        rfl hanswered
      have hnone := @sentPart_none _ s lz4 ⟨fromByte, toByte, isHex, isSign, false⟩ B y hle hnot
      rw [← hagree false x hx y hy, hsome] at hnone
      cases hnone
    refine ⟨hall, fun y hy z hz => ?_⟩
    obtain ⟨dump, htext, hsent⟩ := @sentPart_some _ s lz4 ⟨fromByte, toByte, isHex, isSign, false⟩ B y
      hle rfl (hall y hy)
    obtain ⟨dump', htext', hsent'⟩ := @sentPart_some _ s lz4 ⟨fromByte, toByte, isHex, isSign, false⟩ B
      z hle rfl (hall z hz)
    have hsame := hagree false y hy z hz
    rw [hsent, hsent'] at hsame
    have hdump : dump = dump' := by
      cases isHex with
      | true => exact DumpAnswer.json.inj (Option.some.inj hsame)
      | false => exact DumpAnswer.binary.inj (Option.some.inj hsame)
    exact htext.trans (hdump ▸ htext'.symm)
  · intro hcond isCompress x hx y hy
    -- If none is, all the answers are errors.
    by_cases hany : ∃ x ∈ asked, s.dumps.Answered B fromByte.toNat toByte.toNat isSign x
    · obtain ⟨hall, htexts⟩ := hcond hany
      have hin : ∀ x ∈ asked, ¬ (x.cached = true ∧ B.size < fromByte.toNat) := by
        rintro x hx ⟨hc, hlt⟩
        have := (hall x hx).within hc
        omega
      rw [sentPart, sentPart, if_neg (hin x hx), if_neg (hin y hy), text, text]
      dsimp only
      rw [htexts x hx y hy]
    · rw [sentPart_none hle (fun h => hany ⟨x, hx, h⟩), sentPart_none hle (fun h => hany ⟨y, hy, h⟩)]

/-- What the requests find is the same if their signatures are, where they make the same of it. -/
theorem texts_eq_iff {s : DumpServer scheme} {a b : Nat} {isHex isSign : Bool}
    (hx : s.CanServe B a b isSign x) (hy : s.CanServe B a b isSign y) (hxHex : x.isHex = isHex)
    (hyHex : y.isHex = isHex) :
    (s.part B x.random a b isSign).map (DumpServer.spelled x.isHex) =
        (s.part B y.random a b isSign).map (DumpServer.spelled y.isHex) ↔
      (isSign = true → B.size ≤ b → ∀ key, s.privateKey = some key →
        key.sign x.random B = key.sign y.random B) := by
  have hinj : Function.Injective (DumpServer.spelled isHex) := by
    intro b b' he
    cases isHex with
    | true => exact hexBytes_injective he
    | false => exact he
  rw [hxHex, hyHex, ← DumpServer.part_eq_iff hx hy]
  exact (Option.map_injective hinj).eq_iff

end

/-- When the answers for a sign block agree. -/
theorem signAnswers_iff {s : Server scheme} {lz4 : LZ4} {element : MinimumSignBlockHeader} {B : Blob}
    {fromByte toByte : UInt64} {isHex isSign : Bool} (draws : (cached : Bool) → Nat)
    (hle : fromByte ≤ toByte) (h : s.timeline.SignBlock s.blockchain element)
    (hstored : s.dumps.Stored element.filePos B) :
    (∀ isCompress hashText, Agree
        (s.signAnswers lz4 ⟨fromByte, toByte, isHex, isSign, isCompress⟩ element hashText B draws)) ↔
      ((∃ x ∈ signAsked isHex draws, s.dumps.Answered B fromByte.toNat toByte.toNat isSign x) →
        fromByte.toNat ≤ B.size ∧
        (∀ x ∈ signAsked isHex draws, s.dumps.CanServe B fromByte.toNat toByte.toNat isSign x) ∧
        s.dumps.SameSigns B toByte.toNat isSign (signAsked isHex draws)) := by
  have hhex : ∀ x ∈ signAsked isHex draws, x.isHex = isHex := by
    simp [signAsked]
  have hagree := fun isCompress hashText => @agree_signAnswers _ s lz4
    ⟨fromByte, toByte, isHex, isSign, isCompress⟩ hashText element B draws h hstored hle
  simp only [hagree, forall_const]
  rw [sentParts_agree_iff _ hle]
  refine forall_congr' (fun ⟨z, hz, hanswered⟩ => ?_)
  constructor
  · rintro ⟨hall, htexts⟩
    refine ⟨(hall ⟨draws true, isHex, true⟩ List.mem_cons_self).within rfl,
      fun x hx => (hall x hx).served, fun hsign hr key hkey x hx y hy => ?_⟩
    exact (texts_eq_iff (hall x hx).served (hall y hy).served (hhex x hx) (hhex y hy)).mp
      (htexts x hx y hy) hsign hr key hkey
  · rintro ⟨hin, hserved, hsame⟩
    refine ⟨fun x hx => ⟨fun _ => hin, hanswered.bytes, hserved x hx⟩, fun x hx y hy => ?_⟩
    exact (texts_eq_iff (hserved x hx) (hserved y hy) (hhex x hx) (hhex y hy)).mpr
      (fun hsign hr key hkey => hsame hsign hr key hkey x hx y hy)

/-- When the answers for a main block agree. -/
theorem mainAnswers_iff {s : Server scheme} {lz4 : LZ4} {number : Nat} {bh : BlockHeader} {B : Blob}
    {fromByte toByte : UInt64} {isHex isSign : Bool} (hscheme : scheme.Lawful)
    (hmade : ∀ key, s.dumps.privateKey = some key → key.Made)
    (draws : (byHash cached : Bool) → Nat) (hle : fromByte ≤ toByte)
    (h : s.blockchain.MainBlock number bh) (hstored : s.dumps.Stored bh.filePos B) :
    (∀ isCompress hashText, Agree
        (s.mainAnswers lz4 ⟨fromByte, toByte, isHex, isSign, isCompress⟩ number bh hashText B draws)) ↔
      ((∃ x ∈ mainAsked isHex draws, s.dumps.Answered B fromByte.toNat toByte.toNat isSign x) →
        isHex = false ∧ fromByte.toNat ≤ B.size ∧
        (∀ x ∈ mainAsked isHex draws, s.dumps.CanServe B fromByte.toNat toByte.toNat isSign x) ∧
        s.dumps.SameSigns B toByte.toNat isSign (mainAsked isHex draws)) := by
  have hhex : isHex = false → ∀ x ∈ mainAsked isHex draws, x.isHex = isHex := by
    rintro rfl
    simp [mainAsked]
  have hagree := fun isCompress hashText => @agree_mainAnswers _ s lz4
    ⟨fromByte, toByte, isHex, isSign, isCompress⟩ hashText number bh B draws h hstored hle
  simp only [hagree, forall_const]
  rw [sentParts_agree_iff _ hle]
  refine forall_congr' (fun ⟨z, hz, hanswered⟩ => ?_)
  constructor
  · rintro ⟨hall, htexts⟩
    have hbytes : isHex = false := by
      by_contra htrue
      rw [Bool.not_eq_false] at htrue
      subst htrue
      -- by hash the bytes are sent, and by number their text
      have hraw := hall ⟨draws true true, false, true⟩ List.mem_cons_self
      have htext := hall ⟨draws false true, true, true⟩ (List.mem_cons_of_mem _ List.mem_cons_self)
      obtain ⟨bytes, hpart, -⟩ := DumpServer.canServe_iff.mp hraw.served
      obtain ⟨bytes', hpart', -⟩ := DumpServer.canServe_iff.mp htext.served
      have heq := htexts _ List.mem_cons_self _ (List.mem_cons_of_mem _ List.mem_cons_self)
      rw [hpart, hpart', Option.map_some, Option.map_some, Option.some.injEq] at heq
      exact DumpServer.part_ne_hexBytes hscheme hmade hraw.served htext.served hpart hpart'
        (fun he => hraw.bytes
          ((DumpServer.part_eq_nil_iff (UInt64.le_iff_toNat_le.mp hle) hpart).mp he)) heq
    refine ⟨hbytes, (hall ⟨draws true true, false, true⟩ List.mem_cons_self).within rfl,
      fun x hx => (hall x hx).served, fun hsign hr key hkey x hx y hy => ?_⟩
    exact (texts_eq_iff (hall x hx).served (hall y hy).served (hhex hbytes x hx)
      (hhex hbytes y hy)).mp (htexts x hx y hy) hsign hr key hkey
  · rintro ⟨hbytes, hin, hserved, hsame⟩
    refine ⟨fun x hx => ⟨fun _ => hin, hanswered.bytes, hserved x hx⟩, fun x hx y hy => ?_⟩
    exact (texts_eq_iff (hserved x hx) (hserved y hy) (hhex hbytes x hx) (hhex hbytes y hy)).mpr
      (fun hsign hr key hkey => hsame hsign hr key hkey x hx y hy)

/-- A place in the file of the blocks. -/
def fileOfBlocks (pos : UInt64) : FilePosition :=
  { fileNameRelative := Blob.replicate 1 98 Blob.byte_fits, pos }

/-- The header of the block at the beginning of it. -/
def storedHeader : BlockHeader :=
  { (default : BlockHeader) with
    hash := Blob.replicate 32 1 Blob.hash_fits, prevHash := BlockChain.GENESIS_BLOCK_HASH
    filePos := fileOfBlocks 0 }

/-- The sign block behind it. -/
def storedSign : MinimumSignBlockHeader :=
  { hash := Blob.replicate 32 9 Blob.hash_fits, filePos := fileOfBlocks 9
    prevHash := Blob.replicate 32 1 Blob.hash_fits }

/-- A server that has both in its file. -/
def storingNode : Server trustingScheme where
  blockchain := (BlockChain.new.addBlock storedHeader).2
  timeline := .built [.simple storedHeader.hash, .sign storedSign]
  dumps :=
    { (cachingServer ∅) with
      files := OrdMap.insert ∅ (fileOfBlocks 0).fileNameRelative
        (blockFraming.frame [7] ++ blockFraming.frame [8]) }

theorem mainBlock_storing :
    storingNode.blockchain.MainBlock 1 (storedHeader.withNumber (some 1)) :=
  { byNumber := by decide +kernel, byHash := by decide +kernel, numbered := rfl }

theorem stored_main : storingNode.dumps.Stored storedHeader.filePos oneByte :=
  { named := rfl, framed := ⟨[], blockFraming.frame [8], by decide, OrdMap.find?_insert_self, rfl⟩ }

theorem stored_sign : storingNode.dumps.Stored storedSign.filePos (Blob.replicate 1 8 Blob.byte_fits) :=
  { named := rfl, framed := ⟨blockFraming.frame [7], [], by decide, OrdMap.find?_insert_self, rfl⟩ }

theorem signBlock_storing : storingNode.timeline.SignBlock storingNode.blockchain storedSign :=
  { found := by decide +kernel, other := ⟨default, by decide +kernel, rfl⟩ }

theorem made_storing : ∀ key, storingNode.dumps.privateKey = some key → key.Made := by
  rintro key ⟨⟩
  exact made_trustingKey

theorem canServe_storing (isHex isSign cached : Bool) :
    storingNode.dumps.CanServe oneByte 0 1 isSign ⟨3, isHex, cached⟩ ∧
      storingNode.dumps.CanServe (Blob.replicate 1 8 Blob.byte_fits) 0 1 isSign ⟨3, isHex, cached⟩ := by
  have hshort : ∀ {bytes : Bytes}, bytes.length < 2 ^ 62 →
      (DumpServer.spelled isHex bytes).length < 2 ^ 63 := by
    intro bytes hlen
    have hle := DumpServer.length_spelled_le isHex bytes
    omega
  unfold DumpServer.CanServe
  cases isSign with
  | true =>
    have hmain : (signedPart trustingKey (drawnSign trustingKey oneByte 3) oneByte 0 1).length <
        2 ^ 62 := by decide +kernel
    have hsign : (signedPart trustingKey (drawnSign trustingKey (Blob.replicate 1 8 Blob.byte_fits) 3)
        (Blob.replicate 1 8 Blob.byte_fits) 0 1).length < 2 ^ 62 := by decide +kernel
    exact ⟨⟨rfl, trustingKey, rfl, fun _ => ⟨_, rfl⟩, hshort hmain⟩,
      rfl, trustingKey, rfl, fun _ => ⟨_, rfl⟩, hshort hsign⟩
  | false =>
    rw [if_neg Bool.false_ne_true, if_neg Bool.false_ne_true]
    exact ⟨⟨rfl, hshort (by decide)⟩, rfl, hshort (by decide)⟩

/-- A compression that is not asked. -/
def idleLZ4 : LZ4 where
  compress_default _ _ _ := []
  decompress_safe _ _ _ := .error []

end Server

end TorrentNode
