import TorrentNode.BlockSource.ReadBack

/-!
# Batches of dumps

The dumps of a list of hashes are asked for in batches, a batch of one hash being a
request of its own. A node answers with its dumps, and each lands under its hash: unless
the number of batches, a division rounded up, runs over the end of a `size_t`.
-/

namespace TorrentNode

open GetNewBlocksFromServer

/-- LZ4 gives every string back that it takes. -/
def LZ4.IsLossless (lz4 : LZ4) : Prop :=
  ∀ src, src ≠ [] → src.length ≤ LZ4.MAX_INPUT_SIZE → lz4.Lossless src

/-- The concatenation of dumps fits: what is compressed LZ4 takes, and the rest a string. -/
def DumpsFit (isCompress : Bool) (blocks : List Blob) : Prop :=
  (blocks.flatMap serializeString).length ≤ if isCompress then LZ4.MAX_INPUT_SIZE else 2 ^ 63 - 1

/-- What is compressed is a string again. -/
theorem LZ4.Lossless.compress_lt {lz4 : LZ4} {src : Bytes} (h : src ≠ [] → lz4.Lossless src) :
    (lz4.compress src).length < 2 ^ 63 := by
  by_cases hnil : src = []
  · have hempty : lz4.compress src = [] := if_pos hnil
    rw [hempty]
    decide
  · obtain ⟨hsize, block, hblock, hne, hlen, -⟩ := h hnil
    have hmax : LZ4.MAX_INPUT_SIZE = 0x7E000000 := rfl
    have hbound : LZ4.compressBound src.length = src.length + src.length / 255 + 16 :=
      if_neg (by omega)
    have hmod : src.length % 2 ^ 32 = src.length := Nat.mod_eq_of_lt (by omega)
    rw [LZ4.compress, if_neg hnil]
    simp only [hmod]
    rw [if_neg (by omega), hblock]
    cases block with
    | nil => exact absurd rfl hne
    | cons b block =>
        rw [List.length_append, LZ4.length_header]
        omega

section RoundTrip

variable {lz4 : LZ4}

/-- **A batch** is written, and read back. -/
theorem parse_genDumpBlocksBinary (hlz4 : lz4.IsLossless) {isCompress : Bool} {blocks : List Blob}
    (hfit : DumpsFit isCompress blocks) :
    ∃ str, genDumpBlocksBinary lz4 blocks isCompress = .ok str ∧
      parseDumpBlocksBinary lz4 str isCompress = .ok blocks := by
  obtain ⟨src, hsrc⟩ : ∃ src, blocks.flatMap serializeString = src := ⟨_, rfl⟩
  have hmax : LZ4.MAX_INPUT_SIZE < 2 ^ 63 - 1 := by decide
  unfold DumpsFit at hfit
  have hlen : src.length < 2 ^ 63 := by
    rw [← hsrc]
    split at hfit <;> omega
  have hlossless : isCompress = true → src ≠ [] → lz4.Lossless src := by
    intro hc hne
    rw [if_pos hc, hsrc] at hfit
    exact hlz4 src hne hfit
  obtain ⟨str, hstr⟩ : ∃ str, genDumpBlocksBinary lz4 blocks isCompress = .ok str := by
    unfold genDumpBlocksBinary
    rw [hsrc, show Blob.ofBytes src = .ok ⟨src, hlen⟩ from Blob.ofBytes_val ⟨src, hlen⟩]
    cases hc : isCompress with
    | false => exact ⟨_, rfl⟩
    | true => exact ⟨_, Blob.ofBytes_val ⟨_, LZ4.Lossless.compress_lt (hlossless hc)⟩⟩
  subst hsrc
  exact ⟨str, hstr, parseDumpBlocksBinary_written hstr hlossless⟩

/-- **A single dump** is written, and read back. -/
theorem parse_genDumpBlockBinary (hlz4 : lz4.IsLossless) {isCompress : Bool} {block : Blob}
    (hfit : DumpsFit isCompress [block]) :
    ∃ str, genDumpBlockBinary lz4 block isCompress = .ok str ∧
      parseDumpBlockBinary lz4 str isCompress = .ok block := by
  cases isCompress with
  | false => exact ⟨block, rfl, rfl⟩
  | true =>
      have hlossless : block.val ≠ [] → lz4.Lossless block.val := by
        intro hne
        refine hlz4 block.val hne ?_
        unfold DumpsFit at hfit
        rw [if_pos rfl, List.flatMap_singleton, length_serializeString] at hfit
        unfold Blob.size at hfit
        omega
      have hstr := Blob.ofBytes_val ⟨_, LZ4.Lossless.compress_lt hlossless⟩
      refine ⟨_, hstr, ?_⟩
      unfold parseDumpBlockBinary
      rw [if_pos rfl]
      dsimp only
      rw [LZ4.decompress_compress hlossless]
      exact Blob.ofBytes_val block

end RoundTrip

namespace GetNewBlocksFromServer

/-- What a node that holds these dumps answers to the request for a batch. -/
def answerPart (lz4 : LZ4) (isCompress : Bool) (dump : Blob → Blob) (hashes : List Blob) :
    Except Err Blob :=
  match hashes with
  | [hash] => genDumpBlockBinary lz4 (dump hash) isCompress
  | _ => genDumpBlocksBinary lz4 (hashes.map dump) isCompress

/-- `requests` returns the answers of such a node in the order of the requests; what it makes of no
requests at all is left open. -/
structure ServesDumps (net : Net) (lz4 : LZ4) (isCompress : Bool) (dump : Blob → Blob) : Prop where
  parseOne : net.messages.parseDumpBlockBinary = parseDumpBlockBinary lz4
  parseMany : net.messages.parseDumpBlocksBinary = parseDumpBlocksBinary lz4
  answers : ∀ asked parts servers, parts ≠ [] →
    net.p2p.dumps asked parts false servers = parts.mapM (answerPart lz4 isCompress dump)

section Load

variable {net : Net} {lz4 : LZ4} {isCompress : Bool} {dump : Blob → Blob}

/-- The dumps of a batch, each with its hash. -/
theorem parseDumpsPart_answer (hserve : ServesDumps net lz4 isCompress dump) (hlz4 : lz4.IsLossless)
    {hashes : List Blob} (hfit : DumpsFit isCompress (hashes.map dump)) :
    ∃ answer, answerPart lz4 isCompress dump hashes = .ok answer ∧
      parseDumpsPart net isCompress hashes answer =
        .ok (hashes.map (fun hash => (hash, dump hash))) := by
  have hmany : ∃ answer, genDumpBlocksBinary lz4 (hashes.map dump) isCompress = .ok answer ∧
      (do
        let blocks ← net.messages.parseDumpBlocksBinary answer isCompress
        check (blocks.length == hashes.length) "Incorrect answer"
        pure (hashes.zip blocks)) = .ok (hashes.map (fun hash => (hash, dump hash))) := by
    obtain ⟨str, hstr, hparse⟩ := parse_genDumpBlocksBinary hlz4 hfit
    refine ⟨str, hstr, ?_⟩
    rw [hserve.parseMany, hparse]
    refine bind_eq_ok.mpr ⟨_, rfl, check_bind_eq_ok.mpr ⟨?_, ?_⟩⟩
    · rw [List.length_map]
      exact beq_self_eq_true _
    · rw [← List.map_prod_left_eq_zip]
      rfl
  match hashes, hfit, hmany with
  | [], _, hmany => exact hmany
  | [hash], hfit, _ =>
      obtain ⟨str, hstr, hparse⟩ := parse_genDumpBlockBinary hlz4 hfit
      refine ⟨str, hstr, ?_⟩
      show (do
        let dump ← net.messages.parseDumpBlockBinary str isCompress
        pure [(hash, dump)]) = _
      rw [hserve.parseOne, hparse]
      rfl
  | _ :: _ :: _, _, hmany => exact hmany

/-- **All batches**: every dump is kept under its hash. -/
theorem keepDumpsParts_answers (hserve : ServesDumps net lz4 isCompress dump)
    (hlz4 : lz4.IsLossless) : ∀ (parts : List (List Blob)) {g : GetNewBlocksFromServer},
      g.isCompress = isCompress → (∀ part ∈ parts, DumpsFit isCompress (part.map dump)) →
      ∃ answers, parts.mapM (answerPart lz4 isCompress dump) = .ok answers ∧
        answers.length = parts.length ∧
        keepDumpsParts net (parts.zip answers) g =
          (.ok (), g.keepDumps (parts.flatten.map (fun hash => (hash, dump hash))))
  | [], g, _, _ => ⟨[], rfl, rfl, rfl⟩
  | part :: parts, g, hg, hfit => by
      obtain ⟨answer, hanswer, hparse⟩ :=
        parseDumpsPart_answer hserve hlz4 (hfit part List.mem_cons_self)
      obtain ⟨answers, hanswers, hlen, hkeep⟩ := keepDumpsParts_answers hserve hlz4 parts
        (g := g.keepDumps (part.map (fun hash => (hash, dump hash)))) hg
        (fun p hp => hfit p (List.mem_cons_of_mem _ hp))
      refine ⟨answer :: answers, ?_, congrArg (· + 1) hlen, ?_⟩
      · rw [List.mapM_cons, hanswer, hanswers]
        rfl
      · rw [List.zip_cons_cons, keepDumpsParts, hg, hparse]
        dsimp only
        rw [hkeep]
        unfold keepDumps
        rw [List.flatten_cons, List.map_append, List.foldl_append]

/-- Dumps that were kept under their hashes are found there. -/
theorem find?_keepDumps (g : GetNewBlocksFromServer) {hashes : List Blob} {hash : Blob}
    (h : hash ∈ hashes) :
    (g.keepDumps (hashes.map (fun hash => (hash, dump hash)))).advancedLoadsBlocksDumps.find? hash =
      some (dump hash) := by
  have hmem : (hash, dump hash) ∈ hashes.map (fun hash => (hash, dump hash)) :=
    List.mem_map.mpr ⟨hash, h, rfl⟩
  obtain ⟨found, hfound, hfind⟩ :=
    OrdMap.find?_foldl_insert_of_mem (m := g.advancedLoadsBlocksDumps) hmem
  obtain ⟨_, -, heq⟩ := List.mem_map.mp hfound
  obtain ⟨rfl, rfl⟩ := Prod.mk.inj heq
  exact hfind

/-- **Every hash is in a batch**, unless their number overflows. -/
theorem mem_dumpParts {n : Nat} {hashes : List Blob} (hn : 1 ≤ n)
    (hsum : hashes.length + n - 1 < 2 ^ 64) {hash : Blob} (h : hash ∈ hashes) :
    hash ∈ (dumpParts n hashes).flatten := by
  obtain ⟨i, hi, rfl⟩ := List.mem_iff_getElem.mp h
  unfold dumpParts
  rw [Nat.mod_eq_of_lt hsum, List.mem_flatten]
  -- the hash at `i` is in the batch `i / n`, at `i % n`
  have hdiv := Nat.div_add_mod' i n
  have hmod : i % n < n := Nat.mod_lt i hn
  refine ⟨(hashes.drop (i / n * n)).take n, List.mem_map.mpr ⟨i / n, ?_, rfl⟩, ?_⟩
  · rw [List.mem_range, Nat.lt_div_iff_mul_lt hn]
    omega
  · rw [List.mem_iff_getElem]
    refine ⟨i % n, ?_, ?_⟩
    · rw [List.length_take, List.length_drop]
      omega
    · rw [List.getElem_take, List.getElem_drop]
      congr 1

/-- Where the number of batches overflows there is none. -/
theorem dumpParts_overflow {n : Nat} {hashes : List Blob} (hn : n < 2 ^ 64)
    (hlen : hashes.length < 2 ^ 63) (hsum : ¬hashes.length + n - 1 < 2 ^ 64) :
    dumpParts n hashes = [] := by
  have hmod : (hashes.length + n - 1) % 2 ^ 64 = hashes.length + n - 1 - 2 ^ 64 := by
    rw [Nat.mod_eq_sub_mod (by omega), Nat.mod_eq_of_lt (by omega)]
  unfold dumpParts
  rw [hmod, Nat.div_eq_of_lt (by omega)]
  rfl

/-- The dumps of these hashes were loaded. -/
def Loaded (dump : Blob → Blob) (hashes : List Blob)
    (result : Except Err Unit × GetNewBlocksFromServer) : Prop :=
  result.1 = .ok () ∧
    ∀ hash ∈ hashes, result.2.advancedLoadsBlocksDumps.find? hash = some (dump hash)

theorem loaded_of_lt (hserve : ServesDumps net lz4 isCompress dump) (hlz4 : lz4.IsLossless)
    {g : GetNewBlocksFromServer} (hg : g.isCompress = isCompress) {hashes servers : List Blob}
    (hbatch : 1 ≤ g.countBlocksInBatch)
    (hfit : ∀ part ∈ dumpParts g.countBlocksInBatch hashes, DumpsFit isCompress (part.map dump))
    (hsum : hashes.length + g.countBlocksInBatch - 1 < 2 ^ 64) :
    Loaded dump hashes (loadBlockDumpsToCache net g hashes servers false) := by
  unfold loadBlockDumpsToCache
  by_cases hnil : hashes = []
  · rw [if_pos hnil, hnil]
    exact ⟨rfl, fun hash h => by cases h⟩
  · have hparts : dumpParts g.countBlocksInBatch hashes ≠ [] := by
      obtain ⟨hash, hhash⟩ := List.exists_mem_of_ne_nil _ hnil
      have hmem := mem_dumpParts hbatch hsum hhash
      intro hempty
      rw [hempty] at hmem
      cases hmem
    obtain ⟨answers, hanswers, hlen, hkeep⟩ := keepDumpsParts_answers hserve hlz4 _ (g := g.ask) hg hfit
    rw [if_neg hnil]
    dsimp only
    rw [hserve.answers _ _ _ hparts, hanswers]
    dsimp only
    rw [if_neg (not_not.mpr hlen), hkeep]
    exact ⟨rfl, fun hash h => find?_keepDumps g.ask (mem_dumpParts hbatch hsum h)⟩

/-- Without a batch nothing is loaded. -/
theorem not_loaded_of_no_parts {g : GetNewBlocksFromServer} {hashes servers : List Blob}
    (hnil : hashes ≠ []) (hempty : g.advancedLoadsBlocksDumps = ∅)
    (hparts : dumpParts g.countBlocksInBatch hashes = []) :
    ¬Loaded dump hashes (loadBlockDumpsToCache net g hashes servers false) := by
  rintro ⟨hok, hfound⟩
  obtain ⟨hash, hhash⟩ := List.exists_mem_of_ne_nil _ hnil
  have hfind := hfound hash hhash
  unfold loadBlockDumpsToCache at hok hfind
  rw [if_neg hnil, hparts] at hok hfind
  dsimp only at hok hfind
  cases hanswer : net.p2p.dumps g.asked [] false servers with
  | error e =>
      rw [hanswer] at hok
      cases hok
  | ok responses =>
      rw [hanswer] at hok hfind
      dsimp only at hok hfind
      by_cases hlen : responses.length ≠ ([] : List (List Blob)).length
      · rw [if_pos hlen] at hok
        cases hok
      · rw [if_neg hlen, List.zip_nil_left, keepDumpsParts] at hfind
        have hnone : g.ask.advancedLoadsBlocksDumps.find? hash = none := by
          show g.advancedLoadsBlocksDumps.find? hash = none
          rw [hempty]
          rfl
        rw [hnone] at hfind
        cases hfind

end Load

/-- The same requests with other dumps in the cache. -/
def withCache (g : GetNewBlocksFromServer) (cache : OrdMap Blob Blob) : GetNewBlocksFromServer :=
  { g with advancedLoadsBlocksDumps := cache }

/-- **Batches of dumps are read back, and loaded exactly where the sum that their number is computed
from fits a `size_t`.** -/
theorem dump_batches_iff (lz4 : LZ4) (hlz4 : lz4.IsLossless) :
    (∀ blocks isCompress, DumpsFit isCompress blocks →
      ∃ str, genDumpBlocksBinary lz4 blocks isCompress = .ok str ∧
        parseDumpBlocksBinary lz4 str isCompress = .ok blocks) ∧
    ∀ net (g : GetNewBlocksFromServer) dump hashes servers,
      ServesDumps net lz4 g.isCompress dump →
      1 ≤ g.countBlocksInBatch → g.countBlocksInBatch < 2 ^ 64 → hashes.length < 2 ^ 63 →
      (∀ part ∈ dumpParts g.countBlocksInBatch hashes, DumpsFit g.isCompress (part.map dump)) →
      ((∀ cache, Loaded dump hashes
          (loadBlockDumpsToCache net (g.withCache cache) hashes servers false)) ↔
        hashes = [] ∨ hashes.length + g.countBlocksInBatch - 1 < 2 ^ 64) := by
  refine ⟨fun blocks isCompress => parse_genDumpBlocksBinary hlz4, ?_⟩
  intro net g dump hashes servers hserve hbatch hsize hlen hfit
  constructor
  · intro hloaded
    by_contra hnot
    obtain ⟨hnil, hsum⟩ := not_or.mp hnot
    exact not_loaded_of_no_parts (g := g.withCache ∅) hnil rfl
      (dumpParts_overflow hsize hlen hsum) (hloaded ∅)
  · rintro (hnil | hsum) cache
    · unfold loadBlockDumpsToCache
      rw [if_pos hnil, hnil]
      exact ⟨rfl, fun hash h => by cases h⟩
    · exact loaded_of_lt hserve hlz4 (g := g.withCache cache) rfl hbatch hfit hsum

/-! ## Two batches, and none -/

/-- A block of LZ4 without matches, which is what the library makes of strings shorter than 13
bytes: a length and the bytes. -/
def literalBlock (src : Bytes) : Bytes :=
  if src.length < 15 then UInt8.ofNat (16 * src.length) :: src
  else 240 :: (List.replicate ((src.length - 15) / 255) 255 ++
    UInt8.ofNat ((src.length - 15) % 255) :: src)

/-- A compression that copies what it is given behind a length. -/
def literalLZ4 : LZ4 where
  compress_default := fun src _ _ => literalBlock src
  decompress_safe := fun block _ size => .ok (block.drop (block.length - size))

theorem literalLZ4_isLossless : literalLZ4.IsLossless := by
  intro src _ hsize
  have hmax : LZ4.MAX_INPUT_SIZE = 0x7E000000 := rfl
  have hbound : LZ4.compressBound src.length = src.length + src.length / 255 + 16 :=
    if_neg (by omega)
  obtain ⟨front, hfront, hlen⟩ : ∃ front, literalBlock src = front ++ src ∧ 1 ≤ front.length ∧
      front.length ≤ src.length / 255 + 16 := by
    unfold literalBlock
    by_cases hshort : src.length < 15
    · rw [if_pos hshort]
      exact ⟨[_], rfl, Nat.le_refl _, by rw [List.length_singleton]; omega⟩
    · rw [if_neg hshort]
      refine ⟨240 :: (List.replicate ((src.length - 15) / 255) 255 ++
        [UInt8.ofNat ((src.length - 15) % 255)]), by simp, by simp, ?_⟩
      rw [List.length_cons, List.length_append, List.length_replicate, List.length_singleton]
      have hle : (src.length - 15) / 255 ≤ src.length / 255 :=
        Nat.div_le_div_right (Nat.sub_le _ _)
      omega
  refine ⟨hsize, front ++ src, hfront, ?_, ?_, ?_⟩
  · intro hnil
    rw [(List.append_eq_nil_iff.mp hnil).1] at hlen
    exact absurd hlen.1 (by decide)
  · rw [hbound, List.length_append]
    omega
  · show Except.ok ((front ++ src).drop ((front ++ src).length - src.length)) = _
    rw [List.length_append, Nat.add_sub_cancel, List.drop_left]

/-- A node whose dumps are the names that they are asked for by. -/
def echoNet (isCompress : Bool) : Net where
  messages := messages { jsonToString := fun _ => ∅, Parse := fun _ => none } literalLZ4
  p2p :=
    { countBlocks := fun _ => ⟨[], none⟩
      preLoad := fun _ _ _ => ⟨[], none⟩
      headers := fun _ _ _ => .error .stop
      dumps := fun _ parts _ _ =>
        if parts = [] then .error (.exception "response size 0")
        else parts.mapM (answerPart literalLZ4 isCompress id)
      dump := fun _ _ _ _ _ _ => .error .stop
      wholeDump := fun _ _ _ _ => .error .stop }

theorem echoNet_serves (isCompress : Bool) :
    ServesDumps (echoNet isCompress) literalLZ4 isCompress id where
  parseOne := rfl
  parseMany := rfl
  answers := fun _ _ _ hparts => if_neg hparts

/-- Three hashes in batches of two, and one dump on its own that is compressed. -/
theorem dump_batches_iff_three :
    let hash (b : UInt8) : Blob := Blob.replicate 1 b Blob.byte_fits
    let g : GetNewBlocksFromServer := ⟨0, 2, false, [], ∅, 0⟩
    Loaded id [hash 1, hash 2, hash 3]
        (loadBlockDumpsToCache (echoNet false) g [hash 1, hash 2, hash 3] [] false) ∧
      ∃ str, genDumpBlocksBinary literalLZ4 [hash 1] true = .ok str ∧
        parseDumpBlocksBinary literalLZ4 str true = .ok [hash 1] := by
  intro hash g
  have hmain := dump_batches_iff literalLZ4 literalLZ4_isLossless
  refine ⟨(hmain.2 (echoNet false) g id [hash 1, hash 2, hash 3] [] (echoNet_serves false)
    (by decide) (by decide) (by decide) ?_).mpr (Or.inr (by decide)) ∅, hmain.1 _ _ ?_⟩
  · intro part hpart
    have hparts : dumpParts g.countBlocksInBatch [hash 1, hash 2, hash 3] =
        [[hash 1, hash 2], [hash 3]] := by decide
    rw [hparts] at hpart
    rcases List.mem_cons.mp hpart with rfl | hpart
    · show 18 ≤ 2 ^ 63 - 1
      omega
    · rw [List.mem_singleton.mp hpart]
      show 9 ≤ 2 ^ 63 - 1
      omega
  · show 9 ≤ LZ4.MAX_INPUT_SIZE
    decide

/-- **In batches of the greatest size** two hashes are no batch at all. -/
theorem dump_batches_overflow :
    ¬ ∀ (net : Net) (lz4 : LZ4) (g : GetNewBlocksFromServer) dump hashes servers,
      lz4.IsLossless → ServesDumps net lz4 g.isCompress dump →
      1 ≤ g.countBlocksInBatch → g.countBlocksInBatch < 2 ^ 64 → hashes.length < 2 ^ 63 →
      (∀ part ∈ dumpParts g.countBlocksInBatch hashes, DumpsFit g.isCompress (part.map dump)) →
      Loaded dump hashes (loadBlockDumpsToCache net g hashes servers false) := by
  intro h
  have hload := h (echoNet false) literalLZ4 ⟨0, 2 ^ 64 - 1, false, [], ∅, 0⟩ id
    [⟨[1], by decide⟩, ⟨[2], by decide⟩] [] literalLZ4_isLossless (echoNet_serves false)
    (by decide) (by decide) (by decide) (fun part hpart => by cases hpart)
  exact absurd hload.1 (fun hok => by cases hok)

end GetNewBlocksFromServer

end TorrentNode
