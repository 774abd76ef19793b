import Mathlib.Data.List.Forall2
import TorrentNode.BlockSource.DeliveryOrder
import TorrentNode.BlockSource.PreLoad

/-!
# With and without signatures

Two sources, one of which asks for signed dumps and checks them. Where the servers
sign what they serve, the one that asks for bare dumps is the other with the
signatures taken off: its cache, the entries of a batch before they are parsed, and
what comes of each call.
-/

namespace TorrentNode

/-! ## Signed dumps -/

namespace SignatureScheme

variable (scheme : SignatureScheme)

/-- A dump that `checkSignatureBlock` takes. -/
def Signed (dump : Blob) : Prop := ∃ r, scheme.checkSignatureBlock dump = .ok r

/-- The block in a signed dump. -/
def bare (dump : Blob) : Blob :=
  match scheme.checkSignatureBlock dump with
  | .ok r => r.block
  | .error _ => ∅

theorem checkSignatureBlock_empty : ∃ e, scheme.checkSignatureBlock ∅ = .error e := by
  have hread : ∃ e, deserializeAll readSigned ∅ = .error e := ⟨_, rfl⟩
  obtain ⟨e, he⟩ := hread
  exact ⟨e, by rw [checkSignatureBlock, he]; rfl⟩

theorem bare_empty : scheme.bare ∅ = ∅ := by
  obtain ⟨e, he⟩ := scheme.checkSignatureBlock_empty
  rw [bare, he]

/-- The block is shorter than the dump that it is signed in. -/
theorem size_of_checkSignatureBlock {dump : Blob} {r : BlockSignatureCheckResult}
    (h : scheme.checkSignatureBlock dump = .ok r) : r.block.size < dump.size := by
  obtain ⟨r', hall, h⟩ := bind_eq_ok.mp h
  obtain ⟨-, h⟩ := check_bind_eq_ok.mp h
  obtain ⟨-, -, h⟩ := bind_eq_ok.mp h
  obtain rfl := Except.ok.inj h
  obtain ⟨⟨r, next⟩, hread, rfl⟩ := map_eq_ok.mp hall
  obtain ⟨block, pos, hblock, hread⟩ := CursorReader.runFrom_bind_ok hread
  obtain ⟨sign, pos₁, -, hread⟩ := CursorReader.runFrom_bind_ok hread
  obtain ⟨pubkey, pos₂, -, hread⟩ := CursorReader.runFrom_bind_ok hread
  obtain ⟨address, pos₃, -, hread⟩ := CursorReader.runFrom_bind_ok hread
  rw [CursorReader.runFrom_pure] at hread
  obtain ⟨rfl, -⟩ := Prod.mk.inj (Except.ok.inj hread)
  rw [deserializeString_eq dump.property (Nat.zero_le _)] at hblock
  by_cases hend : dump.val.length < 0 + sizeofSizeT
  · rw [if_pos hend] at hblock
    cases hblock
  · rw [if_neg hend] at hblock
    dsimp only at hblock
    split at hblock
    · cases hblock
    · obtain ⟨rfl, -⟩ := Prod.mk.inj (Except.ok.inj hblock)
      have hword : sizeofSizeT = 8 := rfl
      unfold Blob.size
      rw [List.length_take, List.length_drop]
      omega

end SignatureScheme

/-- Two answers, to the same request with and without signatures: either both are the same error,
or they are related. -/
def Served {α β : Type} (R : α → β → Prop) (signed : Except Err α) (plain : Except Err β) : Prop :=
  (∃ e, signed = .error e ∧ plain = .error e) ∨ ∃ a b, signed = .ok a ∧ plain = .ok b ∧ R a b

/-- The second dump is the first without its signature. -/
def Unsigned (scheme : SignatureScheme) (signed plain : Blob) : Prop :=
  scheme.Signed signed ∧ plain = scheme.bare signed

/-- Dumps under their hashes, with and without signatures. -/
def UnsignedPairs (scheme : SignatureScheme) (signed plain : List (Blob × Blob)) : Prop :=
  (∀ d ∈ signed, scheme.Signed d.2) ∧ plain = signed.map (fun d => (d.1, scheme.bare d.2))

/-- Dumps in a row, with and without signatures. -/
def UnsignedDumps (scheme : SignatureScheme) (signed plain : List Blob) : Prop :=
  (∀ d ∈ signed, scheme.Signed d) ∧ plain = signed.map scheme.bare

/-- The dumps that come along with the last block. -/
def PreloadsServed (net : Net) (scheme : SignatureScheme) (isCompress : Bool)
    (signed plain : Blob) : Prop :=
  Served (UnsignedDumps scheme) (net.messages.parseDumpBlocksBinary signed isCompress)
    (net.messages.parseDumpBlocksBinary plain isCompress)

/-- The answers to `pre-load` differ in their dumps. -/
structure PreloadServed (net : Net) (scheme : SignatureScheme) (isCompress : Bool)
    (signed plain : PreloadBlocksResponse) : Prop where
  rest : plain = { signed with blockDumps := plain.blockDumps }
  dumps : PreloadsServed net scheme isCompress signed.blockDumps plain.blockDumps

/-- What one server answers to `pre-load`. -/
def AnswerServed (net : Net) (scheme : SignatureScheme) (isCompress : Bool)
    (signed plain : Blob × Except String Blob) : Prop :=
  signed.1 = plain.1 ∧
    ((∃ e, signed.2 = .error e ∧ plain.2 = .error e) ∨ ∃ r r', signed.2 = .ok r ∧
      plain.2 = .ok r' ∧ Served (PreloadServed net scheme isCompress)
        (net.messages.parsePreloadBlocksMessage r) (net.messages.parsePreloadBlocksMessage r'))

/-- What all of them answer. -/
structure BroadcastServed (net : Net) (scheme : SignatureScheme) (isCompress : Bool)
    (signed plain : Broadcast) : Prop where
  answers : List.Forall₂ (AnswerServed net scheme isCompress) signed.answers plain.answers
  thrown : signed.thrown = plain.thrown

/-- What is answered to a request for a part of the dumps. -/
def PartServed (net : Net) (scheme : SignatureScheme) (isCompress : Bool)
    (signed plain : List Blob × Blob) : Prop :=
  signed.1 = plain.1 ∧ Served (UnsignedPairs scheme)
    (GetNewBlocksFromServer.parseDumpsPart net isCompress signed.1 signed.2)
    (GetNewBlocksFromServer.parseDumpsPart net isCompress plain.1 plain.2)

/-- **Every dump is served signed on request**, and otherwise the answers are the same; the client
asks for all dumps compressed, or for none. -/
structure ServesSigned (net : Net) (scheme : SignatureScheme) (isCompress : Bool) : Prop where
  preLoad : ∀ asked currentBlock, BroadcastServed net scheme isCompress
    (net.p2p.preLoad asked currentBlock true) (net.p2p.preLoad asked currentBlock false)
  /-- In an empty answer there is nothing to sign. -/
  nothing : PreloadsServed net scheme isCompress ∅ ∅
  dumps : ∀ asked parts servers, Served (fun signed plain => signed.length = plain.length ∧
      List.Forall₂ (PartServed net scheme isCompress) (parts.zip signed) (parts.zip plain))
    (net.p2p.dumps asked parts true servers) (net.p2p.dumps asked parts false servers)
  dump : ∀ asked blockHash blockSize servers, Served (Unsigned scheme)
    (net.p2p.dump asked blockHash (blockSize + GetNewBlocksFromServer.ESTIMATE_SIZE_SIGNATURE) false
      true servers)
    (net.p2p.dump asked blockHash blockSize true false servers)
  wholeDump : ∀ asked blockHash servers, Served (Unsigned scheme)
    (net.p2p.wholeDump asked blockHash true servers) (net.p2p.wholeDump asked blockHash false servers)

/-! ## The cache -/

namespace GetNewBlocksFromServer

variable {net : Net} {scheme : SignatureScheme} {isCompress : Bool}

/-- The same cache with other dumps. -/
def withDumps (g : GetNewBlocksFromServer) (dumps : OrdMap Blob Blob) : GetNewBlocksFromServer :=
  { g with advancedLoadsBlocksDumps := dumps }

/-- The cache without the signatures. -/
def plain (scheme : SignatureScheme) (g : GetNewBlocksFromServer) : GetNewBlocksFromServer :=
  g.withDumps (g.advancedLoadsBlocksDumps.mapValues scheme.bare)

/-- All dumps in the cache are signed; with this setting they were asked for. -/
structure AllSigned (scheme : SignatureScheme) (isCompress : Bool) (g : GetNewBlocksFromServer) :
    Prop where
  compress : g.isCompress = isCompress
  signed : ∀ hash dump, g.advancedLoadsBlocksDumps.find? hash = some dump → scheme.Signed dump

/-- What leaves the dumps alone, and does not look at them. -/
structure Headers {α : Type} (f : GetNewBlocksFromServer → α × GetNewBlocksFromServer) : Prop where
  apart : ∀ g dumps, f (g.withDumps dumps) = ((f g).1, (f g).2.withDumps dumps)
  compress : ∀ g, (f g).2.isCompress = g.isCompress

theorem withDumps_self (g : GetNewBlocksFromServer) :
    g.withDumps g.advancedLoadsBlocksDumps = g := rfl

/-- The dumps behind such a call are those in front of it. -/
theorem Headers.dumps {α : Type} {f : GetNewBlocksFromServer → α × GetNewBlocksFromServer}
    (hf : Headers f) (g : GetNewBlocksFromServer) :
    (f g).2.advancedLoadsBlocksDumps = g.advancedLoadsBlocksDumps := by
  have h := congrArg Prod.snd (hf.apart g g.advancedLoadsBlocksDumps)
  rw [withDumps_self] at h
  rw [h]
  rfl

theorem Headers.plain {α : Type} {f : GetNewBlocksFromServer → α × GetNewBlocksFromServer}
    (hf : Headers f) (g : GetNewBlocksFromServer) :
    f (g.plain scheme) = ((f g).1, (f g).2.plain scheme) := by
  rw [GetNewBlocksFromServer.plain, hf.apart, GetNewBlocksFromServer.plain, hf.dumps g]

theorem Headers.allSigned {α : Type} {f : GetNewBlocksFromServer → α × GetNewBlocksFromServer}
    (hf : Headers f) {g : GetNewBlocksFromServer} (hg : g.AllSigned scheme isCompress) :
    (f g).2.AllSigned scheme isCompress := by
  refine ⟨(hf.compress g).trans hg.compress, fun hash dump h => ?_⟩
  rw [hf.dumps g] at h
  exact hg.signed hash dump h

theorem apart_keepHeaders : ∀ (n : Nat) (hs : List MinimumBlockHeader) (g : GetNewBlocksFromServer)
    (dumps : OrdMap Blob Blob), keepHeaders n hs (g.withDumps dumps) =
      ((keepHeaders n hs g).1, (keepHeaders n hs g).2.withDumps dumps)
  | _, [], _, _ => rfl
  | n, h :: hs, g, dumps => by
      unfold keepHeaders
      by_cases hn : h.number = n
      · rw [if_pos hn, if_pos hn]
        exact apart_keepHeaders (n + 1) hs
          { g with advancedLoadsBlocksHeaders := g.advancedLoadsBlocksHeaders ++ [(n, h)] } dumps
      · rw [if_neg hn, if_neg hn]

theorem compress_keepHeaders : ∀ (n : Nat) (hs : List MinimumBlockHeader)
    (g : GetNewBlocksFromServer), (keepHeaders n hs g).2.isCompress = g.isCompress
  | _, [], _ => rfl
  | n, h :: hs, g => by
      unfold keepHeaders
      by_cases hn : h.number = n
      · rw [if_pos hn, compress_keepHeaders]
      · rw [if_neg hn]

theorem apart_keepParts : ∀ (parts : List ((Nat × Nat) × Blob)) (g : GetNewBlocksFromServer)
    (dumps : OrdMap Blob Blob), keepParts net parts (g.withDumps dumps) =
      ((keepParts net parts g).1, (keepParts net parts g).2.withDumps dumps)
  | [], _, _ => rfl
  | ((n, count), answer) :: parts, g, dumps => by
      unfold keepParts
      cases parsePart net count answer with
      | error e => rfl
      | ok blocks =>
        simp only [apart_keepHeaders n blocks g dumps]
        rcases keepHeaders n blocks g with ⟨r, g'⟩
        cases r with
        | error e => rfl
        | ok u => exact apart_keepParts parts g' dumps

theorem compress_keepParts : ∀ (parts : List ((Nat × Nat) × Blob)) (g : GetNewBlocksFromServer),
    (keepParts net parts g).2.isCompress = g.isCompress
  | [], _ => rfl
  | ((n, count), answer) :: parts, g => by
      unfold keepParts
      cases parsePart net count answer with
      | error e => rfl
      | ok blocks =>
        have hkept := compress_keepHeaders n blocks g
        dsimp only
        rcases hkeep : keepHeaders n blocks g with ⟨r, g'⟩
        rw [hkeep] at hkept
        cases r with
        | error e => exact hkept
        | ok u => exact (compress_keepParts parts g').trans hkept

theorem headers_getBlockHeader (blockNum maxBlockNum : Nat) (servers : List Blob) :
    Headers (fun g => getBlockHeader net g blockNum maxBlockNum servers) := by
  constructor
  -- The headers are read and kept without a look at the dumps.
  · intro g dumps
    unfold getBlockHeader withDumps
    cases hf : g.advancedLoadsBlocksHeaders.find? (fun e => e.1 = blockNum) with
    | some e => simp only
    | none =>
      obtain ⟨countBlocks, hcount⟩ :
        ∃ c, min (maxBlockNum - blockNum + 1) g.maxAdvancedLoadBlocks = c := ⟨_, rfl⟩
      obtain ⟨countParts, hparts⟩ :
        ∃ c, (countBlocks + g.countBlocksInBatch - 1) / g.countBlocksInBatch = c := ⟨_, rfl⟩
      simp only [hcount, hparts, ask]
      by_cases hzero : countBlocks = 0 ∨ countParts = 0
      · simp only [hzero, if_true]
      · simp only [hzero, if_false]
        cases net.p2p.headers g.asked ((List.range countParts).map
            (calcBlockIndexes blockNum g.countBlocksInBatch countBlocks)) servers with
        | error e => rfl
        | ok answer =>
          by_cases hlen : answer.length = countParts
          · have hkeep := @apart_keepParts net
              (((List.range countParts).map
                (calcBlockIndexes blockNum g.countBlocksInBatch countBlocks)).zip answer)
              { g with advancedLoadsBlocksHeaders := [], asked := g.asked + 1 } dumps
            simp only [withDumps] at hkeep
            simp only [hlen, ne_eq, not_true_eq_false, if_false, hkeep]
            rcases keepParts net _ { g with advancedLoadsBlocksHeaders := [], asked := g.asked + 1 }
              with ⟨r, g'⟩
            cases r <;> rfl
          · simp only [hlen, ne_eq, not_false_eq_true, if_true]
  -- No branch sets `isCompress`.
  · intro g
    unfold getBlockHeader
    dsimp only
    split
    · rfl
    · split
      · rfl
      · split
        · rfl
        · split
          · rfl
          · rename_i answer _ _
            have hkept := @compress_keepParts net
            split
            · rename_i hparts
              have h := hkept _ _ |>.symm.trans (congrArg (fun x => x.2.isCompress) hparts)
              exact h.symm
            · rename_i hparts
              have h := hkept _ _ |>.symm.trans (congrArg (fun x => x.2.isCompress) hparts)
              exact h.symm

/-! ## The dumps -/

/-- A call of the source that asks for signatures, and the same call of the other. -/
structure Matches (scheme : SignatureScheme) (isCompress : Bool) {α β : Type} (R : α → β → Prop)
    (signed : α × GetNewBlocksFromServer) (plain : β × GetNewBlocksFromServer) : Prop where
  result : R signed.1 plain.1
  cache : plain.2 = signed.2.plain scheme
  allSigned : signed.2.AllSigned scheme isCompress

theorem Matches.cases {α β : Type} {R : α → β → Prop} {x : α × GetNewBlocksFromServer}
    {y : β × GetNewBlocksFromServer} (h : Matches scheme isCompress R x y) :
    ∃ a b g, x = (a, g) ∧ y = (b, g.plain scheme) ∧ R a b ∧ g.AllSigned scheme isCompress :=
  ⟨x.1, y.1, x.2, rfl, Prod.ext rfl h.cache, h.result, h.allSigned⟩

theorem AllSigned.ask {g : GetNewBlocksFromServer} (hg : g.AllSigned scheme isCompress) :
    g.ask.AllSigned scheme isCompress := ⟨hg.compress, hg.signed⟩

theorem Headers.matches {α : Type} {f : GetNewBlocksFromServer → α × GetNewBlocksFromServer}
    (hf : Headers f) {g : GetNewBlocksFromServer} (hg : g.AllSigned scheme isCompress) :
    Matches scheme isCompress Eq (f g) (f (g.plain scheme)) := by
  rw [hf.plain]
  exact ⟨rfl, rfl, hf.allSigned hg⟩

theorem AllSigned.keepDumps {g : GetNewBlocksFromServer} (hg : g.AllSigned scheme isCompress)
    {dumps : List (Blob × Blob)} (hall : ∀ d ∈ dumps, scheme.Signed d.2) :
    (g.keepDumps dumps).AllSigned scheme isCompress := by
  obtain ⟨hcompress, hg⟩ := hg
  refine ⟨hcompress, ?_⟩
  unfold GetNewBlocksFromServer.keepDumps
  dsimp only
  generalize g.advancedLoadsBlocksDumps = m at hg
  induction dumps generalizing m with
  | nil => exact hg
  | cons d dumps ih =>
    refine ih (fun e he => hall e (List.mem_cons_of_mem _ he)) _ ?_
    intro hash dump hfind
    rw [OrdMap.find?_insert] at hfind
    split at hfind
    · rw [← Option.some.inj hfind]
      exact hall d List.mem_cons_self
    · exact hg hash dump hfind

theorem plain_keepDumps (g : GetNewBlocksFromServer) (dumps : List (Blob × Blob)) :
    (g.plain scheme).keepDumps (dumps.map (fun d => (d.1, scheme.bare d.2))) =
      (g.keepDumps dumps).plain scheme := by
  unfold GetNewBlocksFromServer.keepDumps GetNewBlocksFromServer.plain withDumps
  dsimp only
  congr 1
  generalize g.advancedLoadsBlocksDumps = m
  induction dumps generalizing m with
  | nil => rfl
  | cons d dumps ih =>
    rw [List.map_cons, List.foldl_cons, List.foldl_cons, ← ih, OrdMap.mapValues_insert]

theorem matches_keepDumpsParts : ∀ {parts parts' : List (List Blob × Blob)}
    {g : GetNewBlocksFromServer}, g.AllSigned scheme isCompress →
    List.Forall₂ (PartServed net scheme isCompress) parts parts' →
    Matches scheme isCompress Eq (keepDumpsParts net parts g) (keepDumpsParts net parts' (g.plain scheme))
  | [], [], g, hg, _ => ⟨rfl, rfl, hg⟩
  | (hashes, answer) :: parts, (hashes', answer') :: parts', g, hg, h => by
      obtain ⟨⟨hhashes, hserved⟩, hrest⟩ := List.forall₂_cons.mp h
      dsimp only at hhashes hserved
      subst hhashes
      rw [keepDumpsParts, keepDumpsParts]
      have hcompress : (g.plain scheme).isCompress = g.isCompress := rfl
      rw [hcompress, hg.compress]
      rcases hserved with ⟨e, he, he'⟩ | ⟨dumps, dumps', hd, hd', hall, rfl⟩
      · rw [he, he']
        exact ⟨rfl, rfl, hg⟩
      · rw [hd, hd']
        dsimp only
        rw [plain_keepDumps]
        exact matches_keepDumpsParts (hg.keepDumps hall) hrest

theorem matches_loadBlockDumpsToCache (hserve : ServesSigned net scheme isCompress) {g : GetNewBlocksFromServer}
    (hg : g.AllSigned scheme isCompress) (hashes servers : List Blob) :
    Matches scheme isCompress Eq (loadBlockDumpsToCache net g hashes servers true)
      (loadBlockDumpsToCache net (g.plain scheme) hashes servers false) := by
  unfold loadBlockDumpsToCache
  by_cases hnil : hashes = []
  · rw [if_pos hnil, if_pos hnil]
    exact ⟨rfl, rfl, hg⟩
  · rw [if_neg hnil, if_neg hnil]
    dsimp only
    have hask : (g.plain scheme).ask = g.ask.plain scheme := rfl
    have hasked : (g.plain scheme).asked = g.asked := rfl
    have hbatch : (g.plain scheme).countBlocksInBatch = g.countBlocksInBatch := rfl
    rw [hask, hasked, hbatch]
    rcases hserve.dumps g.asked (dumpParts g.countBlocksInBatch hashes) servers with
      ⟨e, he, he'⟩ | ⟨answers, answers', ha, ha', hlen, hparts⟩
    · rw [he, he']
      exact ⟨rfl, rfl, hg.ask⟩
    · rw [ha, ha']
      dsimp only
      rw [hlen]
      split
      · exact ⟨rfl, rfl, hg.ask⟩
      · exact matches_keepDumpsParts hg.ask hparts

/-- **A dump**, with and without its signature. -/
theorem matches_getBlockDump (hserve : ServesSigned net scheme isCompress) {g : GetNewBlocksFromServer}
    (hg : g.AllSigned scheme isCompress) (blockHash : Blob) (blockSize : Nat) (servers : List Blob) :
    Matches scheme isCompress (Served (Unsigned scheme))
      (getBlockDump net g blockHash blockSize true false servers true)
      (getBlockDump net (g.plain scheme) blockHash blockSize true false servers false) := by
  have hfind : ∀ g : GetNewBlocksFromServer, (g.plain scheme).advancedLoadsBlocksDumps.find? blockHash =
      (g.advancedLoadsBlocksDumps.find? blockHash).map scheme.bare :=
    fun g => OrdMap.find?_mapValues _
  have hheaders : (g.plain scheme).advancedLoadsBlocksHeaders = g.advancedLoadsBlocksHeaders := rfl
  unfold getBlockDump
  rw [hfind g, hheaders]
  cases hcached : g.advancedLoadsBlocksDumps.find? blockHash with
  | some dump => exact ⟨Or.inr ⟨dump, _, rfl, rfl, hg.signed _ _ hcached, rfl⟩, rfl, hg⟩
  | none =>
    dsimp only [Option.map_none]
    obtain ⟨u, _, g₁, hload, hload', rfl, hsigned⟩ := (matches_loadBlockDumpsToCache hserve hg
      ((g.advancedLoadsBlocksHeaders.dropWhile (fun e => !mentions blockHash e.2)).flatMap
        (fun e => advancedHashes e.2)) servers).cases
    rw [hload, hload']
    cases u with
    | error e => exact ⟨Or.inl ⟨e, rfl, rfl⟩, rfl, hsigned⟩
    | ok u =>
      dsimp only
      rw [hfind g₁]
      cases hcached₁ : g₁.advancedLoadsBlocksDumps.find? blockHash with
      | some dump => exact ⟨Or.inr ⟨dump, _, rfl, rfl, hsigned.signed _ _ hcached₁, rfl⟩, rfl, hsigned⟩
      | none => exact ⟨hserve.dump g₁.asked blockHash blockSize servers, rfl, hsigned.ask⟩

/-! ## Dumps that come along -/

theorem matches_addPreLoadHeaders : ∀ {headers : List MinimumBlockHeader} {n : Nat}
    {dumps : List Blob} {g : GetNewBlocksFromServer}, g.AllSigned scheme isCompress →
    (∀ d ∈ dumps, scheme.Signed d) →
    Matches scheme isCompress Eq (addPreLoadHeaders n headers dumps g)
      (addPreLoadHeaders n headers (dumps.map scheme.bare) (g.plain scheme))
  | [], _, _, _, hg, _ => ⟨rfl, rfl, hg⟩
  | header :: headers, n, dumps, g, hg, hall => by
      unfold addPreLoadHeaders
      by_cases hn : header.number = n
      · rw [if_pos hn, if_pos hn]
        cases dumps with
        | nil => exact ⟨rfl, rfl, hg⟩
        | cons dump dumps =>
          have hone : ∀ d ∈ [(header.hash, dump)], scheme.Signed d.2 := by
            intro d hd
            rw [List.mem_singleton.mp hd]
            exact hall dump List.mem_cons_self
          have hkeep := @plain_keepDumps scheme g [(header.hash, dump)]
          rw [List.map_singleton] at hkeep
          rw [List.map_cons]
          dsimp only
          rw [hkeep]
          have hnext : AllSigned scheme isCompress { (g.keepDumps [(header.hash, dump)]) with
              advancedLoadsBlocksHeaders := g.advancedLoadsBlocksHeaders ++ [(n, header)] } :=
            ⟨(hg.keepDumps hone).compress, (hg.keepDumps hone).signed⟩
          exact matches_addPreLoadHeaders hnext (fun d hd => hall d (List.mem_cons_of_mem _ hd))
      · rw [if_neg hn, if_neg hn]
        exact ⟨rfl, rfl, hg⟩

/-- What is left of the dumps, or the same error. -/
def LeftDumps (scheme : SignatureScheme) (signed plain : Except Err (List Blob)) : Prop :=
  Served (UnsignedDumps scheme) signed plain

theorem matches_addPreLoadDumps : ∀ {hashes dumps : List Blob} {g : GetNewBlocksFromServer},
    g.AllSigned scheme isCompress → (∀ d ∈ dumps, scheme.Signed d) →
    Matches scheme isCompress (LeftDumps scheme) (addPreLoadDumps hashes dumps g)
      (addPreLoadDumps hashes (dumps.map scheme.bare) (g.plain scheme))
  | [], dumps, _, hg, hall => ⟨Or.inr ⟨dumps, _, rfl, rfl, hall, rfl⟩, rfl, hg⟩
  | _ :: _, [], _, hg, _ => ⟨Or.inl ⟨_, rfl, rfl⟩, rfl, hg⟩
  | hash :: hashes, dump :: dumps, g, hg, hall => by
      have hone : ∀ d ∈ [(hash, dump)], scheme.Signed d.2 := by
        intro d hd
        rw [List.mem_singleton.mp hd]
        exact hall dump List.mem_cons_self
      have hkeep := @plain_keepDumps scheme g [(hash, dump)]
      rw [List.map_singleton] at hkeep
      rw [List.map_cons, addPreLoadDumps, addPreLoadDumps, hkeep]
      exact matches_addPreLoadDumps (hg.keepDumps hone)
        (fun d hd => hall d (List.mem_cons_of_mem _ hd))

theorem matches_tryAddPreLoadBlocks {g : GetNewBlocksFromServer} (hg : g.AllSigned scheme isCompress)
    (fromBlock : Nat) (headers hashes : Blob) {dumps dumps' : Blob}
    (hdumps : PreloadsServed net scheme isCompress dumps dumps') :
    Matches scheme isCompress Eq (tryAddPreLoadBlocks net g fromBlock headers hashes dumps)
      (tryAddPreLoadBlocks net (g.plain scheme) fromBlock headers hashes dumps') := by
  have hcompress : (g.plain scheme).isCompress = g.isCompress := rfl
  unfold tryAddPreLoadBlocks
  rw [hcompress, hg.compress]
  cases net.messages.parseBlocksHeader headers with
  | error e => exact ⟨rfl, rfl, hg⟩
  | ok blocksHeaders =>
    cases net.messages.parseAdditionalBlockHashes hashes with
    | error e => exact ⟨rfl, rfl, hg⟩
    | ok additingBlocksHashes =>
      -- The dumps of both answers are refused, or they are the same but for the signatures.
      rcases hdumps with ⟨e, he, he'⟩ | ⟨ds, ds', hd, hd', hall, rfl⟩
      · rw [he, he']
        exact ⟨rfl, rfl, hg⟩
      · rw [hd, hd']
        simp only [Bind.bind, Except.bind, Pure.pure, Except.pure]
        obtain ⟨r, _, g₁, hheaders, hheaders', rfl, hsigned⟩ :=
          (@matches_addPreLoadHeaders scheme isCompress blocksHeaders fromBlock ds g hg hall).cases
        rw [hheaders, hheaders']
        cases r with
        | error e => exact ⟨rfl, rfl, hsigned⟩
        | ok u =>
          dsimp only
          obtain ⟨left, left', g₂, hdumps, hdumps', hleft, hsigned⟩ :=
            (@matches_addPreLoadDumps scheme isCompress
              (blocksHeaders.flatMap (fun h => OrdSet.toList h.prevExtraBlocks) ++
                additingBlocksHashes) (ds.drop blocksHeaders.length) g₁ hsigned
              (fun d hd => hall d (List.mem_of_mem_drop hd))).cases
          rw [← List.map_drop, hdumps, hdumps']
          rcases hleft with ⟨e, rfl, rfl⟩ | ⟨rest, rest', rfl, rfl, -, rfl⟩
          · exact ⟨rfl, rfl, hsigned⟩
          -- As many dumps are left in both.
          · cases rest with
            | nil => exact ⟨rfl, rfl, hsigned⟩
            | cons d rest => exact ⟨rfl, rfl, hsigned⟩

theorem matches_addPreLoadBlocks {g : GetNewBlocksFromServer} (hg : g.AllSigned scheme isCompress)
    (fromBlock : Nat) (headers hashes : Blob) {dumps dumps' : Blob}
    (hdumps : PreloadsServed net scheme isCompress dumps dumps') :
    Matches scheme isCompress Eq (addPreLoadBlocks net g fromBlock headers hashes dumps)
      (addPreLoadBlocks net (g.plain scheme) fromBlock headers hashes dumps') := by
  unfold addPreLoadBlocks
  obtain ⟨r, _, g₁, htry, htry', rfl, hsigned⟩ :=
    (matches_tryAddPreLoadBlocks hg fromBlock headers hashes hdumps).cases
  rw [htry, htry']
  cases r with
  | ok hashes => exact ⟨rfl, rfl, hsigned⟩
  | error e => cases e <;> exact ⟨rfl, rfl, hsigned⟩

/-- What `preLoadBlocks` returns: all but the dumps is the same. -/
structure PreloadedServed (net : Net) (scheme : SignatureScheme) (isCompress : Bool)
    (signed plain : LastBlockPreLoadResponse) : Prop where
  rest : plain = { signed with blocksDumps := plain.blocksDumps }
  dumps : PreloadsServed net scheme isCompress signed.blocksDumps plain.blocksDumps

theorem PreloadedServed.keepPreload {r r' : LastBlockPreLoadResponse}
    {p p' : PreloadBlocksResponse} (h : PreloadedServed net scheme isCompress r r')
    (hp : PreloadServed net scheme isCompress p p') (server : Blob) :
    PreloadedServed net scheme isCompress (GetNewBlocksFromServer.keepPreload r server p)
      (GetNewBlocksFromServer.keepPreload r' server p') := by
  obtain ⟨hrest, hdumps⟩ := h
  obtain ⟨hprest, hpdumps⟩ := hp
  obtain ⟨servers, lastBlock, error, headers, hashes, blocksDumps⟩ := r
  obtain ⟨servers', lastBlock', error', headers', hashes', blocksDumps'⟩ := r'
  obtain ⟨perror, pcount, pheaders, phashes, pdumps⟩ := p
  obtain ⟨perror', pcount', pheaders', phashes', pdumps'⟩ := p'
  cases hrest
  cases hprest
  unfold GetNewBlocksFromServer.keepPreload
  dsimp only
  cases perror with
  | some e => exact ⟨rfl, hdumps⟩
  | none =>
    dsimp only
    split
    · exact ⟨rfl, hpdumps⟩
    · split <;> exact ⟨rfl, hdumps⟩

/-- **One callback**, with and without signatures. -/
theorem PreloadedServed.callback {r r' : LastBlockPreLoadResponse}
    {answer answer' : Blob × Except String Blob} (h : PreloadedServed net scheme isCompress r r')
    (hanswer : AnswerServed net scheme isCompress answer answer') :
    Served (PreloadedServed net scheme isCompress) (preLoadCallback net r answer)
      (preLoadCallback net r' answer') := by
  obtain ⟨hserver, hanswer⟩ := hanswer
  have hfailed : ∀ error : String, PreloadedServed net scheme isCompress { r with error }
      { r' with error } := fun error => ⟨by rw [h.rest], h.dumps⟩
  unfold preLoadCallback
  rcases hanswer with ⟨e, he, he'⟩ | ⟨a, a', ha, ha', hserved⟩
  · rw [he, he']
    exact Or.inr ⟨_, _, rfl, rfl, hfailed e⟩
  · rw [ha, ha']
    dsimp only
    rcases hserved with ⟨e, he, he'⟩ | ⟨p, p', hp, hp', hresponse⟩
    · rw [he, he']
      cases e with
      | exception msg => exact Or.inr ⟨_, _, rfl, rfl, hfailed msg⟩
      | user msg => exact Or.inl ⟨_, rfl, rfl⟩
      | stop => exact Or.inl ⟨_, rfl, rfl⟩
      | std what => exact Or.inl ⟨_, rfl, rfl⟩
      | crash => exact Or.inl ⟨_, rfl, rfl⟩
    · rw [hp, hp', hserver]
      exact Or.inr ⟨_, _, rfl, rfl, h.keepPreload hresponse _⟩

/-- **All callbacks**, with and without signatures. -/
theorem PreloadedServed.callbacks {answers answers' : List (Blob × Except String Blob)}
    (hall : List.Forall₂ (AnswerServed net scheme isCompress) answers answers') :
    ∀ {r r' : LastBlockPreLoadResponse}, PreloadedServed net scheme isCompress r r' →
      Served (PreloadedServed net scheme isCompress) (answers.foldlM (preLoadCallback net) r)
        (answers'.foldlM (preLoadCallback net) r') := by
  induction hall with
  | nil => exact fun h => Or.inr ⟨_, _, rfl, rfl, h⟩
  | cons hhead _ ih =>
    intro r r' h
    rw [List.foldlM_cons, List.foldlM_cons]
    rcases h.callback hhead with ⟨e, he, he'⟩ | ⟨next, next', hn, hn', hnext⟩
    · rw [he, he']
      exact Or.inl ⟨e, rfl, rfl⟩
    · rw [hn, hn']
      exact ih hnext

theorem matches_preLoadBlocks (hserve : ServesSigned net scheme isCompress)
    {g : GetNewBlocksFromServer} (hg : g.AllSigned scheme isCompress) (currentBlock : Nat) :
    Matches scheme isCompress (Served (PreloadedServed net scheme isCompress))
      (preLoadBlocks net g currentBlock true)
      (preLoadBlocks net (g.plain scheme) currentBlock false) := by
  refine ⟨?_, rfl, hg.ask⟩
  unfold preLoadBlocks runCallbacks
  dsimp only
  have hasked : (g.plain scheme).asked = g.asked := rfl
  rw [hasked]
  obtain ⟨hanswers, hthrown⟩ := hserve.preLoad g.asked currentBlock
  rw [hthrown]
  have hnothing : PreloadedServed net scheme isCompress
      { servers := [], lastBlock := none, error := "", blockHeaders := ∅
        additionalBlockHashes := ∅, blocksDumps := ∅ }
      { servers := [], lastBlock := none, error := "", blockHeaders := ∅
        additionalBlockHashes := ∅, blocksDumps := ∅ } := ⟨rfl, hserve.nothing⟩
  rcases PreloadedServed.callbacks hanswers hnothing with
    ⟨e, he, he'⟩ | ⟨r, r', hr, hr', h⟩
  · rw [he, he']
    exact Or.inl ⟨e, rfl, rfl⟩
  · rw [hr, hr']
    dsimp only
    cases (net.p2p.preLoad g.asked currentBlock false).thrown with
    | some e => exact Or.inl ⟨e, rfl, rfl⟩
    | none => exact Or.inr ⟨r, r', rfl, rfl, h⟩

theorem headers_getLastBlock : Headers (getLastBlock net) := ⟨fun _ _ => rfl, fun _ => rfl⟩

end GetNewBlocksFromServer

namespace NetworkBlockSource

/-! ## Entries -/

/-- The settings, with signatures checked or not. -/
def Env.verifying (env : Env) (isVerifySign : Bool) : Env := { env with isVerifySign }

/-- The block without what its sender signed. -/
def ParsedBlock.withoutSender : ParsedBlock → ParsedBlock
  | block bi => block (bi.saveSenderInfo ∅ ∅ ∅)
  | sign bi => sign (bi.saveSenderInfo ∅ ∅ ∅)

/-- The entry with nothing about who sent it. -/
def AdvancedBlock.withoutSender (a : AdvancedBlock) : AdvancedBlock :=
  { a with bi := a.bi.withoutSender }

/-- Two entries that differ in who sent them. -/
def SameBlock (a b : AdvancedBlock) : Prop := a.withoutSender = b.withoutSender

theorem SameBlock.exception {a b : AdvancedBlock} (h : SameBlock a b) :
    a.exception = b.exception := by
  unfold SameBlock AdvancedBlock.withoutSender at h
  injection h

theorem SameBlock.header {a b : AdvancedBlock} (h : SameBlock a b) : a.header = b.header := by
  unfold SameBlock AdvancedBlock.withoutSender at h
  injection h

theorem SameBlock.isBlock {a b : AdvancedBlock} (h : SameBlock a b) : a.isBlock = b.isBlock := by
  unfold SameBlock AdvancedBlock.withoutSender at h
  injection h with hpos
  rw [AdvancedBlock.isBlock, AdvancedBlock.isBlock, hpos]

/-- An entry that is not parsed yet, without its signature. -/
def AdvancedBlock.bare (scheme : SignatureScheme) (a : AdvancedBlock) : AdvancedBlock :=
  { a with dump := scheme.bare a.dump }

/-- A loaded entry can be checked; there is no dump where loading failed. -/
def Checked (scheme : SignatureScheme) (a : AdvancedBlock) : Prop :=
  match a.exception with
  | none => scheme.Signed a.dump
  | some _ => a.dump = ∅

theorem visitParsed_withoutSender (hash basename : Blob) (r : BlockSignatureCheckResult)
    (tmp : NextBlockInfo) :
    (visitParsed hash basename (some r) tmp).map ParsedBlock.withoutSender =
      (visitParsed hash basename none tmp).map ParsedBlock.withoutSender := by
  cases tmp with
  | monostate => rfl
  | rejected => rfl
  | block bi => cases hc : bi.header.hash == hash <;> simp only [visitParsed, hc] <;> rfl
  | sign bi => cases hc : bi.header.hash == hash <;> simp only [visitParsed, hc] <;> rfl

theorem parseDump_withoutSender (env : Env) (isVerifySign : Bool) (header : MinimumBlockHeader)
    (dump : Blob) (r : BlockSignatureCheckResult) :
    (parseDump (env.verifying isVerifySign) header dump (some r)).map ParsedBlock.withoutSender =
      (parseDump env header dump none).map ParsedBlock.withoutSender := by
  unfold parseDump
  cases dump.size == header.blockSize with
  | false => rfl
  | true =>
    show Except.map _ (env.fromHex header.hash >>= _) = Except.map _ (env.fromHex header.hash >>= _)
    cases env.fromHex header.hash with
    | error e => rfl
    | ok hash =>
      show Except.map _ (env.parseNextBlockInfo dump >>= _) =
        Except.map _ (env.parseNextBlockInfo dump >>= _)
      cases env.parseNextBlockInfo dump with
      | error e => rfl
      | ok tmp =>
        show Except.map _ (Blob.ofBytes _ >>= _) = Except.map _ (Blob.ofBytes _ >>= _)
        cases Blob.ofBytes (Batch.getBasename header.fileName.val) with
        | error e => rfl
        | ok basename => exact visitParsed_withoutSender hash basename r tmp

/-- **Parsing** keeps an entry and its bare twin together. -/
theorem sameBlock_parseAdvanced {env : Env} {a : AdvancedBlock} (ha : Checked env.scheme a) :
    SameBlock (parseAdvanced (env.verifying true) a)
      (parseAdvanced (env.verifying false) (a.bare env.scheme)) := by
  unfold Checked at ha
  unfold parseAdvanced
  have hexc : (a.bare env.scheme).exception = a.exception := rfl
  rw [hexc]
  -- An exception from the getting is passed on; else the dump has been checked already.
  cases hnone : a.exception with
  | some e =>
    rw [hnone] at ha
    dsimp only at ha
    unfold SameBlock AdvancedBlock.bare
    simp only [Option.isSome_some, if_true, ha, env.scheme.bare_empty]
    rw [← ha]
  | none =>
    rw [hnone] at ha
    obtain ⟨r, hr⟩ := ha
    have hbare : env.scheme.bare a.dump = r.block := by rw [SignatureScheme.bare, hr]
    have hsame := parseDump_withoutSender (env.verifying false) true a.header r.block r
    simp only [Env.verifying, Option.isSome_none, Bool.false_eq_true, if_false, if_true, hr,
      Except.map, Option.map_some, Option.map_none, Option.getD_some, Option.getD_none,
      AdvancedBlock.bare, hbare] at hsame ⊢
    -- The parsers differ in the sender of the signature, which is not compared.
    revert hsame
    generalize parseDump _ a.header r.block (some r) = x
    generalize parseDump _ a.header r.block none = y
    intro hsame
    cases x with
    | error e =>
      cases y with
      | error e' =>
        cases hsame
        rfl
      | ok bi => cases hsame
    | ok bi =>
      cases y with
      | error e' => cases hsame
      | ok bi' =>
        unfold SameBlock AdvancedBlock.withoutSender
        rw [Except.ok.inj hsame]

/-! ## A batch -/

variable {env : Env} {isCompress : Bool}

/-- A source with entries that are not parsed yet, without the signatures. -/
def plain (scheme : SignatureScheme) (current : List AdvancedBlock) (s : NetworkBlockSource) :
    NetworkBlockSource :=
  { s with
    getterBlocks := s.getterBlocks.plain scheme
    advancedBlocks := s.advancedBlocks.mapValues (AdvancedBlock.bare scheme)
    currentProcessedBlock := current }

/-- All that a source has loaded is signed. -/
structure Loaded (scheme : SignatureScheme) (isCompress : Bool) (s : NetworkBlockSource) : Prop where
  cache : s.getterBlocks.AllSigned scheme isCompress
  entries : ∀ e ∈ s.advancedBlocks.entries, Checked scheme e.2

theorem readAdvanced_plain (hserve : ServesSigned env.net env.scheme isCompress) {s : NetworkBlockSource}
    (current : List AdvancedBlock) (hs : s.getterBlocks.AllSigned env.scheme isCompress) (n : Nat) :
    ∃ a g, readAdvanced (env.verifying true) s n = (a, g) ∧
      readAdvanced (env.verifying false) (s.plain env.scheme current) n =
        (a.bare env.scheme, g.plain env.scheme) ∧
      Checked env.scheme a ∧ g.AllSigned env.scheme isCompress := by
  obtain ⟨r, _, g, hheader, hheader', rfl, hg⟩ := ((@GetNewBlocksFromServer.headers_getBlockHeader
    env.net n s.lastBlockInBlockchain s.servers).matches hs).cases
  have hplain : (s.plain env.scheme current).getterBlocks = s.getterBlocks.plain env.scheme := rfl
  have hlast : (s.plain env.scheme current).lastBlockInBlockchain = s.lastBlockInBlockchain := rfl
  have hservers : (s.plain env.scheme current).servers = s.servers := rfl
  unfold readAdvanced Env.verifying
  dsimp only at hheader hheader' ⊢
  rw [hplain, hlast, hservers, hheader, hheader']
  cases r with
  | error e =>
    refine ⟨_, g, rfl, ?_, rfl, hg⟩
    unfold AdvancedBlock.bare
    rw [env.scheme.bare_empty]
    rfl
  | ok header =>
    obtain ⟨d, d', g', hdump, hdump', hd, hg'⟩ := (GetNewBlocksFromServer.matches_getBlockDump hserve
      hg header.hash header.blockSize s.servers).cases
    dsimp only
    rw [hdump, hdump']
    rcases hd with ⟨e, rfl, rfl⟩ | ⟨dump, _, rfl, rfl, hsigned, rfl⟩
    · refine ⟨_, g', rfl, ?_, rfl, hg'⟩
      unfold AdvancedBlock.bare
      rw [env.scheme.bare_empty]
    · exact ⟨_, g', rfl, rfl, hsigned, hg'⟩

theorem bare_key (scheme : SignatureScheme) (a : AdvancedBlock) : (a.bare scheme).key = a.key := rfl

/-- **The loop over the new blocks**, with and without signatures. -/
theorem loadAdvanced_plain (hserve : ServesSigned env.net env.scheme isCompress)
    (current : List AdvancedBlock) : ∀ {ns : List Nat} {s : NetworkBlockSource},
    Loaded env.scheme isCompress s →
    ∃ r s', loadAdvanced (env.verifying true) ns s = (r, s') ∧
      loadAdvanced (env.verifying false) ns (s.plain env.scheme current) =
        (r, s'.plain env.scheme current) ∧
      Loaded env.scheme isCompress s' ∧ s'.currentProcessedBlock = s.currentProcessedBlock
  | [], s, hs => ⟨_, s, rfl, rfl, hs, rfl⟩
  | n :: ns, s, hs => by
      obtain ⟨a, g, hread, hread', ha, hg⟩ := readAdvanced_plain hserve current hs.cache n
      rw [loadAdvanced, loadAdvanced, hread, hread']
      dsimp only
      have hnumber : (a.bare env.scheme).header.number = a.header.number := rfl
      have hexception : (a.bare env.scheme).exception = a.exception := rfl
      rw [hnumber, hexception, bare_key]
      by_cases hcrash : a.exception = some .crash
      · rw [if_pos hcrash, if_pos hcrash]
        exact ⟨_, _, rfl, rfl, ⟨hg, hs.entries⟩, rfl⟩
      rw [if_neg hcrash, if_neg hcrash]
      -- A header with another number ends the loading in both.
      by_cases hn : n = a.header.number
      · rw [if_pos hn, if_pos hn]
        have hplain : ({ s.plain env.scheme current with
              getterBlocks := g.plain env.scheme
              advancedBlocks := (s.plain env.scheme current).advancedBlocks.emplace a.key
                (a.bare env.scheme) } : NetworkBlockSource) =
            ({ s with
              getterBlocks := g
              advancedBlocks := s.advancedBlocks.emplace a.key a } : NetworkBlockSource).plain
                env.scheme current := by
          unfold plain
          rw [OrdMap.mapValues_emplace]
        rw [hplain]
        have hloaded : Loaded env.scheme isCompress ({ s with
            getterBlocks := g
            advancedBlocks := s.advancedBlocks.emplace a.key a } : NetworkBlockSource) := by
          refine ⟨hg, ?_⟩
          intro e he
          rcases OrdMap.mem_entries_emplace he with rfl | he
          · exact ha
          · exact hs.entries e he
        obtain ⟨r, s', h, h', hs', hcur⟩ := loadAdvanced_plain hserve current hloaded
        exact ⟨r, s', h, h', hs', hcur⟩
      · rw [if_neg hn, if_neg hn]
        exact ⟨_, _, rfl, rfl, ⟨hg, hs.entries⟩, rfl⟩

/-- A source that asks for signatures and one that does not, behind the same calls. -/
structure Twin (scheme : SignatureScheme) (isCompress : Bool) (s p : NetworkBlockSource) : Prop where
  rest : p = { s with
    getterBlocks := s.getterBlocks.plain scheme
    advancedBlocks := p.advancedBlocks
    currentProcessedBlock := p.currentProcessedBlock }
  cache : s.getterBlocks.AllSigned scheme isCompress
  empty : p.advancedBlocks.entries = [] ↔ s.advancedBlocks.entries = []
  current : List.Forall₂ SameBlock s.currentProcessedBlock p.currentProcessedBlock

theorem Loaded.twin {scheme : SignatureScheme} {s : NetworkBlockSource} {current : List AdvancedBlock}
    (hs : Loaded scheme isCompress s) (hcur : List.Forall₂ SameBlock s.currentProcessedBlock current) :
    Twin scheme isCompress s (s.plain scheme current) where
  rest := rfl
  cache := hs.cache
  empty := List.map_eq_nil_iff
  current := hcur

/-- **The first half of a batch**, with and without signatures. -/
theorem additings_twin (hserve : ServesSigned env.net env.scheme isCompress) {s p : NetworkBlockSource}
    (h : Twin env.scheme isCompress s p) :
    ∃ r s' p', s.additings (env.verifying true) = (r, s') ∧
      p.additings (env.verifying false) = (r, p') ∧ Twin env.scheme isCompress s' p' ∧
      ∀ L, r = .ok L → Loaded env.scheme isCompress s' ∧ p' = s'.plain env.scheme p'.currentProcessedBlock := by
  obtain ⟨hrest, hcache, hempty, hcur⟩ := h
  obtain ⟨g, next, servers, last, m, current, after, file⟩ := s
  obtain ⟨pg, pnext, pservers, plast, pm, pcurrent, pafter, pfile⟩ := p
  cases hrest
  unfold additings
  dsimp only at hcache hempty hcur ⊢
  -- The two sources differ in the dumps and in the blocks that stand in the map.
  cases after with
  | none =>
    dsimp only
    -- There may be nothing to load, or nobody to load it from.
    by_cases hnew : last < next
    · rw [if_pos hnew, if_pos hnew]
      exact ⟨_, _, _, rfl, rfl, ⟨rfl, hcache, hempty, hcur⟩, fun L hL => by cases hL⟩
    · rw [if_neg hnew, if_neg hnew]
      by_cases hservers : servers = []
      · rw [if_pos hservers, if_pos hservers]
        exact ⟨_, _, _, rfl, rfl, ⟨rfl, hcache, Iff.rfl, hcur⟩, fun L hL => by cases hL⟩
      · rw [if_neg hservers, if_neg hservers]
        obtain ⟨r, s', hload, hload', hs', hcur'⟩ := @loadAdvanced_plain env isCompress hserve pcurrent
          (List.range' next (min COUNT_ADVANCED_BLOCKS (last - next + 1)))
          ⟨g, next, servers, last, ∅, current, none, file⟩ ⟨hcache, fun e he => by cases he⟩
        have hstart : plain env.scheme pcurrent ⟨g, next, servers, last, ∅, current, none, file⟩ =
          ⟨g.plain env.scheme, next, servers, last, ∅, pcurrent, none, file⟩ := rfl
        rw [hstart] at hload'
        rw [hload, hload']
        have htwin : Twin env.scheme isCompress s' (s'.plain env.scheme pcurrent) :=
          hs'.twin (by rw [hcur']; exact hcur)
        cases r with
        | error e => exact ⟨_, _, _, rfl, rfl, htwin, fun L hL => by cases hL⟩
        | ok u =>
          refine ⟨_, _, _, rfl, ?_, htwin, fun L _ => ⟨hs', rfl⟩⟩
          have hentries : ((s'.plain env.scheme pcurrent).advancedBlocks.entries.flatMap
              fun e => headerAdditings e.2.header) =
                s'.advancedBlocks.entries.flatMap fun e => headerAdditings e.2.header := by
            unfold plain OrdMap.mapValues
            rw [List.flatMap_map]
            rfl
          dsimp only
          rw [hentries]
  | some a =>
    dsimp only
    by_cases hne : m.entries = []
    · have hpne := hempty.mpr hne
      have hm : m = ∅ := OrdMap.ext (fun k => by rw [OrdMap.find?, hne]; rfl)
      have hpm : pm = ∅ := OrdMap.ext (fun k => by rw [OrdMap.find?, hpne]; rfl)
      subst hm hpm
      refine ⟨_, _, _, rfl, rfl, ⟨rfl, hcache, Iff.rfl, hcur⟩, fun L _ => ⟨?_, rfl⟩⟩
      exact ⟨hcache, fun e he => by cases he⟩
    · rw [if_pos hne, if_pos (fun hp => hne (hempty.mp hp))]
      exact ⟨_, _, _, rfl, rfl, ⟨rfl, hcache, hempty, hcur⟩, fun L hL => by cases hL⟩

/-- The call loads no sign block. -/
def LoadsNoSign (env : Env) (timeline : BlocksTimeline) (s : NetworkBlockSource) : Prop :=
  s.currentProcessedBlock = [] → ∀ L blocks, (s.additings env).1 = .ok L →
    timeline.filter (fun block : AdditingBlock => env.fromHex block.hash) (withoutRepeats [] L) =
      .ok blocks → blocks = []

theorem parseBlockInfo_twin {s : NetworkBlockSource} (current : List AdvancedBlock)
    (hs : Loaded env.scheme isCompress s) :
    Twin env.scheme isCompress (s.parseBlockInfo (env.verifying true))
      ((s.plain env.scheme current).parseBlockInfo (env.verifying false)) := by
  refine ⟨rfl, hs.cache, ?_, ?_⟩
  · unfold parseBlockInfo plain OrdMap.mapValues
    dsimp only
    rw [List.map_eq_nil_iff, List.map_eq_nil_iff, List.map_eq_nil_iff]
  · unfold parseBlockInfo plain OrdMap.mapValues
    dsimp only
    rw [List.map_map, List.map_map, List.map_map, List.forall₂_map_left_iff,
      List.forall₂_map_right_iff, List.forall₂_same]
    intro e he
    exact sameBlock_parseAdvanced (hs.entries e he)

/-- **A batch**, with and without signatures. -/
theorem nextBatch_twin (hserve : ServesSigned env.net env.scheme isCompress) {timeline : BlocksTimeline}
    {s p : NetworkBlockSource} (h : Twin env.scheme isCompress s p) (hp : p.currentProcessedBlock = [])
    (hquiet : LoadsNoSign (env.verifying false) timeline p) :
    ∃ r s' p', s.nextBatch (env.verifying true) timeline = (r, s') ∧
      p.nextBatch (env.verifying false) timeline = (r, p') ∧ Twin env.scheme isCompress s' p' := by
  obtain ⟨r, s₁, p₁, hadd, hadd', htwin, hloaded⟩ := additings_twin hserve h
  unfold nextBatch
  rw [hadd, hadd']
  cases r with
  | error e => exact ⟨_, _, _, rfl, rfl, htwin⟩
  | ok L =>
    obtain ⟨hs₁, hp₁⟩ := hloaded L rfl
    have hnone := hquiet hp L
    rw [hadd'] at hnone
    dsimp only
    unfold processAdditingBlocks
    have hhex : (env.verifying true).fromHex = (env.verifying false).fromHex := rfl
    rw [hhex]
    cases hfilter : timeline.filter
        (fun block : AdditingBlock => (env.verifying false).fromHex block.hash)
        (withoutRepeats [] L) with
    | error e => exact ⟨_, _, _, rfl, rfl, htwin⟩
    | ok blocks =>
      obtain rfl := hnone blocks rfl hfilter
      refine ⟨_, _, _, rfl, rfl, ?_⟩
      rw [hp₁]
      exact parseBlockInfo_twin _ hs₁

/-! ## Runs -/

/-- What is handed over differs in who sent it. -/
inductive SameDelivery : Except Err (Option AdvancedBlock) → Except Err (Option AdvancedBlock) → Prop
  | error (e : Err) : SameDelivery (.error e) (.error e)
  | none : SameDelivery (.ok none) (.ok none)
  | block {a b : AdvancedBlock} : SameBlock a b → SameDelivery (.ok (some a)) (.ok (some b))

theorem processAdvanced_twin {scheme : SignatureScheme} {s p : NetworkBlockSource}
    {a b : AdvancedBlock} {rest rest' : List AdvancedBlock} (h : Twin scheme isCompress s p)
    (hab : SameBlock a b) (hrest : List.Forall₂ SameBlock rest rest') :
    SameDelivery (s.processAdvanced a rest).1 (p.processAdvanced b rest').1 ∧
      Twin scheme isCompress (s.processAdvanced a rest).2 (p.processAdvanced b rest').2 := by
  unfold processAdvanced
  rw [hab.exception, hab.isBlock, hab.header]
  cases b.exception with
  | some e => exact ⟨.error e, h⟩
  | none =>
    obtain ⟨hsame, hcache, hempty, -⟩ := h
    refine ⟨.block hab, ?_, hcache, hempty, hrest⟩
    rw [hsame]

/-- **A call of `process`**, with and without signatures. -/
theorem process_twin (hserve : ServesSigned env.net env.scheme isCompress) {timeline : BlocksTimeline}
    {s p : NetworkBlockSource} (h : Twin env.scheme isCompress s p)
    (hquiet : LoadsNoSign (env.verifying false) timeline p) :
    SameDelivery (s.process (env.verifying true) timeline).1
        (p.process (env.verifying false) timeline).1 ∧
      Twin env.scheme isCompress (s.process (env.verifying true) timeline).2
        (p.process (env.verifying false) timeline).2 := by
  have hafter : p.afterBlocksAdditings = s.afterBlocksAdditings := by rw [h.rest]
  have hlast : p.lastBlockInBlockchain = s.lastBlockInBlockchain := by rw [h.rest]
  have hnext : p.nextBlockToRead = s.nextBlockToRead := by rw [h.rest]
  unfold process
  rw [hafter, hlast, hnext]
  have hcur := h.current
  -- Entries of the batch are handed over until none is left; then comes the next batch.
  cases hs : s.currentProcessedBlock with
  | cons a rest =>
    rw [hs] at hcur
    obtain ⟨b, rest', hab, hrest, hp⟩ := List.forall₂_cons_left_iff.mp hcur
    rw [hp]
    exact processAdvanced_twin h hab hrest
  | nil =>
    rw [hs] at hcur
    have hp := List.forall₂_nil_left_iff.mp hcur
    rw [hp]
    dsimp only
    -- Whether all is read depends on the numbers alone.
    by_cases hover : s.afterBlocksAdditings.isNone = true ∧
        s.lastBlockInBlockchain < s.nextBlockToRead
    · rw [if_pos hover, if_pos hover]
      exact ⟨.none, h⟩
    · rw [if_neg hover, if_neg hover]
      obtain ⟨r, s', p', hbatch, hbatch', htwin⟩ := nextBatch_twin hserve h hp hquiet
      rw [hbatch, hbatch']
      cases r with
      | error e => exact ⟨.error e, htwin⟩
      | ok u =>
        dsimp only
        have hcur' := htwin.current
        cases hs' : s'.currentProcessedBlock with
        | cons a rest =>
          rw [hs'] at hcur'
          obtain ⟨b, rest', hab, hrest, hp'⟩ := List.forall₂_cons_left_iff.mp hcur'
          rw [hp']
          exact processAdvanced_twin htwin hab hrest
        | nil =>
          rw [hs'] at hcur'
          rw [List.forall₂_nil_left_iff.mp hcur']
          exact ⟨.none, htwin⟩

/-- Two sources that agree but for what `doProcess` clears. -/
def Agree (s p : NetworkBlockSource) : Prop :=
  p = { s with
    getterBlocks := { s.getterBlocks with
      advancedLoadsBlocksHeaders := p.getterBlocks.advancedLoadsBlocksHeaders
      advancedLoadsBlocksDumps := p.getterBlocks.advancedLoadsBlocksDumps }
    advancedBlocks := p.advancedBlocks
    currentProcessedBlock := p.currentProcessedBlock }

theorem Twin.agree {scheme : SignatureScheme} {s p : NetworkBlockSource} (h : Twin scheme isCompress s p) :
    Agree s p := by
  unfold Agree
  rw [h.rest]
  rfl

theorem setAfterBlocksAdditings_twin {scheme : SignatureScheme} {s p : NetworkBlockSource}
    (h : Twin scheme isCompress s p) (hashes : List Blob) :
    Twin scheme isCompress (s.setAfterBlocksAdditings hashes) (p.setAfterBlocksAdditings hashes) := by
  obtain ⟨hrest, hcache, hempty, hcur⟩ := h
  have hlast : p.lastBlockInBlockchain = s.lastBlockInBlockchain := by rw [hrest]
  have hnext : p.nextBlockToRead = s.nextBlockToRead := by rw [hrest]
  have hfile : p.lastFileName = s.lastFileName := by rw [hrest]
  unfold setAfterBlocksAdditings
  rw [hlast, hnext, hfile]
  split
  · refine ⟨?_, hcache, hempty, hcur⟩
    rw [hrest]
  · exact ⟨hrest, hcache, hempty, hcur⟩

/-- **A call of `doProcess`**, with and without signatures. -/
theorem doProcess_twin (hserve : ServesSigned env.net env.scheme isCompress)
    {s p : NetworkBlockSource} (h : Agree s p) (hcompress : s.getterBlocks.isCompress = isCompress)
    (countBlocks : Nat) :
    (s.doProcess (env.verifying true) countBlocks).1 =
        (p.doProcess (env.verifying false) countBlocks).1 ∧
      Twin env.scheme isCompress (s.doProcess (env.verifying true) countBlocks).2
        (p.doProcess (env.verifying false) countBlocks).2 := by
  obtain ⟨g, next, servers, last, m, current, after, file⟩ := s
  obtain ⟨pg, pnext, pservers, plast, pm, pcurrent, pafter, pfile⟩ := p
  obtain ⟨maxLoad, batch, compress, headers, dumps, asked⟩ := g
  obtain ⟨pmaxLoad, pbatch, pcompress, pheaders, pdumps, pasked⟩ := pg
  cases h
  -- nothing is left of the caches
  set g₀ : GetNewBlocksFromServer := ⟨maxLoad, batch, compress, [], ∅, asked⟩ with hg₀
  have hsigned : g₀.AllSigned env.scheme isCompress := ⟨hcompress, fun hash dump hd => by cases hd⟩
  have hplain : g₀.plain env.scheme = g₀ := rfl
  unfold doProcess
  dsimp only [GetNewBlocksFromServer.clearAdvanced]
  rw [← hg₀]
  -- The first blocks are asked for at once, or the number of the last one alone.
  by_cases hpre : env.isPreLoad = true
  · rw [if_pos (show (env.verifying true).isPreLoad = true from hpre),
      if_pos (show (env.verifying false).isPreLoad = true from hpre)]
    dsimp only [Env.verifying]
    obtain ⟨r, r', g₁, hload, hload', hserved, hg₁⟩ :=
      (GetNewBlocksFromServer.matches_preLoadBlocks hserve hsigned countBlocks).cases
    rw [hplain] at hload'
    rw [hload, hload']
    rcases hserved with ⟨e, rfl, rfl⟩ | ⟨r, r', rfl, rfl, hrest, hdumps⟩
    · exact ⟨rfl, rfl, hg₁, Iff.rfl, List.Forall₂.nil⟩
    obtain ⟨rservers, rlast, rerror, rheaders, rhashes, rdumps⟩ := r
    obtain ⟨rservers', rlast', rerror', rheaders', rhashes', rdumps'⟩ := r'
    cases hrest
    dsimp only at hdumps ⊢
    cases rlast with
    | none => exact ⟨rfl, rfl, hg₁, Iff.rfl, List.Forall₂.nil⟩
    | some lastBlock =>
      dsimp only
      obtain ⟨q, _, g₂, hadd, hadd', rfl, hg₂⟩ :=
        (GetNewBlocksFromServer.matches_addPreLoadBlocks hg₁ (countBlocks + 1) rheaders rhashes
          hdumps).cases
      rw [hadd, hadd']
      cases q with
      | error e => exact ⟨rfl, rfl, hg₂, Iff.rfl, List.Forall₂.nil⟩
      | ok hashes =>
        refine ⟨rfl, ?_⟩
        dsimp only
        refine setAfterBlocksAdditings_twin ?_ hashes
        exact ⟨rfl, hg₂, Iff.rfl, List.Forall₂.nil⟩
  · rw [if_neg (show ¬(env.verifying true).isPreLoad = true from hpre),
      if_neg (show ¬(env.verifying false).isPreLoad = true from hpre)]
    dsimp only [Env.verifying]
    obtain ⟨r, _, g₁, hlast, hlast', rfl, hg₁⟩ :=
      (@GetNewBlocksFromServer.headers_getLastBlock env.net).matches hsigned |>.cases
    rw [hplain] at hlast'
    rw [hlast] at hlast' ⊢
    have hsame : g₁ = g₁.plain env.scheme := (Prod.mk.inj hlast').2
    cases r with
    | error e => exact ⟨rfl, by rw [← hsame], hg₁, Iff.rfl, List.Forall₂.nil⟩
    | ok r =>
      dsimp only
      cases r.lastBlock with
      | none => exact ⟨rfl, ⟨by rw [← hsame], hg₁, Iff.rfl, List.Forall₂.nil⟩⟩
      | some lastBlock =>
        refine ⟨rfl, ?_⟩
        dsimp only
        refine setAfterBlocksAdditings_twin ?_ _
        exact ⟨by rw [← hsame], hg₁, Iff.rfl, List.Forall₂.nil⟩

/-- A call of the source. -/
inductive Call where
  | doProcess (countBlocks : Nat)
  | process (timeline : BlocksTimeline)

/-- What comes of a call. -/
inductive Answer where
  | last (r : Except Err Nat)
  | next (r : Except Err (Option AdvancedBlock))

/-- What a call returns, and the source behind it. -/
def answer (env : Env) (s : NetworkBlockSource) : Call → Answer × NetworkBlockSource
  | .doProcess countBlocks =>
    let (r, s) := s.doProcess env countBlocks
    (.last r, s)
  | .process timeline =>
    let (r, s) := s.process env timeline
    (.next r, s)

/-- What comes of these calls, one after the other. -/
def answers (env : Env) : List Call → NetworkBlockSource → List Answer
  | [], _ => []
  | call :: calls, s => (s.answer env call).1 :: answers env calls (s.answer env call).2

/-- No call loads a sign block. -/
def LoadsNoSigns (env : Env) : List Call → NetworkBlockSource → Prop
  | [], _ => True
  | call :: calls, s =>
    (∀ timeline, call = .process timeline → s.LoadsNoSign env timeline) ∧
      LoadsNoSigns env calls (s.answer env call).2

/-- The same but for who sent the block. -/
inductive SameAnswer : Answer → Answer → Prop
  | last (r : Except Err Nat) : SameAnswer (.last r) (.last r)
  | next {r r' : Except Err (Option AdvancedBlock)} : SameDelivery r r' →
      SameAnswer (.next r) (.next r')

theorem answer_twin (hserve : ServesSigned env.net env.scheme isCompress) {s p : NetworkBlockSource}
    (h : Twin env.scheme isCompress s p) {call : Call}
    (hquiet : ∀ timeline, call = .process timeline →
      p.LoadsNoSign (env.verifying false) timeline) :
    SameAnswer (s.answer (env.verifying true) call).1 (p.answer (env.verifying false) call).1 ∧
      Twin env.scheme isCompress (s.answer (env.verifying true) call).2
        (p.answer (env.verifying false) call).2 := by
  cases call with
  | doProcess countBlocks =>
    obtain ⟨hlast, htwin⟩ := doProcess_twin hserve h.agree h.cache.compress countBlocks
    refine ⟨?_, htwin⟩
    show SameAnswer (.last (s.doProcess (env.verifying true) countBlocks).1)
      (.last (p.doProcess (env.verifying false) countBlocks).1)
    rw [hlast]
    exact .last _
  | process timeline =>
    obtain ⟨hsame, htwin⟩ := process_twin hserve h (hquiet timeline rfl)
    exact ⟨.next hsame, htwin⟩

theorem answers_twin (hserve : ServesSigned env.net env.scheme isCompress) : ∀ {calls : List Call}
    {s p : NetworkBlockSource}, Twin env.scheme isCompress s p →
    LoadsNoSigns (env.verifying false) calls p →
    List.Forall₂ SameAnswer (answers (env.verifying true) calls s)
      (answers (env.verifying false) calls p)
  | [], _, _, _, _ => List.Forall₂.nil
  | call :: calls, s, p, h, hquiet => by
      obtain ⟨hsame, htwin⟩ := answer_twin hserve h hquiet.1
      exact List.Forall₂.cons hsame (answers_twin hserve htwin hquiet.2)

/-- **A sign block is refused wherever signatures are checked**: its size is taken of the signed
dump and compared with that of the bare one. -/
theorem sign_refused (env : Env) (block : AdditingBlock) (dump : Blob) :
    (parseAdvanced (env.verifying true) (block.advanced dump)).exception ≠ none := by
  unfold parseAdvanced AdditingBlock.advanced Env.verifying
  cases hcheck : env.scheme.checkSignatureBlock dump with
  | error e => simp [Except.map]
  | ok r =>
    have hlt := env.scheme.size_of_checkSignatureBlock hcheck
    have hne : (r.block.size == dump.size) = false := beq_false_of_ne (Nat.ne_of_lt hlt)
    simp [Except.map, parseDump, hne, Bind.bind, Except.bind]

/-! ## A server that signs -/

/-- The document of the count of one block, and its text. -/
def oneCountDoc : Json :=
  .object [(ascii "result".toList, .object [(ascii "count_blocks".toList, .int64 1)])]

/-- An answer that tells of a height of one. -/
def oneCountText : Blob := ⟨ascii "\x7b\"result\":\x7b\"count_blocks\":1\x7d\x7d".toList, by decide⟩

/-- The header of that block, with the sign blocks that are named in front of it. -/
def namingDoc (extra : List Json) : Json :=
  .object [(ascii "result".toList, .object [(ascii "number".toList, .int64 1),
    (ascii "hash".toList, .ofAscii "b1".toList), (ascii "prev_hash".toList, .ofAscii "00".toList),
    (ascii "size".toList, .int64 2), (ascii "fileName".toList, .ofAscii "blk".toList),
    (ascii "prev_extra_blocks".toList, .array extra)])]

/-- Its text without sign blocks, and with the sign block 01. -/
def namingText (named : Bool) : Blob :=
  if named then
    ⟨ascii ("\x7b\"result\":\x7b\"number\":1,\"hash\":\"b1\",\"prev_hash\":\"00\",\"size\":2," ++
      "\"fileName\":\"blk\",\"prev_extra_blocks\":[\"01\"]\x7d\x7d").toList, by decide⟩
  else
    ⟨ascii ("\x7b\"result\":\x7b\"number\":1,\"hash\":\"b1\",\"prev_hash\":\"00\",\"size\":2," ++
      "\"fileName\":\"blk\",\"prev_extra_blocks\":[]\x7d\x7d").toList, by decide⟩

/-- The library on these three texts. -/
def namingJson : RapidJson where
  jsonToString _ := ∅
  Parse data :=
    if data = cStr oneCountText then some oneCountDoc
    else if data = cStr (namingText false) then some (namingDoc [])
    else if data = cStr (namingText true) then some (namingDoc [.ofAscii "01".toList])
    else none

/-- A dump of that server, which is the name of its block, signed or bare. -/
def nameDump (isSign : Bool) (hash : Blob) : Except Err Blob :=
  if hash = bareName '1' ∨ hash = blockName 1 then
    (cachingServer hash).getBlockDump ∅ default 0 (UInt64.ofNat (2 ^ 64 - 1)) false isSign
  else .error (.exception "block not found")

/-- What it answers to a request for several dumps: those of one block only. -/
def namePart (isSign : Bool) (hashes : List Blob) : Except Err Blob :=
  match hashes with
  | [hash] => nameDump isSign hash
  | _ => .error (.exception "too many blocks")

/-- A server with one block, which signs all dumps, and the parsers of the program. -/
def signingServer (named : Bool) : Env :=
  { blocksServer 1 [] with
    net :=
      { messages := messages namingJson Server.failingLZ4
        p2p :=
          { countBlocks := fun _ => ⟨[(∅, .ok oneCountText)], none⟩
            preLoad := fun _ _ _ => ⟨[], none⟩
            headers := fun _ parts _ => .ok (parts.map (fun _ => namingText named))
            dumps := fun _ parts isSign _ => parts.mapM (namePart isSign)
            dump := fun _ hash _ _ isSign _ => nameDump isSign hash
            wholeDump := fun _ hash isSign _ => nameDump isSign hash } } }

theorem unsigned_nameDump (hash : Blob) :
    Served (Unsigned trustingScheme) (nameDump true hash) (nameDump false hash) := by
  unfold nameDump
  by_cases h : hash = bareName '1' ∨ hash = blockName 1
  · rw [if_pos h, if_pos h]
    right
    rcases h with rfl | rfl
    · exact ⟨⟨serializeString (bareName '1') ++ trustingKey.signature ⟨[0, 48, 49], by decide⟩,
        by decide +kernel⟩, bareName '1', by decide +kernel, by decide +kernel,
        ⟨⟨bareName '1', ⟨[0, 48, 49], by decide⟩, trustingKey.pubk, trustingKey.address⟩,
          by decide +kernel⟩, by decide +kernel⟩
    · exact ⟨⟨serializeString (blockName 1) ++ trustingKey.signature ⟨[0, 98, 49], by decide⟩,
        by decide +kernel⟩, blockName 1, by decide +kernel, by decide +kernel,
        ⟨⟨blockName 1, ⟨[0, 98, 49], by decide⟩, trustingKey.pubk, trustingKey.address⟩,
          by decide +kernel⟩, by decide +kernel⟩
  · rw [if_neg h, if_neg h]
    exact Or.inl ⟨_, rfl, rfl⟩

/-- What is answered to several parts. -/
theorem unsigned_nameParts {net : Net} (hnet : net.messages = messages namingJson Server.failingLZ4) :
    ∀ parts : List (List Blob), Served (fun signed plain => signed.length = plain.length ∧
      List.Forall₂ (PartServed net trustingScheme false) (parts.zip signed) (parts.zip plain))
    (parts.mapM (namePart true)) (parts.mapM (namePart false))
  | [] => Or.inr ⟨[], [], rfl, rfl, rfl, List.Forall₂.nil⟩
  | hashes :: parts => by
      rw [List.mapM_cons, List.mapM_cons]
      have hmany : Served (fun signed plain => PartServed net trustingScheme false (hashes, signed)
          (hashes, plain)) (namePart true hashes) (namePart false hashes) := by
        match hashes with
        | [] => exact Or.inl ⟨_, rfl, rfl⟩
        | _ :: _ :: _ => exact Or.inl ⟨_, rfl, rfl⟩
        | [hash] =>
          rcases unsigned_nameDump hash with ⟨e, hs, hp⟩ | ⟨a, b, hs, hp, hsigned, rfl⟩
          · exact Or.inl ⟨e, hs, hp⟩
          · refine Or.inr ⟨a, _, hs, hp, rfl, ?_⟩
            unfold GetNewBlocksFromServer.parseDumpsPart
            rw [hnet]
            refine Or.inr ⟨[(hash, a)], [(hash, _)], rfl, rfl, ?_, rfl⟩
            rintro d hd
            rw [List.mem_singleton.mp hd]
            exact hsigned
      rcases hmany with ⟨e, hs, hp⟩ | ⟨a, b, hs, hp, hone⟩
      · rw [hs, hp]
        exact Or.inl ⟨e, rfl, rfl⟩
      · rw [hs, hp]
        rcases unsigned_nameParts hnet parts with ⟨e, hs', hp'⟩ | ⟨as, bs, hs', hp', hlen, hall⟩
        · rw [hs', hp']
          exact Or.inl ⟨e, rfl, rfl⟩
        · rw [hs', hp']
          exact Or.inr ⟨a :: as, b :: bs, rfl, rfl, by rw [List.length_cons, hlen, List.length_cons],
            List.Forall₂.cons hone hall⟩

theorem servesSigned_signingServer (named : Bool) : ServesSigned (signingServer named).net
    (signingServer named).scheme idleSource.getterBlocks.isCompress where
  preLoad _ _ := ⟨List.Forall₂.nil, rfl⟩
  nothing := Or.inr ⟨[], [], rfl, rfl, by simp, rfl⟩
  dumps _ parts _ := unsigned_nameParts rfl parts
  dump _ hash _ _ := unsigned_nameDump hash
  wholeDump _ hash _ := unsigned_nameDump hash

/-- A start and one call. -/
def oneCall : List Call := [.doProcess 0, .process BlocksTimeline.new]

end NetworkBlockSource

end TorrentNode
