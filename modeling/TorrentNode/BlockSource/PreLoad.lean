import Mathlib.Data.List.Flatten
import Mathlib.Data.List.Sort
import TorrentNode.BlockSource.ReadBack
import TorrentNode.Chain.InStep

/-!
# Blocks that come along with the last block

The two ends of `pre-load` agree by position alone. The server sends the dumps of the
blocks, then those of the sign blocks before each block in the order of its timeline,
then those behind the last one. The client takes the hashes of the sign blocks out of a
set, so in their own order, and takes none from behind the last block.
-/

namespace TorrentNode

open BlocksTimeline

/-! ## What the client makes of it -/

/-- A list is paired with what stands at its places. -/
theorem zip_append_left {α β : Type} : ∀ (a b : List α) (l : List β),
    (a ++ b).zip l = a.zip l ++ b.zip (l.drop a.length)
  | [], b, l => rfl
  | x :: a, b, [] => by simp
  | x :: a, b, y :: l => congrArg ((x, y) :: ·) (zip_append_left a b l)

namespace GetNewBlocksFromServer

/-- Headers in place of those that were kept. -/
def withHeaders (g : GetNewBlocksFromServer) (kept : List (Nat × MinimumBlockHeader)) :
    GetNewBlocksFromServer :=
  { g with advancedLoadsBlocksHeaders := kept }

theorem keepDumps_withHeaders (g : GetNewBlocksFromServer) (kept : List (Nat × MinimumBlockHeader))
    (dumps : List (Blob × Blob)) :
    (g.withHeaders kept).keepDumps dumps = (g.keepDumps dumps).withHeaders kept := rfl

theorem keepDumps_append (g : GetNewBlocksFromServer) (a b : List (Blob × Blob)) :
    (g.keepDumps a).keepDumps b = g.keepDumps (a ++ b) := by
  rw [keepDumps, keepDumps, keepDumps, List.foldl_append]

/-- Headers with consecutive numbers are kept, each with a dump. -/
theorem addPreLoadHeaders_eq : ∀ {headers : List MinimumBlockHeader} {dumps : List Blob} {n : Nat}
    {g : GetNewBlocksFromServer},
    headers.map MinimumBlockHeader.number = List.range' n headers.length →
      headers.length ≤ dumps.length → ∃ kept,
        addPreLoadHeaders n headers dumps g =
          (.ok (), (g.keepDumps ((headers.map MinimumBlockHeader.hash).zip dumps)).withHeaders kept)
  | [], dumps, n, g, _, _ => ⟨g.advancedLoadsBlocksHeaders, rfl⟩
  | header :: headers, [], n, g, _, hlen => absurd hlen (by simp)
  | header :: headers, dump :: dumps, n, g, hnum, hlen => by
      rw [List.map_cons, List.length_cons, List.range'_succ, List.cons.injEq] at hnum
      obtain ⟨kept, hkept⟩ := @addPreLoadHeaders_eq headers dumps (n + 1)
        { g.keepDumps [(header.hash, dump)] with
          advancedLoadsBlocksHeaders := g.advancedLoadsBlocksHeaders ++ [(n, header)] } hnum.2
        (Nat.le_of_succ_le_succ hlen)
      refine ⟨kept, ?_⟩
      rw [addPreLoadHeaders, if_pos hnum.1]
      simp only [hkept]
      rfl

/-- Hashes are kept with a dump each. -/
theorem addPreLoadDumps_eq : ∀ {hashes dumps : List Blob} {g : GetNewBlocksFromServer},
    hashes.length ≤ dumps.length → addPreLoadDumps hashes dumps g =
      (.ok (dumps.drop hashes.length), g.keepDumps (hashes.zip dumps))
  | [], dumps, g, _ => rfl
  | hash :: hashes, [], g, hlen => absurd hlen (by simp)
  | hash :: hashes, dump :: dumps, g, hlen => by
      rw [addPreLoadDumps, addPreLoadDumps_eq (Nat.le_of_succ_le_succ hlen), keepDumps_append]
      rfl

/-- The hashes that the dumps are given to, in this order. -/
def preLoadKeys (headers : List MinimumBlockHeader) (additing : List Blob) : List Blob :=
  headers.map MinimumBlockHeader.hash ++
    (headers.flatMap (fun h => OrdSet.toList h.prevExtraBlocks) ++ additing)

/-- **The dumps go to the hashes one by one**, and none must be left. -/
theorem tryAddPreLoadBlocks_eq {net : Net} {g : GetNewBlocksFromServer} {n : Nat}
    {headersStr additingStr dumpsStr : Blob} {headers : List MinimumBlockHeader}
    {additing dumps : List Blob}
    (hheaders : net.messages.parseBlocksHeader headersStr = .ok headers)
    (hadditing : net.messages.parseAdditionalBlockHashes additingStr = .ok additing)
    (hdumps : net.messages.parseDumpBlocksBinary dumpsStr g.isCompress = .ok dumps)
    (hnum : headers.map MinimumBlockHeader.number = List.range' n headers.length)
    (hlen : (preLoadKeys headers additing).length ≤ dumps.length) :
    ∃ kept, g.tryAddPreLoadBlocks net n headersStr additingStr dumpsStr =
      (if (preLoadKeys headers additing).length = dumps.length then .ok additing
        else .error (.exception "Incorrect blocks dumps array"),
        (g.keepDumps ((preLoadKeys headers additing).zip dumps)).withHeaders kept) := by
  have hkeys : (preLoadKeys headers additing).length = headers.length +
      (headers.flatMap (fun h => OrdSet.toList h.prevExtraBlocks) ++ additing).length := by
    rw [preLoadKeys, List.length_append, List.length_map]
  have hheads : headers.length ≤ dumps.length := by omega
  -- The headers take the first dumps,
  obtain ⟨kept, hkept⟩ := addPreLoadHeaders_eq (g := g) hnum hheads
  refine ⟨kept, ?_⟩
  have hdrop : (dumps.drop headers.length).length = dumps.length - headers.length :=
    List.length_drop
  -- the hashes of the sign blocks take the others,
  have hrest := @addPreLoadDumps_eq
    (headers.flatMap (fun h => OrdSet.toList h.prevExtraBlocks) ++ additing)
    (dumps.drop headers.length)
    ((g.keepDumps ((headers.map MinimumBlockHeader.hash).zip dumps)).withHeaders kept) (by omega)
  rw [keepDumps_withHeaders, keepDumps_append] at hrest
  have hzip := zip_append_left (headers.map MinimumBlockHeader.hash)
    (headers.flatMap (fun h => OrdSet.toList h.prevExtraBlocks) ++ additing) dumps
  rw [List.length_map] at hzip
  -- and no dump may be left.
  have hnil : (dumps.drop headers.length).drop
      (headers.flatMap (fun h => OrdSet.toList h.prevExtraBlocks) ++ additing).length = [] ↔
      (preLoadKeys headers additing).length = dumps.length := by
    rw [List.drop_eq_nil_iff, hdrop]
    omega
  unfold tryAddPreLoadBlocks
  simp only [hheaders, hadditing, hdumps, Bind.bind, Except.bind, Pure.pure, Except.pure, hkept,
    hrest, ← hzip]
  by_cases hall : (preLoadKeys headers additing).length = dumps.length
  · rw [if_pos hall, if_pos (hnil.mpr hall)]
    rfl
  · rw [if_neg hall, if_neg (fun h => hall (hnil.mp h))]
    rfl

end GetNewBlocksFromServer

/-! ## What the server sends -/

/-- What a loop made, when it is known what it makes. -/
theorem eq_map_of_mapM {α β : Type} {f : α → Except Err β} {g : α → β} {l : List α} {bs : List β}
    (h : l.mapM f = .ok bs) (hg : ∀ a ∈ l, ∀ b, f a = .ok b → b = g a) : bs = l.map g := by
  have hall := forall₂_of_mapM h
  clear h
  induction hall with
  | nil => rfl
  | cons hb _ ih =>
      rw [List.map_cons, hg _ List.mem_cons_self _ hb,
        ih (fun a ha => hg a (List.mem_cons_of_mem _ ha))]

namespace Server

variable {scheme : SignatureScheme} {s : Server scheme} {r : PreLoadRequest}

/-- The blocks that the answer carries: up to one that is too big. -/
def preLoadHeaders (s : Server scheme) (r : PreLoadRequest) : List BlockHeader :=
  ((preLoadNumbers s.blockchain.countBlocks r.currentBlock r.preLoad).map
    s.blockchain.getBlockByNumber).takeWhile (fun bh => bh.blockSize.toNat ≤ r.maxBlockSize)

theorem preLoadLoop_eq_ok {isSign : Bool} {maxBlockSize : Nat} :
    ∀ {numbers : List Nat} {loaded : List (BlockHeader × Blob)},
      s.preLoadLoop isSign maxBlockSize numbers = .ok loaded →
        loaded.map Prod.fst = (numbers.map s.blockchain.getBlockByNumber).takeWhile
          (fun bh => bh.blockSize.toNat ≤ maxBlockSize)
  | [], loaded, h => by
      obtain rfl := Except.ok.inj h
      rfl
  | i :: numbers, loaded, h => by
      rw [preLoadLoop] at h
      obtain ⟨-, h⟩ := check_bind_eq_ok.mp h
      rw [List.map_cons]
      by_cases hbig : maxBlockSize < (s.blockchain.getBlockByNumber i).blockSize.toNat
      · rw [if_pos hbig] at h
        obtain rfl := Except.ok.inj h
        rw [List.takeWhile_cons_of_neg (by simpa using hbig)]
        rfl
      · rw [if_neg hbig] at h
        obtain ⟨block, -, h⟩ := bind_eq_ok.mp h
        obtain ⟨blocks, hblocks, h⟩ := bind_eq_ok.mp h
        obtain rfl := Except.ok.inj h
        rw [List.takeWhile_cons_of_pos (by simpa using hbig), List.map_cons,
          preLoadLoop_eq_ok hblocks]

theorem getInt_eq_ok {n m : Nat} (h : getInt n = .ok m) : n < 2 ^ 31 ∧ n = m := by
  obtain ⟨hlt, h⟩ := check_bind_eq_ok.mp h
  exact ⟨of_decide_eq_true hlt, Except.ok.inj h⟩

theorem fewSignatures_eq_ok {firstBlock secondBlock : Option Blob} {msg : String}
    {run : List MinimumSignBlockHeader}
    (h : s.fewSignatures firstBlock secondBlock msg = .ok run) :
    s.timeline.getSignaturesBetween firstBlock secondBlock = .ok run := by
  obtain ⟨run', hrun, h⟩ := bind_eq_ok.mp h
  obtain ⟨-, h⟩ := check_bind_eq_ok.mp h
  obtain rfl := Except.ok.inj h
  exact hrun

/-- **Inversion** of an answer. -/
theorem preLoad_eq_ok {a : PreLoadAnswer} (h : s.preLoad r = .ok a) :
    r.currentBlock < 2 ^ 31 ∧ r.maxBlockSize < 2 ^ 31 ∧ r.preLoad ≤ MAX_PRELOAD_BLOCKS ∧
      ∃ mainDumps blockSignatures dumps,
        a = { countBlocks := s.blockchain.countBlocks, bhs := s.preLoadHeaders r
              blockSignaturesHashes := blockSignaturesConvert blockSignatures
              blocks := mainDumps ++ dumps } ∧
        mainDumps.length = (s.preLoadHeaders r).length ∧
        s.preLoadSignatures r.currentBlock (s.preLoadHeaders r) = .ok blockSignatures ∧
        blockSignatures.flatten.map (s.signDump r.isSign) = dumps.map .ok := by
  unfold preLoad at h
  obtain ⟨currentBlock, hcurrent, h⟩ := bind_eq_ok.mp h
  obtain ⟨preLoadBlocks, hpreLoad, h⟩ := bind_eq_ok.mp h
  obtain ⟨maxBlockSize, hmax, h⟩ := bind_eq_ok.mp h
  obtain ⟨hcurrentLt, rfl⟩ := getInt_eq_ok hcurrent
  obtain ⟨-, rfl⟩ := getInt_eq_ok hpreLoad
  obtain ⟨hmaxLt, rfl⟩ := getInt_eq_ok hmax
  obtain ⟨hten, h⟩ := check_bind_eq_ok.mp h
  obtain ⟨loaded, hloaded, h⟩ := bind_eq_ok.mp h
  obtain ⟨blockSignatures, hsignatures, h⟩ := bind_eq_ok.mp h
  obtain ⟨dumps, hdumps, h⟩ := bind_eq_ok.mp h
  have hheaders : loaded.map Prod.fst = s.preLoadHeaders r := preLoadLoop_eq_ok hloaded
  rw [hheaders] at hsignatures
  refine ⟨hcurrentLt, hmaxLt, of_decide_eq_true hten,
    loaded.map Prod.snd, blockSignatures, dumps, ?_, ?_, hsignatures, mapM_eq_ok_iff.mp hdumps⟩
  · rw [← hheaders]
    exact (Except.ok.inj h).symm
  · rw [← hheaders, List.length_map, List.length_map]

/-- The run before a block, as it is sent. -/
def sentRun (sections : Sections) (i : Nat) : List MinimumSignBlockHeader :=
  if i = 0 then (sections.run 0).tail else sections.run i

/-- The sign blocks before a block of the chain. -/
theorem signatures_before {sections : Sections}
    (h : InStep s.blockchain s.timeline sections) {j : Nat} (hj : j < s.blockchain.countBlocks) :
    s.timeline.getSignaturesBetween none (some (s.blockchain.getBlockByNumber (j + 1)).hash) =
      .ok (sentRun sections j) := by
  obtain ⟨run, hget, -⟩ := h.block_at hj
  rw [h.timeline, Sections.signatures_before h.nodup hget, sentRun, Sections.run, Sections.run,
    hget]
  by_cases hz : j = 0
  · subst hz
    rw [hget]
    rfl
  · rw [if_neg hz, if_neg hz]
    rfl

/-- Those behind it. -/
theorem signatures_behind {sections : Sections}
    (h : InStep s.blockchain s.timeline sections) {j : Nat} (hj : j < s.blockchain.countBlocks) :
    s.timeline.getSignaturesBetween (some (s.blockchain.getBlockByNumber (j + 1)).hash) none =
      .ok (sections.run (j + 1)) := by
  obtain ⟨run, hget, -⟩ := h.block_at hj
  rw [h.timeline, Sections.signatures_behind h.nodup hget]

/-- **The sign blocks around consecutive blocks** are the runs of the timeline. -/
theorem getBlocksSignaturesFull_eq {sections : Sections}
    (h : InStep s.blockchain s.timeline sections) {i n : Nat} (hn : 0 < n)
    (hlast : i + n ≤ s.blockchain.countBlocks)
    {blockSignatures : List (List MinimumSignBlockHeader)}
    (hok : s.getBlocksSignaturesFull
      ((List.range' (i + 1) n).map s.blockchain.getBlockByNumber) = .ok blockSignatures) :
    blockSignatures = (List.range' i n).map (sentRun sections) ++ [sections.run (i + n)] := by
  obtain ⟨m, rfl⟩ : ∃ m, n = m + 1 := ⟨n - 1, by omega⟩
  have hhead : ((List.range' (i + 1) (m + 1)).map s.blockchain.getBlockByNumber).head? =
      some (s.blockchain.getBlockByNumber (i + 1)) := rfl
  have hback : ((List.range' (i + 1) (m + 1)).map s.blockchain.getBlockByNumber).getLast? =
      some (s.blockchain.getBlockByNumber (i + (m + 1))) := by
    rw [List.getLast?_map, List.getLast?_range', if_neg (by omega)]
    simp only [Option.map_some]
    congr 2
    omega
  obtain ⟨-, -, hnumber⟩ := h.block_at (i := i) (by omega)
  unfold getBlocksSignaturesFull at hok
  simp only [hhead, hback, hnumber] at hok
  obtain ⟨-, hok⟩ := check_bind_eq_ok.mp hok
  obtain ⟨runs, hruns, hok⟩ := bind_eq_ok.mp hok
  obtain ⟨last, hlastRun, hok⟩ := bind_eq_ok.mp hok
  obtain rfl := Except.ok.inj hok
  -- The last run is the one behind the last block,
  have hbehind := signatures_behind h (j := i + m) (by omega)
  obtain rfl := Except.ok.inj (hbehind.symm.trans (fewSignatures_eq_ok hlastRun))
  congr 1
  have hshift : List.range' (i + 1) (m + 1) = (List.range' i (m + 1)).map (1 + ·) := by
    rw [List.map_add_range', Nat.add_comm]
  rw [hshift, List.map_map, List.mapM_map] at hruns
  -- and each of the others stands before its block.
  refine eq_map_of_mapM hruns ?_
  intro j hj run hrun
  rw [List.mem_range'_1] at hj
  have hrun := fewSignatures_eq_ok hrun
  rw [Function.comp_apply, Nat.add_comm 1 j, signatures_before h (by omega)] at hrun
  exact (Except.ok.inj hrun).symm

/-- The blocks that the answer carries are consecutive. -/
theorem preLoadHeaders_eq (s : Server scheme) (r : PreLoadRequest) :
    ∃ n, s.preLoadHeaders r =
        (List.range' (r.currentBlock + 1) n).map s.blockchain.getBlockByNumber ∧
      (0 < n → r.currentBlock + n ≤ s.blockchain.countBlocks) ∧ n ≤ r.preLoad := by
  obtain ⟨k, hk, hle, hpre⟩ : ∃ k, preLoadNumbers s.blockchain.countBlocks r.currentBlock r.preLoad =
      List.range' (r.currentBlock + 1) k ∧
      (0 < k → r.currentBlock + k ≤ s.blockchain.countBlocks) ∧ k ≤ r.preLoad := by
    unfold preLoadNumbers
    split
    · exact ⟨_, rfl, by omega, by omega⟩
    · exact ⟨0, rfl, by omega, by omega⟩
  have hprefix := List.prefix_iff_eq_take.mp (List.takeWhile_prefix
    (l := (List.range' (r.currentBlock + 1) k).map s.blockchain.getBlockByNumber)
    (fun bh => decide (bh.blockSize.toNat ≤ r.maxBlockSize)))
  have hlen := (List.takeWhile_prefix
    (l := (List.range' (r.currentBlock + 1) k).map s.blockchain.getBlockByNumber)
    (fun bh => decide (bh.blockSize.toNat ≤ r.maxBlockSize))).length_le
  rw [List.length_map, List.length_range'] at hlen
  unfold preLoadHeaders
  rw [hk]
  rw [← List.map_take, List.take_range'_of_length_ge hlen] at hprefix
  exact ⟨_, hprefix, by omega, by omega⟩

end Server

/-! ## No hash is sent twice -/

namespace BlocksTimeline.Sections

/-- The runs one after another are the sign blocks of the timeline. -/
theorem flatMap_run (s : Sections) :
    (List.range (s.blocks.length + 1)).flatMap s.run = s.blocks.flatMap Prod.fst ++ s.behind := by
  have hrun : (List.range s.blocks.length).map s.run = s.blocks.map Prod.fst := by
    refine List.ext_getElem (by simp) ?_
    intro i hi hi'
    rw [List.length_map, List.length_range] at hi
    rw [List.getElem_map, List.getElem_map, List.getElem_range, run, List.getElem?_eq_getElem hi]
    rfl
  have hlast : s.run s.blocks.length = s.behind := by
    rw [run, List.getElem?_eq_none (Nat.le_refl _)]
    rfl
  rw [List.range_succ, List.flatMap_append, List.flatMap_singleton, hlast,
    List.flatMap_def, hrun, ← List.flatMap_def]

/-- The blocks and the sign blocks apart have the same hashes as the elements. -/
theorem perm_hashes (s : Sections) :
    (s.elements.map Element.hash).Perm (s.blocks.map Prod.snd ++
      ((List.range (s.blocks.length + 1)).flatMap s.run).map MinimumSignBlockHeader.hash) := by
  rw [flatMap_run, elements]
  obtain ⟨blocks, behind⟩ := s
  induction blocks with
  | nil =>
      simp [Element.hash, Function.comp_def]
  | cons b blocks ih =>
      simp only [List.flatMap_cons, List.map_append, List.map_cons, sectionElements, List.map_map,
        List.append_assoc, List.cons_append, List.nil_append] at ih ⊢
      refine (List.perm_middle).trans (List.Perm.cons _ ?_)
      refine (List.Perm.append_left _ ih).trans ?_
      simp only [← List.append_assoc]
      exact (List.perm_append_comm.append_right _).append_right _

end BlocksTimeline.Sections

/-- Consecutive numbers below a bound. -/
theorem range'_sublist_range {i n m : Nat} (h : i + n ≤ m) :
    (List.range' i n).Sublist (List.range m) := by
  have hsplit : List.range m = List.range' 0 i ++ (List.range' i n ++
      List.range' (i + n) (m - (i + n))) := by
    have h1 := @List.range'_append_1 i n (m - (i + n))
    have h2 := @List.range'_append_1 0 i (n + (m - (i + n)))
    rw [Nat.zero_add] at h2
    rw [h1, h2, List.range_eq_range']
    congr 1
    omega
  rw [hsplit]
  exact (List.sublist_append_left _ _).trans (List.sublist_append_right _ _)

/-- **The hashes of consecutive blocks and of the runs around them are different.** -/
theorem InStep.nodup_sent {c : BlockChain} {t : BlocksTimeline} {sections : Sections}
    (h : InStep c t sections) {i n : Nat} (hlast : i + n ≤ c.countBlocks) :
    (((List.range' (i + 1) n).map c.getBlockByNumber).map BlockHeader.hash ++
      ((List.range' i n).map (Server.sentRun sections) ++
        [sections.run (i + n)]).flatten.map MinimumSignBlockHeader.hash).Nodup := by
  -- What is sent is part of the timeline, whose hashes are different.
  have hall := (sections.perm_hashes.nodup_iff).mp h.nodup
  refine hall.sublist (List.Sublist.append ?_ (List.Sublist.map _ ?_))
  · have hblocks : sections.blocks.map Prod.snd =
        (List.range c.countBlocks).map (fun j => (c.getBlockByNumber (j + 1)).hash) := by
      refine List.ext_getElem (by simp [h.length_blocks]) ?_
      intro j hj hj'
      rw [List.length_map, List.length_range] at hj'
      obtain ⟨run, hget, -⟩ := h.block_at hj'
      rw [List.getElem_map, List.getElem_map, List.getElem_range]
      exact congrArg Prod.snd (List.getElem?_eq_some_iff.mp hget).2
    have hshift : List.range' (i + 1) n = (List.range' i n).map (1 + ·) := by
      rw [List.map_add_range', Nat.add_comm]
    rw [hblocks, hshift, List.map_map, List.map_map]
    simp only [Function.comp_def, Nat.add_comm 1]
    exact (range'_sublist_range hlast).map _
  · have hflat : ((List.range' i n).map sections.run ++ [sections.run (i + n)]).flatten =
        (List.range' i (n + 1)).flatMap sections.run := by
      rw [List.range'_1_concat, List.flatMap_append, List.flatMap_def, List.flatten_append]
      simp
    -- Only the run before the first block of the chain loses its head.
    have htail : ((List.range' i n).map (Server.sentRun sections) ++
        [sections.run (i + n)]).flatten.Sublist
        ((List.range' i n).map sections.run ++ [sections.run (i + n)]).flatten := by
      rw [List.flatten_append, List.flatten_append, ← List.flatMap_def, ← List.flatMap_def]
      refine List.Sublist.append (List.Sublist.flatMap_right _ ?_) (List.Sublist.refl _)
      intro j _
      unfold Server.sentRun
      split
      · subst j
        exact List.tail_sublist _
      · exact List.Sublist.refl _
    rw [hflat] at htail
    refine htail.trans ((range'_sublist_range ?_).flatMap _)
    rw [h.length_blocks]
    omega

/-! ## Two orders -/

/-- The hashes of a set of sign blocks, in the order of the set. -/
def extraHashes (hashes : List Blob) : List Blob :=
  OrdSet.toList (OrdSet.ofList (hashes.map hexBlob))

/-- The string a sign block is sent under. -/
def MinimumSignBlockHeader.key (e : MinimumSignBlockHeader) : Blob := hexBlob e.hash

/-- A run in the order of its hashes. -/
def byHash (run : List MinimumSignBlockHeader) : List MinimumSignBlockHeader :=
  run.mergeSort (fun a b => a.key ≤ b.key)

theorem byHash_perm (run : List MinimumSignBlockHeader) : (byHash run).Perm run :=
  List.mergeSort_perm _ _

theorem length_byHash (run : List MinimumSignBlockHeader) : (byHash run).length = run.length :=
  (byHash_perm run).length_eq

/-- **The set of a run is the run in the order of the hashes.** -/
theorem extraHashes_eq {run : List MinimumSignBlockHeader}
    (h : (run.map MinimumSignBlockHeader.key).Nodup) :
    extraHashes (run.map MinimumSignBlockHeader.hash) =
      (byHash run).map MinimumSignBlockHeader.key := by
  have hperm := (byHash_perm run).map MinimumSignBlockHeader.key
  have hsorted : ((byHash run).map MinimumSignBlockHeader.key).Pairwise (· < ·) := by
    have hle : (byHash run).Pairwise (fun a b => a.key ≤ b.key) := by
      have hsort := @List.pairwise_mergeSort _
        (fun a b : MinimumSignBlockHeader => decide (a.key ≤ b.key))
        (fun a b c hab hbc => decide_eq_true
          (le_trans (of_decide_eq_true hab) (of_decide_eq_true hbc)))
        (fun a b => by simpa using le_total a.key b.key) run
      exact hsort.imp (fun h => of_decide_eq_true h)
    have hne := (hperm.nodup_iff).mpr h
    refine List.Pairwise.imp₂ (fun a b hle hne => lt_of_le_of_ne hle hne) ?_ hne
    exact List.pairwise_map.mpr hle
  unfold extraHashes
  refine OrdSet.eq_of_pairwise (OrdSet.pairwise_toList _) hsorted ?_
  intro k
  rw [OrdSet.mem_toList_ofList, List.map_map, hperm.mem_iff]
  rfl

/-- The dumps of a run, each at the place of another hash, are right if they are all the same. -/
theorem map_eq_of_zip {E : Type} {key : E → Blob} {D : E → Blob} :
    ∀ {l l' : List E}, l.length = l'.length →
      (∀ p ∈ (l.map key).zip (l'.map D), ∀ e ∈ l, p.1 = key e → p.2 = D e) → l.map D = l'.map D
  | [], [], _, _ => rfl
  | e :: l, e' :: l', hlen, h => by
      have hhead := h (key e, D e') (by simp) e List.mem_cons_self rfl
      have htail : l.map D = l'.map D := map_eq_of_zip (Nat.succ.inj hlen)
        (fun p hp x hx => h p (List.mem_cons_of_mem _ hp) x (List.mem_cons_of_mem _ hx))
      rw [List.map_cons, List.map_cons, htail]
      exact congrArg (· :: _) hhead.symm

theorem zip_flatMap {α β γ : Type} {f : α → List β} {g : α → List γ} :
    ∀ {l : List α}, (∀ a ∈ l, (f a).length = (g a).length) →
      (l.flatMap f).zip (l.flatMap g) = l.flatMap (fun a => (f a).zip (g a))
  | [], _ => rfl
  | a :: l, h => by
      rw [List.flatMap_cons, List.flatMap_cons, List.flatMap_cons,
        List.zip_append (h a List.mem_cons_self),
        zip_flatMap (fun b hb => h b (List.mem_cons_of_mem _ hb))]

/-- **The dumps stand under the right hashes exactly when sorting does not move them.** -/
theorem kept_iff {R : List (List MinimumSignBlockHeader)} {M : List (Blob × Blob)}
    {D : MinimumSignBlockHeader → Blob}
    (hnodup : (M.map Prod.fst ++ R.flatten.map MinimumSignBlockHeader.key).Nodup) :
    (∀ k d, (k, d) ∈ M ++ R.flatMap (fun run =>
        ((byHash run).map MinimumSignBlockHeader.key).zip (run.map D)) ↔
      (k, d) ∈ M ∨ ∃ e ∈ R.flatten, k = e.key ∧ d = D e) ↔
      ∀ run ∈ R, (byHash run).map D = run.map D := by
  constructor
  · intro h run hrun
    refine @map_eq_of_zip _ MinimumSignBlockHeader.key _ _ _ (length_byHash run) ?_
    intro p hp e he hk
    have heR : e ∈ R.flatten := List.mem_flatten.mpr ⟨run, hrun, (byHash_perm run).mem_iff.mp he⟩
    have hmem := (h p.1 p.2).mp (List.mem_append_right _ (List.mem_flatMap.mpr ⟨run, hrun, hp⟩))
    rcases hmem with hmain | ⟨e', he', hk', hd⟩
    · -- the hash of a block is not that of a sign block
      exact absurd rfl ((List.nodup_append.mp hnodup).2.2 p.1 (List.mem_map_of_mem hmain) p.1
        (hk ▸ List.mem_map_of_mem heR))
    · have hee := List.inj_on_of_nodup_map (List.nodup_append.mp hnodup).2.1 he' heR
        (hk'.symm.trans hk)
      rw [hd, hee]
  · intro h k d
    -- Conversely each hash then stands beside its own dump.
    have hruns : R.flatMap (fun run => ((byHash run).map MinimumSignBlockHeader.key).zip (run.map D))
        = R.flatMap (fun run => (byHash run).map (fun e => (e.key, D e))) := by
      refine List.flatMap_congr (fun run hrun => ?_)
      rw [← h run hrun, List.zip_map']
    rw [hruns, List.mem_append, List.mem_flatMap]
    refine or_congr Iff.rfl ⟨?_, ?_⟩
    · intro hmem
      obtain ⟨run, hrun, hmem⟩ := hmem
      obtain ⟨e, he, heq⟩ := List.mem_map.mp hmem
      obtain ⟨rfl, rfl⟩ := Prod.mk.inj heq
      exact ⟨e, List.mem_flatten.mpr ⟨run, hrun, (byHash_perm run).mem_iff.mp he⟩, rfl, rfl⟩
    · intro hmem
      obtain ⟨e, he, rfl, rfl⟩ := hmem
      obtain ⟨run, hrun, he⟩ := List.mem_flatten.mp he
      exact ⟨run, hrun, List.mem_map.mpr ⟨e, (byHash_perm run).mem_iff.mpr he, rfl⟩⟩

/-! ## Headers that are read -/

/-- What is read of the headers, field by field. -/
theorem Written.fields : ∀ {bhs : List BlockHeader} {signatures : List (List Blob)}
    {headers : List MinimumBlockHeader}, Written bhs signatures headers →
      headers.length = bhs.length ∧
      headers.map (fun h => some h.number) = bhs.map BlockHeader.blockNumber ∧
      headers.map MinimumBlockHeader.hash = bhs.map (fun bh => hexBlob bh.hash) ∧
      headers.flatMap (fun h => OrdSet.toList h.prevExtraBlocks) =
        (signatures.take bhs.length).flatMap extraHashes ∧
      (∀ bh ∈ bhs, Sendable bh.hash) ∧
      (∀ run ∈ signatures.take bhs.length, ∀ hash ∈ run, Sendable hash) ∧
      (bhs ≠ [] → ∀ hash ∈ (signatures.drop bhs.length).head?.getD [], Sendable hash)
  | [], signatures, headers, h => by
      obtain rfl : headers = [] := h
      exact ⟨rfl, rfl, rfl, rfl, by simp, by simp, fun hne => absurd rfl hne⟩
  | b :: bhs, [], headers, h => h.elim
  | b :: bhs, prev :: signatures, headers, h => by
      obtain ⟨header, rest, rfl, hread, hrest⟩ := h
      obtain ⟨hlen, hnum, hhash, hprev, hsend, hsends, hnexts⟩ := Written.fields hrest
      refine ⟨by simp [hlen], ?_, ?_, ?_, List.forall_mem_cons.mpr ⟨hread.sendable, hsend⟩, ?_, ?_⟩
      · rw [List.map_cons, List.map_cons, hnum, hread.number]
      · rw [List.map_cons, List.map_cons, hhash, hread.hash]
      · rw [List.flatMap_cons, List.length_cons, List.take_succ_cons, List.flatMap_cons, hprev,
          hread.prevExtraBlocks]
        rfl
      · rw [List.length_cons, List.take_succ_cons]
        exact List.forall_mem_cons.mpr ⟨hread.prevSendable, hsends⟩
      · intro _
        rw [List.length_cons, List.drop_succ_cons]
        by_cases hnil : bhs = []
        · subst hnil
          exact hread.nextSendable
        · exact hnexts hnil

/-! ## The round trip -/

namespace PreLoadAnswer

/-- The dumps of the answer with the hashes of their blocks. -/
def carried (a : PreLoadAnswer) : List (Blob × Blob) :=
  (a.bhs.map BlockHeader.hash ++ a.blockSignaturesHashes.flatten).zip a.blocks

/-- The documents of the answer are parsed back from their texts. -/
structure ReadsBack (rapidjson : RapidJson) (a : PreLoadAnswer) : Prop where
  headers : ∀ doc, a.headersDoc = .ok doc → rapidjson.ReadsBack doc
  hashes : ∀ doc, a.hashesDoc = .ok (some doc) → rapidjson.ReadsBack doc
  /-- An empty text is not a document. -/
  empty : rapidjson.Parse [] = none

/-- The hashes of the sign blocks, when the answer has no headers. -/
def additing (a : PreLoadAnswer) : List Blob :=
  if a.bhs = [] then a.blockSignaturesHashes.flatten.map hexBlob else []

variable {rapidjson : RapidJson} {lz4 : LZ4} {a : PreLoadAnswer}

/-- The hashes that are sent apart from the headers are read back. -/
theorem additing_read {hashes : Option Json} (h : a.hashesDoc = .ok hashes)
    (hread : a.ReadsBack rapidjson) :
    rapidjson.parseAdditionalBlockHashes ((hashes.map rapidjson.jsonToString).getD ∅) =
        .ok a.additing ∧
      (a.bhs = [] → ∀ hash ∈ a.blockSignaturesHashes.flatten, Sendable hash) := by
  have hdocs := hread.hashes
  have hnone : rapidjson.parseAdditionalBlockHashes
      (((none : Option Json).map rapidjson.jsonToString).getD ∅) = .ok [] := rfl
  unfold hashesDoc at h hdocs
  unfold additing
  -- The hashes are sent only if no header is.
  by_cases hbhs : a.bhs = []
  · rw [if_pos hbhs] at h hdocs ⊢
    obtain ⟨hcheck, h⟩ := check_bind_eq_ok.mp h
    rw [hcheck, check_true] at hdocs
    rcases hsigs : a.blockSignaturesHashes with _ | ⟨run, rest⟩
    -- There is no run of sign blocks, or exactly one.
    · rw [hsigs] at h
      obtain rfl := Except.ok.inj h
      exact ⟨hnone, by simp⟩
    · have hnil : rest = [] := by
        cases rest with
        | nil => rfl
        | cons run' rest =>
            rw [hsigs] at hcheck
            simp at hcheck
      subst hnil
      rw [hsigs] at h hdocs
      obtain ⟨doc, hdoc, h⟩ := bind_eq_ok.mp h
      obtain rfl := Except.ok.inj h
      obtain ⟨array, harray, -⟩ := bind_eq_ok.mp hdoc
      have hback := hdocs doc (bind_eq_ok.mpr ⟨(), rfl, bind_eq_ok.mpr ⟨doc, hdoc, rfl⟩⟩)
      refine ⟨?_, ?_⟩
      · rw [List.flatten_singleton]
        exact parseAdditionalBlockHashes_written hdoc hback hread.empty
      · intro _ hash hhash
        rw [List.flatten_singleton] at hhash
        exact (mapM_getText harray).1 hash hhash
  · rw [if_neg hbhs] at h ⊢
    obtain rfl := Except.ok.inj h
    exact ⟨hnone, fun hnil => absurd hnil hbhs⟩

/-- **The answer is taken apart again.** -/
theorem parsed {isCompress : Bool} {response : Blob}
    (h : a.preLoadBlocksJson rapidjson lz4 isCompress = .ok response)
    (hread : a.ReadsBack rapidjson)
    (hlz4 : isCompress = true → a.blocks.flatMap serializeString ≠ [] →
      lz4.Lossless (a.blocks.flatMap serializeString))
    (hnum : ∀ bh ∈ a.bhs, ∃ n, bh.blockNumber = some n ∧ n < 2 ^ 63)
    (hsize : ∀ bh ∈ a.bhs, bh.blockSize.toNat < 2 ^ 63) :
    ∃ parsed headers, rapidjson.parsePreloadBlocksMessage response = .ok parsed ∧
      parsed.error = none ∧
      rapidjson.parseBlocksHeader parsed.blockHeaders = .ok headers ∧
      Written a.bhs a.blockSignaturesHashes headers ∧
      rapidjson.parseAdditionalBlockHashes parsed.additingBlocksHashes = .ok a.additing ∧
      (a.bhs = [] → ∀ hash ∈ a.blockSignaturesHashes.flatten, Sendable hash) ∧
      parseDumpBlocksBinary lz4 parsed.blockDumps isCompress = .ok a.blocks := by
  unfold preLoadBlocksJson at h
  -- The answer holds the headers, the dumps and the hashes, each as it is written.
  obtain ⟨doc, hdoc, h⟩ := bind_eq_ok.mp h
  obtain ⟨blocksStr, hblocks, h⟩ := bind_eq_ok.mp h
  obtain ⟨hashes, hhashes, h⟩ := bind_eq_ok.mp h
  have hval := Blob.ofBytes_eq_ok.mp h
  have hback := hread.headers doc hdoc
  obtain ⟨array, harray, hdoc⟩ := bind_eq_ok.mp hdoc
  obtain rfl := Except.ok.inj hdoc
  obtain ⟨-, harray⟩ := check_bind_eq_ok.mp harray
  obtain ⟨vals, hvals, harray⟩ := bind_eq_ok.mp harray
  obtain rfl := Except.ok.inj harray
  obtain ⟨headers, hheaders, hwritten⟩ := parseHeadersJson_written hvals hnum hsize
  obtain ⟨hadditing, hsend⟩ := additing_read hhashes hread
  refine ⟨{ error := none, countBlocks := a.countBlocks % 2 ^ 64
            blockHeaders := rapidjson.jsonToString (jsonObject [("result", .array vals)])
            additingBlocksHashes := (hashes.map rapidjson.jsonToString).getD ∅
            blockDumps := blocksStr }, headers, ?_, rfl, parseBlocksHeader_written hback hheaders,
    hwritten, hadditing, hsend, parseDumpBlocksBinary_written hblocks hlz4⟩
  -- A short answer is searched for an error first.
  unfold RapidJson.parsePreloadBlocksMessage
  by_cases hshort : response.size ≤ 320
  · -- the text of the headers is shorter still, so its size starts with a zero
    have hlen := congrArg List.length hval
    have hbytes : response.val.length ≤ 320 := hshort
    simp only [List.length_append] at hlen
    have hsmall : (rapidjson.jsonToString (jsonObject [("result", .array vals)])).size < 256 ^ 7 := by
      unfold Blob.size
      omega
    have hfront : serializeInt sizeofSizeT
        (rapidjson.jsonToString (jsonObject [("result", .array vals)])).size <+: response.val := by
      rw [hval]
      simp only [List.append_assoc]
      exact List.prefix_append _ _
    have hzero := cStr_answer hfront hsmall
    rw [if_pos hshort, hzero, hread.empty]
    exact parsePreloaded_written hval
  · rw [if_neg hshort]
    exact parsePreloaded_written hval

end PreLoadAnswer

namespace Server

variable {scheme : SignatureScheme} {s : Server scheme} {r : PreLoadRequest}

/-- The dumps of a run are the same in the order of the hashes. -/
def InHashOrder (s : Server scheme) (isSign : Bool) (run : List MinimumSignBlockHeader) : Prop :=
  (byHash run).map (s.signDump isSign) = run.map (s.signDump isSign)

/--
No sign block stands behind the last block that the answer carries, and the runs before
its blocks are in the order of their hashes, as far as their dumps tell.
-/
def Orderly (s : Server scheme) (r : PreLoadRequest) : Prop :=
  ∀ last, (s.preLoadHeaders r).getLast? = some last →
    s.timeline.getSignaturesBetween (some last.hash) none = .ok [] ∧
    ∀ bh ∈ s.preLoadHeaders r, ∀ run,
      s.timeline.getSignaturesBetween none (some bh.hash) = .ok run → s.InHashOrder r.isSign run

/--
The client takes the answer apart without a failure, returns the hashes of the sign
blocks behind the last block when it has that block, and keeps the dumps that the answer
carries, each under its hash, and nothing else.
-/
def RoundTrip (s : Server scheme) (rapidjson : RapidJson) (lz4 : LZ4) (p2p : P2P)
    (g : GetNewBlocksFromServer) (r : PreLoadRequest) (a : PreLoadAnswer) (response : Blob) :
    Prop :=
  ∃ parsed hashes g', rapidjson.parsePreloadBlocksMessage response = .ok parsed ∧
    parsed.error = none ∧
    g.clearAdvanced.tryAddPreLoadBlocks ⟨messages rapidjson lz4, p2p⟩ (r.currentBlock + 1)
      parsed.blockHeaders parsed.additingBlocksHashes parsed.blockDumps = (.ok hashes, g') ∧
    g.clearAdvanced.addPreLoadBlocks ⟨messages rapidjson lz4, p2p⟩ (r.currentBlock + 1)
      parsed.blockHeaders parsed.additingBlocksHashes parsed.blockDumps = (.ok hashes, g') ∧
    (r.currentBlock = s.blockchain.countBlocks →
      ∃ run, s.timeline.getSignaturesBetween
        (some (s.blockchain.getBlockByNumber s.blockchain.countBlocks).hash) none = .ok run ∧
        hashes = run.map MinimumSignBlockHeader.key) ∧
    ∀ k d, g'.advancedLoadsBlocksDumps.find? k = some d ↔
      ∃ hash, (hash, d) ∈ a.carried ∧ k = hexBlob hash

/-- **The exchange ends well** when every dump is put where it belongs and none is left. -/
theorem roundTrip_iff {rapidjson : RapidJson} {lz4 : LZ4} {p2p : P2P}
    {g : GetNewBlocksFromServer} {a : PreLoadAnswer} {response : Blob}
    {parsed : PreloadBlocksResponse} {headers : List MinimumBlockHeader}
    (hcompress : g.isCompress = r.isCompress)
    (hparsed : rapidjson.parsePreloadBlocksMessage response = .ok parsed)
    (herror : parsed.error = none)
    (hheaders : rapidjson.parseBlocksHeader parsed.blockHeaders = .ok headers)
    (hadditing : rapidjson.parseAdditionalBlockHashes parsed.additingBlocksHashes =
      .ok a.additing)
    (hdumps : parseDumpBlocksBinary lz4 parsed.blockDumps r.isCompress = .ok a.blocks)
    (hnum : headers.map MinimumBlockHeader.number =
      List.range' (r.currentBlock + 1) headers.length)
    (hlen : (GetNewBlocksFromServer.preLoadKeys headers a.additing).length ≤ a.blocks.length)
    (hnodup : (GetNewBlocksFromServer.preLoadKeys headers a.additing).Nodup) :
    s.RoundTrip rapidjson lz4 p2p g r a response ↔
      (GetNewBlocksFromServer.preLoadKeys headers a.additing).length = a.blocks.length ∧
      (r.currentBlock = s.blockchain.countBlocks →
        ∃ run, s.timeline.getSignaturesBetween
          (some (s.blockchain.getBlockByNumber s.blockchain.countBlocks).hash) none = .ok run ∧
          a.additing = run.map MinimumSignBlockHeader.key) ∧
      ∀ k d, (k, d) ∈ (GetNewBlocksFromServer.preLoadKeys headers a.additing).zip a.blocks ↔
        ∃ hash, (hash, d) ∈ a.carried ∧ k = hexBlob hash := by
  obtain ⟨kept, htry⟩ := @GetNewBlocksFromServer.tryAddPreLoadBlocks_eq
    ⟨messages rapidjson lz4, p2p⟩ g.clearAdvanced (r.currentBlock + 1) parsed.blockHeaders
    parsed.additingBlocksHashes parsed.blockDumps headers a.additing a.blocks hheaders hadditing
    (by rw [show g.clearAdvanced.isCompress = r.isCompress from hcompress]; exact hdumps) hnum hlen
  -- The map of the client holds the pairs of keys and dumps, since no key comes twice.
  have hfind : ∀ k d, ((g.clearAdvanced.keepDumps
      ((GetNewBlocksFromServer.preLoadKeys headers a.additing).zip a.blocks)).withHeaders
        kept).advancedLoadsBlocksDumps.find? k = some d ↔
      (k, d) ∈ (GetNewBlocksFromServer.preLoadKeys headers a.additing).zip a.blocks := by
    intro k d
    have hkeys : (((GetNewBlocksFromServer.preLoadKeys headers a.additing).zip a.blocks).map
        Prod.fst).Nodup := by
      rw [List.map_fst_zip hlen]
      exact hnodup
    refine (OrdMap.find?_foldl_insert hkeys).trans ?_
    show _ ∨ _ ∧ (∅ : OrdMap Blob Blob).find? k = some d ↔ _
    simp
  constructor
  · intro h
    obtain ⟨parsed', hashes, g', hparsed', -, htry', -, htip, hkept⟩ := h
    obtain rfl := Except.ok.inj (hparsed.symm.trans hparsed')
    rw [htry, Prod.mk.injEq] at htry'
    obtain ⟨hresult, rfl⟩ := htry'
    by_cases hall : (GetNewBlocksFromServer.preLoadKeys headers a.additing).length =
        a.blocks.length
    · rw [if_pos hall] at hresult
      obtain rfl := Except.ok.inj hresult
      exact ⟨hall, htip, fun k d => (hfind k d).symm.trans (hkept k d)⟩
    · rw [if_neg hall] at hresult
      cases hresult
  · intro h
    obtain ⟨hall, htip, hkept⟩ := h
    rw [if_pos hall] at htry
    refine ⟨parsed, a.additing, _, hparsed, herror, htry, ?_, htip,
      fun k d => (hfind k d).trans (hkept k d)⟩
    rw [GetNewBlocksFromServer.addPreLoadBlocks, htry]

/-- The dump of a sign block, if there is one. -/
def signDumpD (s : Server scheme) (isSign : Bool) (e : MinimumSignBlockHeader) : Blob :=
  match s.signDump isSign e with
  | .ok dump => dump
  | .error _ => ∅

theorem dumps_eq {isSign : Bool} {l : List MinimumSignBlockHeader} {dumps : List Blob}
    (h : l.map (s.signDump isSign) = dumps.map .ok) :
    dumps = l.map (s.signDumpD isSign) ∧
      ∀ e ∈ l, s.signDump isSign e = .ok (s.signDumpD isSign e) := by
  induction l generalizing dumps with
  | nil =>
      cases dumps with
      | nil => exact ⟨rfl, by simp⟩
      | cons d dumps => cases h
  | cons e l ih =>
      cases dumps with
      | nil => cases h
      | cons d dumps =>
          rw [List.map_cons, List.map_cons, List.cons.injEq] at h
          obtain ⟨hdumps, hall⟩ := ih h.2
          have hd : s.signDumpD isSign e = d := by rw [signDumpD, h.1]
          refine ⟨by rw [List.map_cons, ← hdumps, hd], List.forall_mem_cons.mpr ⟨?_, hall⟩⟩
          rw [hd]
          exact h.1

theorem inHashOrder_iff {isSign : Bool} {run : List MinimumSignBlockHeader}
    (h : ∀ e ∈ run, s.signDump isSign e = .ok (s.signDumpD isSign e)) :
    s.InHashOrder isSign run ↔
      (byHash run).map (s.signDumpD isSign) = run.map (s.signDumpD isSign) := by
  have hrun : ∀ l : List MinimumSignBlockHeader, (∀ e ∈ l, e ∈ run) →
      l.map (s.signDump isSign) = (l.map (s.signDumpD isSign)).map .ok := by
    intro l hl
    rw [List.map_map]
    exact List.map_congr_left (fun e he => h e (hl e he))
  unfold InHashOrder
  rw [hrun (byHash run) (fun e he => (byHash_perm run).mem_iff.mp he), hrun run (fun _ he => he)]
  exact (List.map_injective_iff.mpr (fun _ _ h => Except.ok.inj h)).eq_iff

/-- The headers of the answer are numbered, and none is too big. -/
theorem preLoadHeaders_fit {sections : Sections}
    (h : InStep s.blockchain s.timeline sections) {n : Nat}
    (hbhs : s.preLoadHeaders r =
      (List.range' (r.currentBlock + 1) n).map s.blockchain.getBlockByNumber)
    (hlast : 0 < n → r.currentBlock + n ≤ s.blockchain.countBlocks) :
    (s.preLoadHeaders r).map BlockHeader.blockNumber =
        (List.range' (r.currentBlock + 1) n).map some ∧
      ∀ bh ∈ s.preLoadHeaders r, bh.blockSize.toNat ≤ r.maxBlockSize := by
  constructor
  · rw [hbhs, List.map_map]
    refine List.map_congr_left (fun j hj => ?_)
    rw [List.mem_range'_1] at hj
    obtain ⟨-, -, hnum⟩ := h.block_at (i := j - 1) (by omega)
    rw [Nat.sub_add_cancel (by omega)] at hnum
    exact hnum
  · intro bh hbh
    have hsmall := List.mem_takeWhile_imp hbh
    exact of_decide_eq_true hsmall

theorem flatten_convert (blockSignatures : List (List MinimumSignBlockHeader)) :
    (blockSignaturesConvert blockSignatures).flatten =
      blockSignatures.flatten.map MinimumSignBlockHeader.hash := by
  rw [blockSignaturesConvert, ← List.map_flatten]

/-- The hashes of different sign blocks are sent as different strings. -/
theorem nodup_key {hashes : List Blob} (hsend : ∀ hash ∈ hashes, Sendable hash)
    (h : hashes.Nodup) : (hashes.map hexBlob).Nodup :=
  (List.nodup_map_iff_inj_on h).mpr
    (fun a ha b hb hab => hexBlob_injective (hsend a ha) (hsend b hb) hab)

section

variable {rapidjson : RapidJson} {lz4 : LZ4} {p2p : P2P} {g : GetNewBlocksFromServer}
  {a : PreLoadAnswer} {response : Blob} {parsed : PreloadBlocksResponse}
  {headers : List MinimumBlockHeader}

/-- **An answer without blocks** carries at most the sign blocks behind the last one. -/
theorem roundTrip_of_nil {sections : Sections} (h : InStep s.blockchain s.timeline sections)
    (ha : s.preLoad r = .ok a) (hnil : s.preLoadHeaders r = [])
    (hcompress : g.isCompress = r.isCompress)
    (hparsed : rapidjson.parsePreloadBlocksMessage response = .ok parsed)
    (herror : parsed.error = none)
    (hheaders : rapidjson.parseBlocksHeader parsed.blockHeaders = .ok headers)
    (hwritten : Written a.bhs a.blockSignaturesHashes headers)
    (hadditing : rapidjson.parseAdditionalBlockHashes parsed.additingBlocksHashes =
      .ok a.additing)
    (hsend : a.bhs = [] → ∀ hash ∈ a.blockSignaturesHashes.flatten, Sendable hash)
    (hdumps : parseDumpBlocksBinary lz4 parsed.blockDumps r.isCompress = .ok a.blocks) :
    s.RoundTrip rapidjson lz4 p2p g r a response := by
  obtain ⟨-, -, -, mainDumps, runs, dumps, rfl, hmain, hruns, hmap⟩ := preLoad_eq_ok ha
  rw [hnil] at hmain hruns
  obtain rfl := List.eq_nil_of_length_eq_zero hmain
  simp only [hnil, List.nil_append] at hwritten hsend hdumps hadditing ⊢
  obtain rfl : headers = [] := hwritten
  have hkeys : (PreLoadAnswer.additing ⟨s.blockchain.countBlocks, [],
      blockSignaturesConvert runs, dumps⟩) =
      (runs.flatten.map MinimumSignBlockHeader.hash).map hexBlob := by
    rw [PreLoadAnswer.additing, if_pos rfl, flatten_convert]
  have hsend' := hsend trivial
  rw [flatten_convert] at hsend'
  obtain ⟨hdumps', -⟩ := dumps_eq hmap
  -- whatever was found behind the last block stands on the timeline
  have htip : r.currentBlock = s.blockchain.countBlocks → ∃ run, s.timeline.getSignaturesBetween
      (some (s.blockchain.getBlockByNumber s.blockchain.countBlocks).hash) none = .ok run ∧
      runs = [run] := by
    intro hcur
    unfold preLoadSignatures at hruns
    rw [if_neg (by simp), if_pos hcur.symm] at hruns
    obtain ⟨run, hrun, hruns⟩ := bind_eq_ok.mp hruns
    exact ⟨run, hrun, (Except.ok.inj hruns).symm⟩
  -- The hashes of the timeline are different, so a key comes once.
  have hnodup : (runs.flatten.map MinimumSignBlockHeader.hash).Nodup := by
    by_cases hcur : r.currentBlock = s.blockchain.countBlocks
    · obtain ⟨run, hrun, rfl⟩ := htip hcur
      rw [List.flatten_singleton]
      have hsub := (sublist_of_getSignaturesBetween hrun).map Element.hash
      rw [h.timeline, timeline_built, List.map_map] at hsub
      exact h.nodup.sublist hsub
    · unfold preLoadSignatures at hruns
      rw [if_neg (by simp), if_neg (fun he => hcur he.symm)] at hruns
      obtain rfl := Except.ok.inj hruns
      exact List.nodup_nil
  have hlen : (GetNewBlocksFromServer.preLoadKeys []
      ((runs.flatten.map MinimumSignBlockHeader.hash).map hexBlob)).length = dumps.length := by
    rw [hdumps', GetNewBlocksFromServer.preLoadKeys, List.map_nil, List.flatMap_nil,
      List.nil_append, List.nil_append, List.length_map, List.length_map, List.length_map]
  refine (roundTrip_iff hcompress hparsed herror hheaders hadditing hdumps rfl ?_ ?_).mpr
    ⟨?_, ?_, ?_⟩
  · rw [hkeys]
    exact Nat.le_of_eq hlen
  · rw [hkeys]
    exact nodup_key hsend' hnodup
  · rw [hkeys]
    exact hlen
  -- The keys of the client are the hashes of that run, in its order.
  · intro hcur
    obtain ⟨run, hrun, hone⟩ := htip hcur
    refine ⟨run, hrun, ?_⟩
    rw [hkeys, hone, List.flatten_singleton, List.map_map]
    rfl
  · intro k d
    rw [hkeys]
    unfold PreLoadAnswer.carried
    simp only [GetNewBlocksFromServer.preLoadKeys, List.map_nil, List.nil_append, List.flatMap_nil,
      flatten_convert, List.zip_map_left, List.mem_map, Prod.exists, Prod.map_apply, id_eq,
      Prod.mk.injEq]
    constructor
    · intro hmem
      obtain ⟨hash, d', hmem, rfl, rfl⟩ := hmem
      exact ⟨hash, hmem, rfl⟩
    · intro hmem
      obtain ⟨hash, hmem, rfl⟩ := hmem
      exact ⟨hash, d, hmem, rfl, rfl⟩

/-- The dumps with their hashes, block by block and sign block by sign block. -/
theorem mem_carried {count : Nat} {bhs : List BlockHeader}
    {runs : List (List MinimumSignBlockHeader)} {mainDumps : List Blob} {D : MinimumSignBlockHeader → Blob}
    (hmain : mainDumps.length = bhs.length) (k d : Blob) :
    (∃ hash, (hash, d) ∈ PreLoadAnswer.carried ⟨count, bhs, blockSignaturesConvert runs,
        mainDumps ++ runs.flatten.map D⟩ ∧ k = hexBlob hash) ↔
      (k, d) ∈ (bhs.map (fun bh => hexBlob bh.hash)).zip mainDumps ∨
        ∃ e ∈ runs.flatten, k = e.key ∧ d = D e := by
  unfold PreLoadAnswer.carried
  rw [flatten_convert, List.zip_append (by rw [List.length_map, hmain]), List.zip_map']
  have hzip : (bhs.map (fun bh => hexBlob bh.hash)).zip mainDumps =
      ((bhs.map BlockHeader.hash).zip mainDumps).map (fun p => (hexBlob p.1, p.2)) := by
    rw [← Function.comp_def hexBlob BlockHeader.hash, ← List.map_map, List.zip_map_left]
    rfl
  rw [hzip]
  simp only [List.mem_append, List.mem_map, Prod.mk.injEq]
  constructor
  · intro hmem
    obtain ⟨hash, hmem | ⟨e, he, rfl, rfl⟩, rfl⟩ := hmem
    · exact Or.inl ⟨(hash, d), hmem, rfl, rfl⟩
    · exact Or.inr ⟨e, he, rfl, rfl⟩
  · intro hmem
    rcases hmem with ⟨p, hp, rfl, rfl⟩ | ⟨e, he, rfl, rfl⟩
    · exact ⟨p.1, Or.inl hp, rfl⟩
    · exact ⟨e.hash, Or.inr ⟨e, he, rfl, rfl⟩, rfl⟩

/-- A request is orderly as the runs of the timeline are: no sign block is behind its blocks, and
those before them are in the order of the hashes. -/
theorem orderly_iff {sections : Sections} (h : InStep s.blockchain s.timeline sections) {n : Nat}
    (hn : 0 < n)
    (hbhs : s.preLoadHeaders r =
      (List.range' (r.currentBlock + 1) n).map s.blockchain.getBlockByNumber)
    (hlast : r.currentBlock + n ≤ s.blockchain.countBlocks) :
    s.Orderly r ↔ sections.run (r.currentBlock + n) = [] ∧
      ∀ run ∈ (List.range' r.currentBlock n).map (sentRun sections),
        s.InHashOrder r.isSign run := by
  have hlastBlock : (s.preLoadHeaders r).getLast? =
      some (s.blockchain.getBlockByNumber (r.currentBlock + n)) := by
    rw [hbhs, List.getLast?_map, List.getLast?_range', if_neg (by omega), Option.map_some]
    congr 2
    omega
  have hbehind : s.timeline.getSignaturesBetween
      (some (s.blockchain.getBlockByNumber (r.currentBlock + n)).hash) none =
        .ok (sections.run (r.currentBlock + n)) := by
    have hj := signatures_behind h (j := r.currentBlock + n - 1) (by omega)
    rwa [Nat.sub_add_cancel (by omega)] at hj
  -- `n` is positive, so the last header is that of block `currentBlock + n`.
  constructor
  · intro horderly
    obtain ⟨hnone, hsorted⟩ := horderly _ hlastBlock
    refine ⟨Except.ok.inj (hbehind.symm.trans hnone), fun run hrun => ?_⟩
    obtain ⟨j, hj, rfl⟩ := List.mem_map.mp hrun
    rw [List.mem_range'_1] at hj
    refine hsorted (s.blockchain.getBlockByNumber (j + 1)) ?_ _ (signatures_before h (by omega))
    rw [hbhs]
    exact List.mem_map_of_mem (List.mem_range'_1.mpr ⟨by omega, by omega⟩)
  · rintro ⟨hnil, hsorted⟩ last hlast'
    obtain rfl := Option.some.inj (hlastBlock.symm.trans hlast')
    rw [hnil] at hbehind
    refine ⟨hbehind, fun bh hbh run hrun => ?_⟩
    -- the run before a block of the answer is the one that was sent with it
    rw [hbhs, List.mem_map] at hbh
    obtain ⟨j, hj, rfl⟩ := hbh
    rw [List.mem_range'_1] at hj
    have hbefore := signatures_before h (j := j - 1) (by omega)
    rw [Nat.sub_add_cancel (by omega)] at hbefore
    obtain rfl := Except.ok.inj (hbefore.symm.trans hrun)
    exact hsorted _ (List.mem_map_of_mem (List.mem_range'_1.mpr ⟨by omega, by omega⟩))

/-- The strings that the dumps of an answer are kept under: those of the blocks, and those of the
runs before them in the order of the set that each run is read as. -/
theorem preLoadKeys_written {bhs : List BlockHeader} {R : List (List MinimumSignBlockHeader)}
    {T : List MinimumSignBlockHeader}
    (hwritten : Written bhs (blockSignaturesConvert (R ++ [T])) headers)
    (hlength : R.length = bhs.length)
    (hnodup : (bhs.map BlockHeader.hash ++
      (R ++ [T]).flatten.map MinimumSignBlockHeader.hash).Nodup) :
    GetNewBlocksFromServer.preLoadKeys headers [] = bhs.map (fun bh => hexBlob bh.hash) ++
        R.flatMap (fun run => (byHash run).map MinimumSignBlockHeader.key) ∧
      (bhs.map (fun bh => hexBlob bh.hash) ++
        R.flatten.map MinimumSignBlockHeader.key).Nodup := by
  obtain ⟨-, -, hhash, hprev, hsendB, hsendR, -⟩ := hwritten.fields
  have htake : (blockSignaturesConvert (R ++ [T])).take bhs.length = blockSignaturesConvert R := by
    rw [← hlength, blockSignaturesConvert, List.map_append]
    exact List.take_left' (by simp)
  simp only [htake] at hprev hsendR
  -- A hash that can be sent is read back, so different hashes give different keys.
  have hsend : ∀ hash ∈ bhs.map BlockHeader.hash ++ R.flatten.map MinimumSignBlockHeader.hash,
      Sendable hash := by
    intro hash hhash
    rcases List.mem_append.mp hhash with hhash | hhash
    · obtain ⟨bh, hbh, rfl⟩ := List.mem_map.mp hhash
      exact hsendB bh hbh
    · rw [← flatten_convert] at hhash
      obtain ⟨run, hrun, hhash⟩ := List.mem_flatten.mp hhash
      exact hsendR run hrun hash hhash
  have hkeys : (bhs.map (fun bh => hexBlob bh.hash) ++
      R.flatten.map MinimumSignBlockHeader.key).Nodup := by
    have hsub : (bhs.map BlockHeader.hash ++
        R.flatten.map MinimumSignBlockHeader.hash).Nodup := by
      refine hnodup.sublist (List.Sublist.append (List.Sublist.refl _) (List.Sublist.map _ ?_))
      rw [List.flatten_append]
      exact List.sublist_append_left _ _
    have hsent := nodup_key hsend hsub
    rwa [List.map_append, List.map_map, List.map_map] at hsent
  refine ⟨?_, hkeys⟩
  -- the set of a run holds its hashes in their order, for they are different
  have hextra : headers.flatMap (fun h => OrdSet.toList h.prevExtraBlocks) =
      R.flatMap (fun run => (byHash run).map MinimumSignBlockHeader.key) := by
    rw [hprev, blockSignaturesConvert, List.flatMap_map]
    refine List.flatMap_congr (fun run hrun => extraHashes_eq ?_)
    have hrunR : (run.map MinimumSignBlockHeader.key).Sublist
        (R.flatten.map MinimumSignBlockHeader.key) :=
      (List.sublist_flatten_of_mem hrun).map _
    exact (List.nodup_append.mp hkeys).2.1.sublist hrunR
  rw [GetNewBlocksFromServer.preLoadKeys, hhash, hextra, List.append_nil]

/-- Without a sign block behind the last block, the right dumps are kept exactly if the dumps of
each run are those in the order of the hashes. -/
theorem keeps_carried_iff {count : Nat} {bhs : List BlockHeader}
    {R : List (List MinimumSignBlockHeader)} {mainDumps : List Blob}
    {D : MinimumSignBlockHeader → Blob} (hmain : mainDumps.length = bhs.length)
    (hnodup : (bhs.map (fun bh => hexBlob bh.hash) ++
      R.flatten.map MinimumSignBlockHeader.key).Nodup) :
    (∀ k d, (k, d) ∈ (bhs.map (fun bh => hexBlob bh.hash) ++
        R.flatMap (fun run => (byHash run).map MinimumSignBlockHeader.key)).zip
          (mainDumps ++ R.flatten.map D) ↔
      ∃ hash, (hash, d) ∈ PreLoadAnswer.carried
        ⟨count, bhs, blockSignaturesConvert (R ++ [[]]), mainDumps ++ R.flatten.map D⟩ ∧
          k = hexBlob hash) ↔
      ∀ run ∈ R, (byHash run).map D = run.map D := by
  have hflat : (R ++ [([] : List MinimumSignBlockHeader)]).flatten = R.flatten := by simp
  have hzip : (bhs.map (fun bh => hexBlob bh.hash) ++
      R.flatMap (fun run => (byHash run).map MinimumSignBlockHeader.key)).zip
        (mainDumps ++ R.flatten.map D) =
      (bhs.map (fun bh => hexBlob bh.hash)).zip mainDumps ++
        R.flatMap (fun run =>
          ((byHash run).map MinimumSignBlockHeader.key).zip (run.map D)) := by
    rw [List.zip_append (by rw [List.length_map, hmain]), List.map_flatten, ← List.flatMap_def,
      zip_flatMap (fun run _ => by simp [length_byHash])]
  have hM : ((bhs.map (fun bh => hexBlob bh.hash)).zip mainDumps).map Prod.fst =
      bhs.map (fun bh => hexBlob bh.hash) :=
    List.map_fst_zip (by rw [List.length_map, hmain])
  have hkept := kept_iff (D := D) (hM ▸ hnodup)
  have hcarried := @mem_carried count bhs (R ++ [([] : List MinimumSignBlockHeader)]) _ D hmain
  rw [hflat] at hcarried
  simp only [hzip, hcarried, hkept]

/-- **An answer with blocks** ends well exactly when it is orderly. -/
theorem roundTrip_iff_of_ne_nil {sections : Sections}
    (h : InStep s.blockchain s.timeline sections) (ha : s.preLoad r = .ok a)
    (hne : s.preLoadHeaders r ≠ []) (hcompress : g.isCompress = r.isCompress)
    (hparsed : rapidjson.parsePreloadBlocksMessage response = .ok parsed)
    (herror : parsed.error = none)
    (hheaders : rapidjson.parseBlocksHeader parsed.blockHeaders = .ok headers)
    (hwritten : Written a.bhs a.blockSignaturesHashes headers)
    (hadditing : rapidjson.parseAdditionalBlockHashes parsed.additingBlocksHashes =
      .ok a.additing)
    (hdumps : parseDumpBlocksBinary lz4 parsed.blockDumps r.isCompress = .ok a.blocks) :
    s.RoundTrip rapidjson lz4 p2p g r a response ↔ s.Orderly r := by
  obtain ⟨-, -, -, mainDumps, blockSignatures, dumps, rfl, hmain, hsigs, hmap⟩ := preLoad_eq_ok ha
  obtain ⟨n, hbhs, hlast, -⟩ := s.preLoadHeaders_eq r
  have hn : 0 < n := by
    rcases Nat.eq_zero_or_pos n with rfl | hn
    · exact absurd hbhs hne
    · exact hn
  have hlen : (s.preLoadHeaders r).length = n := by rw [hbhs]; simp
  obtain ⟨hnumbers, -⟩ := preLoadHeaders_fit h hbhs hlast
  rw [preLoadSignatures, if_pos hne] at hsigs
  have hfull := hsigs
  rw [hbhs] at hfull
  have hB := getBlocksSignaturesFull_eq h hn (hlast hn) hfull
  have hnodup := h.nodup_sent (hlast hn)
  rw [← hbhs, ← hB] at hnodup
  obtain ⟨hdumpsD, hallD⟩ := dumps_eq hmap
  rw [orderly_iff h hn hbhs (hlast hn)]
  -- `R` are the runs before the blocks, and `T` the one behind them
  obtain ⟨R, hR⟩ : ∃ R, R = (List.range' r.currentBlock n).map (sentRun sections) := ⟨_, rfl⟩
  obtain ⟨T, hT⟩ : ∃ T, T = sections.run (r.currentBlock + n) := ⟨_, rfl⟩
  rw [← hR, ← hT] at hB ⊢
  subst hB
  have hlenR : R.length = (s.preLoadHeaders r).length := by rw [hlen, hR]; simp
  obtain ⟨hkeys, hnodup'⟩ := preLoadKeys_written hwritten hlenR hnodup
  have hpermR : (R.flatMap (fun run => (byHash run).map MinimumSignBlockHeader.key)).Perm
      (R.flatten.map MinimumSignBlockHeader.key) := by
    rw [List.map_flatten, ← List.flatMap_def]
    exact List.Perm.flatMap_left _ (fun run _ => (byHash_perm run).map _)
  have hadd : PreLoadAnswer.additing ⟨s.blockchain.countBlocks, s.preLoadHeaders r,
      blockSignaturesConvert (R ++ [T]), mainDumps ++ dumps⟩ = [] := if_neg hne
  -- The client has a key for each dump, but for those of `T`.
  have hlenK : (GetNewBlocksFromServer.preLoadKeys headers []).length = n + R.flatten.length := by
    rw [hkeys, List.length_append, List.length_map, hlen, hpermR.length_eq, List.length_map]
  have hlenD : (mainDumps ++ dumps).length = n + R.flatten.length + T.length := by
    rw [List.length_append, hmain, hlen, hdumpsD, List.length_map, List.flatten_append,
      List.length_append, List.flatten_singleton, Nat.add_assoc]
  have hnums : headers.map MinimumBlockHeader.number =
      List.range' (r.currentBlock + 1) headers.length := by
    obtain ⟨hlenH, hnumH, -⟩ := hwritten.fields
    rw [hnumbers, ← Function.comp_def some MinimumBlockHeader.number, ← List.map_map] at hnumH
    rw [hlenH, hlen]
    exact List.map_injective_iff.mpr (Option.some_injective _) hnumH
  have hrt : s.RoundTrip rapidjson lz4 p2p g r _ response ↔ _ :=
    roundTrip_iff hcompress hparsed herror hheaders hadditing hdumps hnums
      (by rw [hadd, hlenK, hlenD]; omega)
      (by rw [hadd, hkeys]; exact ((List.Perm.append_left _ hpermR).nodup_iff).mpr hnodup')
  rw [hrt, hadd, hlenK, hlenD]
  -- Without `T`, what is left is the order in each run.
  by_cases hnil : T = []
  · subst hnil
    rw [show (R ++ [([] : List MinimumSignBlockHeader)]).flatten = R.flatten by simp]
      at hdumpsD hallD
    rw [hdumpsD, hkeys, keeps_carried_iff hmain hnodup']
    have horder : ∀ run ∈ R, s.InHashOrder r.isSign run ↔
        (byHash run).map (s.signDumpD r.isSign) = run.map (s.signDumpD r.isSign) :=
      fun run hrun =>
        inHashOrder_iff (fun e he => hallD e (List.mem_flatten.mpr ⟨_, hrun, he⟩))
    constructor
    · rintro ⟨-, -, hsorted⟩
      exact ⟨rfl, fun run hrun => (horder run hrun).mpr (hsorted run hrun)⟩
    · rintro ⟨-, hsorted⟩
      exact ⟨rfl, fun hcur => absurd (hlast hn) (by omega),
        fun run hrun => (horder run hrun).mp (hsorted run hrun)⟩
  · -- the dumps behind the last block are left over
    have hpos : 0 < T.length := List.length_pos_iff.mpr hnil
    refine iff_of_false (fun hall => ?_) (fun horderly => hnil horderly.1)
    have hcount := hall.1
    omega

end

/--
**The two ends of `pre-load` agree** exactly when no sign block stands behind the last
block of the answer and the runs before its blocks are in the order of their hashes.
-/
theorem preLoad_roundTrip {rapidjson : RapidJson} {lz4 : LZ4} {a : PreLoadAnswer}
    {response : Blob} (p2p : P2P) (g : GetNewBlocksFromServer)
    (hgrown : Grown s.blockchain s.timeline) (ha : s.preLoad r = .ok a)
    (hresponse : a.preLoadBlocksJson rapidjson lz4 r.isCompress = .ok response)
    (hread : a.ReadsBack rapidjson)
    (hlz4 : r.isCompress = true → a.blocks.flatMap serializeString ≠ [] →
      lz4.Lossless (a.blocks.flatMap serializeString))
    (hcompress : g.isCompress = r.isCompress) :
    s.RoundTrip rapidjson lz4 p2p g r a response ↔ s.Orderly r := by
  obtain ⟨sections, h⟩ := hgrown.inStep
  obtain ⟨hcur, hmax, hten, mainDumps, blockSignatures, dumps, heq, -⟩ := preLoad_eq_ok ha
  obtain ⟨n, hbhs, hlast, hpre⟩ := s.preLoadHeaders_eq r
  obtain ⟨hnumbers, hsizes⟩ := preLoadHeaders_fit h hbhs hlast
  have hbh : a.bhs = s.preLoadHeaders r := by rw [heq]
  have hfit : MAX_PRELOAD_BLOCKS = 10 := rfl
  have hnum : ∀ bh ∈ a.bhs, ∃ m, bh.blockNumber = some m ∧ m < 2 ^ 63 := by
    intro bh hmem
    have hmem' := List.mem_map_of_mem (f := BlockHeader.blockNumber) (hbh ▸ hmem)
    rw [hnumbers, List.mem_map] at hmem'
    obtain ⟨m, hm, hbn⟩ := hmem'
    rw [List.mem_range'_1] at hm
    exact ⟨m, hbn.symm, by omega⟩
  have hsize : ∀ bh ∈ a.bhs, bh.blockSize.toNat < 2 ^ 63 := by
    intro bh hmem
    have := hsizes bh (hbh ▸ hmem)
    omega
  -- The client reads the answer as it was written.
  obtain ⟨parsed, headers, hparsed, herror, hheaders, hwritten, hadditing, hsend, hdumps⟩ :=
    PreLoadAnswer.parsed hresponse hread hlz4 hnum hsize
  -- Without headers it is the sign blocks alone that are sent.
  by_cases hnil : s.preLoadHeaders r = []
  · refine iff_of_true (roundTrip_of_nil h ha hnil hcompress hparsed herror hheaders hwritten
      hadditing hsend hdumps) ?_
    intro last hlast'
    rw [hnil] at hlast'
    cases hlast'
  · exact roundTrip_iff_of_ne_nil h ha hnil hcompress hparsed herror hheaders hwritten hadditing
      hdumps

/-- A sign block of the first block. -/
def signHeader (hash : UInt8) : SignBlockHeader :=
  { timestamp := 0, blockSize := 80, hash := Blob.replicate 32 hash Blob.hash_fits
    prevHash := Blob.replicate 32 1 Blob.hash_fits
    filePos := { pos := 128, fileNameRelative := ⟨ascii ['b', 'l', 'k'], Blob.blk_fits⟩ }
    senderSign := ∅, senderPubkey := ∅, senderAddress := ∅ }

/-- A node with one block on its chain, and sign blocks in its cache. -/
def oneBlockServer (timeline : BlocksTimeline) : Server trustingScheme where
  blockchain := (BlockChain.new.addBlock (BlockChain.simpleHeader 1 0)).2
  timeline
  dumps :=
    { modules := { block := true, txs := true, balance := true, addrTxs := true, blockRaw := true
                   v8 := true, nodeTest := true }
      blockDumpCache := OrdMap.insert (OrdMap.insert (OrdMap.insert ∅
        (Blob.replicate 32 1 Blob.hash_fits) (Blob.replicate 120 7 (by decide)))
        (Blob.replicate 32 5 Blob.hash_fits) (Blob.replicate 80 8 (by decide)))
        (Blob.replicate 32 6 Blob.hash_fits) (Blob.replicate 80 9 (by decide))
      files := ∅
      privateKey := none
      random := fun _ => 0 }

/-- The timeline with that block alone. -/
def oneBlockTimeline : BlocksTimeline := (new.addSimpleBlock (BlockChain.simpleHeader 1 0)).2

/-- The timeline with three sign blocks in front of it, in the order of their hashes. The answer
leaves out the very first one. -/
def threeSigns : BlocksTimeline :=
  (((new.addSignBlock (signHeader 4)).2.addSignBlock (signHeader 5)).2.addSignBlock (signHeader 6)).2

/-- A block behind sign blocks. -/
def signedTimeline : BlocksTimeline :=
  (threeSigns.addSimpleBlock (BlockChain.simpleHeader 1 0)).2

/-- What a client asks that has no block yet. -/
def firstRequest : PreLoadRequest :=
  { currentBlock := 0, isCompress := false, isSign := false, preLoad := 5, maxBlockSize := 100000 }

/-- The answer, where these hashes stand before and behind the block. -/
def oneBlockAnswer (before behind dumps : List Blob) : PreLoadAnswer where
  countBlocks := 1
  bhs := [(BlockChain.simpleHeader 1 0).withNumber (some 1)]
  blockSignaturesHashes := [before, behind]
  blocks := Blob.replicate 120 7 (by decide) :: dumps

/-- The library at this document and its text. -/
def readerOf (text : Blob) (doc : Json) : RapidJson where
  jsonToString _ := text
  Parse t := if t = cStr text then some doc else none

/-- The document with the headers of that answer, and its text. -/
def oneBlockDoc (before behind dumps : List Blob) : Json :=
  match (oneBlockAnswer before behind dumps).headersDoc with
  | .ok doc => doc
  | .error _ => .null

/-- The text of the headers of one block, with the hashes before it and behind it. -/
def oneBlockText (before behind : Bytes) : Blob :=
  match Blob.ofBytes (ascii "\x7b\"result\":[\x7b\"hash\":\"".toList ++
      hexBytes (List.replicate 32 1) ++ ascii "\",\"prev_hash\":\"".toList ++
      hexBytes (List.replicate 32 0) ++
      ascii "\",\"number\":1,\"size\":120,\"fileName\":\"blk\",\"next_extra_blocks\":[".toList ++
      behind ++ ascii "],\"prev_extra_blocks\":[".toList ++ before ++ ascii "]\x7d]\x7d".toList) with
  | .ok text => text
  | .error _ => ∅

/-- A node that nobody answers. -/
def silentP2P : P2P where
  countBlocks _ := ⟨[], none⟩
  preLoad _ _ _ := ⟨[], none⟩
  headers _ _ _ := .error .stop
  dumps _ _ _ _ := .error .stop
  dump _ _ _ _ _ _ := .error .stop
  wholeDump _ _ _ _ := .error .stop

/-- A library that never succeeds. -/
def failingLZ4 : LZ4 where
  compress_default _ _ _ := []
  decompress_safe _ _ _ := .error []

/-- A client that does not compress and has nothing yet. -/
def freshClient : GetNewBlocksFromServer :=
  { maxAdvancedLoadBlocks := 5, countBlocksInBatch := 5, isCompress := false
    advancedLoadsBlocksHeaders := [], advancedLoadsBlocksDumps := ∅, asked := 0 }

theorem readsBack_oneBlock {text : Blob} {before behind dumps : List Blob} (h : [] ≠ cStr text) :
    (oneBlockAnswer before behind dumps).ReadsBack
      (readerOf text (oneBlockDoc before behind dumps)) where
  headers := by
    intro doc hdoc
    have heq : oneBlockDoc before behind dumps = doc := by
      unfold oneBlockDoc
      rw [hdoc]
    rw [RapidJson.ReadsBack, heq]
    exact if_pos rfl
  hashes := by
    intro doc hdoc
    cases hdoc
  empty := if_neg h

/-- What is written of an answer. -/
def written (rapidjson : RapidJson) (a : PreLoadAnswer) : Blob :=
  match a.preLoadBlocksJson rapidjson failingLZ4 false with
  | .ok response => response
  | .error _ => ∅

theorem grown_oneBlock :
    Grown (BlockChain.new.addBlock (BlockChain.simpleHeader 1 0)).2 oneBlockTimeline := by
  have hadd : (BlockChain.new.addBlock (BlockChain.simpleHeader 1 0)).1 = .ok (some 1) := by decide
  have htimeline : (new.addSimpleBlock (BlockChain.simpleHeader 1 0)).1 =
      .ok (0, ⟨serializeUInt64 1 ++ serializeString (Blob.replicate 32 1 Blob.hash_fits),
        by decide⟩) := by
    decide +kernel
  exact Grown.block Grown.new ⟨by decide, rfl, fun _ => Or.inl (by decide)⟩ hadd htimeline

theorem grown_signed :
    Grown (BlockChain.new.addBlock (BlockChain.simpleHeader 1 0)).2 signedTimeline := by
  have hadd : (BlockChain.new.addBlock (BlockChain.simpleHeader 1 0)).1 = .ok (some 1) := by decide
  have htimeline : (threeSigns.addSimpleBlock (BlockChain.simpleHeader 1 0)).1 =
      .ok (3, ⟨serializeUInt64 1 ++ serializeString (Blob.replicate 32 1 Blob.hash_fits),
        by decide⟩) := by
    decide +kernel
  exact Grown.block (Grown.sign _ (Grown.sign _ (Grown.sign _ Grown.new)))
    ⟨by decide, rfl, fun _ => Or.inl (by decide)⟩ hadd htimeline

/-- The hashes of the sign blocks in the answer, their text and their dumps. -/
def hashesBefore : List Blob :=
  [Blob.replicate 32 5 Blob.hash_fits, Blob.replicate 32 6 Blob.hash_fits]

/-- The hashes of two sign blocks as they stand in the text. -/
def textBefore : Bytes :=
  ascii ['"'] ++ hexBytes (List.replicate 32 5) ++ ascii ['"', ',', '"'] ++
    hexBytes (List.replicate 32 6) ++ ascii ['"']

/-- The dumps of these sign blocks. -/
def dumpsBefore : List Blob :=
  [Blob.replicate 80 8 (by decide), Blob.replicate 80 9 (by decide)]

/-- The library at the answer with these sign blocks. -/
def signedReader : RapidJson :=
  readerOf (oneBlockText textBefore []) (oneBlockDoc hashesBefore [] dumpsBefore)

/-- A block with two sign blocks before it comes through. -/
theorem preLoad_roundTrip_signed :
    (oneBlockServer signedTimeline).RoundTrip signedReader failingLZ4 silentP2P freshClient
      firstRequest (oneBlockAnswer hashesBefore [] dumpsBefore)
      (written signedReader (oneBlockAnswer hashesBefore [] dumpsBefore)) := by
  have ha : (oneBlockServer signedTimeline).preLoad firstRequest =
      .ok (oneBlockAnswer hashesBefore [] dumpsBefore) := by
    decide +kernel
  have hresponse : (oneBlockAnswer hashesBefore [] dumpsBefore).preLoadBlocksJson signedReader
      failingLZ4 firstRequest.isCompress =
      .ok (written signedReader (oneBlockAnswer hashesBefore [] dumpsBefore)) := by
    decide +kernel
  refine (preLoad_roundTrip silentP2P freshClient grown_signed ha hresponse
    (readsBack_oneBlock (by decide +kernel)) (fun h => by cases h) rfl).mpr ?_
  have hheaders : (oneBlockServer signedTimeline).preLoadHeaders firstRequest =
      [(BlockChain.simpleHeader 1 0).withNumber (some 1)] := by
    decide +kernel
  have hbehind : (oneBlockServer signedTimeline).timeline.getSignaturesBetween
      (some (BlockChain.simpleHeader 1 0).hash) none = .ok [] := by
    decide +kernel
  obtain ⟨before, hbefore, hsorted⟩ : ∃ before,
      (oneBlockServer signedTimeline).timeline.getSignaturesBetween none
        (some (BlockChain.simpleHeader 1 0).hash) = .ok before ∧
      before.Pairwise (fun a b : MinimumSignBlockHeader => decide (a.key ≤ b.key) = true) :=
    ⟨_, rfl, by decide +kernel⟩
  intro last hlast
  rw [hheaders] at hlast
  obtain rfl := Option.some.inj hlast
  refine ⟨hbehind, ?_⟩
  intro bh hbh run hrun
  rw [hheaders] at hbh
  obtain rfl := List.mem_singleton.mp hbh
  obtain rfl := Except.ok.inj (hbefore.symm.trans hrun)
  unfold InHashOrder byHash
  rw [List.mergeSort_of_pairwise hsorted]

/-- With a sign block behind the block there are more dumps than hashes for them. -/
theorem preLoad_stranded :
    ¬ ∀ (s : Server trustingScheme) (r : PreLoadRequest) (rapidjson : RapidJson) (lz4 : LZ4)
      (a : PreLoadAnswer) (response : Blob) (p2p : P2P) (g : GetNewBlocksFromServer),
      Grown s.blockchain s.timeline → s.preLoad r = .ok a →
      a.preLoadBlocksJson rapidjson lz4 r.isCompress = .ok response → a.ReadsBack rapidjson →
      (∀ src, lz4.Lossless src ∨ r.isCompress = false) → g.isCompress = r.isCompress →
      s.RoundTrip rapidjson lz4 p2p g r a response := by
  intro h
  have ha : (oneBlockServer (oneBlockTimeline.addSignBlock (signHeader 5)).2).preLoad firstRequest =
      .ok (oneBlockAnswer [] [Blob.replicate 32 5 Blob.hash_fits] [Blob.replicate 80 8 (by decide)]) := by
    decide +kernel
  obtain ⟨rapidjson, hjson⟩ : ∃ rapidjson, rapidjson = readerOf
      (oneBlockText [] (ascii ['"'] ++ hexBytes (List.replicate 32 5) ++ ascii ['"']))
      (oneBlockDoc [] [Blob.replicate 32 5 Blob.hash_fits] [Blob.replicate 80 8 (by decide)]) :=
    ⟨_, rfl⟩
  have hresponse : (oneBlockAnswer [] [Blob.replicate 32 5 Blob.hash_fits]
      [Blob.replicate 80 8 (by decide)]).preLoadBlocksJson rapidjson failingLZ4 false =
      .ok (written rapidjson (oneBlockAnswer [] [Blob.replicate 32 5 Blob.hash_fits]
        [Blob.replicate 80 8 (by decide)])) := by
    subst hjson
    decide +kernel
  have hread : (oneBlockAnswer [] [Blob.replicate 32 5 Blob.hash_fits]
      [Blob.replicate 80 8 (by decide)]).ReadsBack rapidjson := by
    subst hjson
    exact readsBack_oneBlock (by decide +kernel)
  obtain ⟨parsed, hashes, g', hparsed, -, htry, -⟩ := h _ _ rapidjson failingLZ4 _ _ silentP2P
    freshClient (Grown.sign _ grown_oneBlock) ha hresponse hread (fun _ => Or.inr rfl) rfl
  -- The dump of the sign block behind the last block has no key.
  have hlost : (match rapidjson.parsePreloadBlocksMessage (written rapidjson
      (oneBlockAnswer [] [Blob.replicate 32 5 Blob.hash_fits] [Blob.replicate 80 8 (by decide)])) with
      | .ok parsed => (freshClient.clearAdvanced.tryAddPreLoadBlocks
        ⟨messages rapidjson failingLZ4, silentP2P⟩ 1 parsed.blockHeaders
          parsed.additingBlocksHashes parsed.blockDumps).1
      | .error e => .error e) = .error (.exception "Incorrect blocks dumps array") := by
    subst hjson
    decide +kernel
  rw [hparsed] at hlost
  exact absurd ((congrArg Prod.fst htry).symm.trans hlost) (by simp)

end Server

end TorrentNode
