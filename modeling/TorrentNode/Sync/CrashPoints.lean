import Mathlib.Logic.Relation
import TorrentNode.Sync.Rejected
import TorrentNode.Sync.SharedDatabase

/-!
# A node that crashes at any point

Synchronization gives a block to the workers before it writes the block's header, and
the workers write in their own time. So after a crash a worker may have recorded a
block whose header is not there, but never more than that one: it is the block that
comes next. This is so as long as no header fails to be written: the loop reports
that and takes the next block, and then there is a gap on disk.
-/

namespace TorrentNode

/-! ## The chain that is rebuilt -/

/-- What is loaded into an empty chain. -/
theorem HasBlocks.loaded {db : LevelDb} {hs : List BlockHeader} (h : HasBlocks db hs)
    (hl : BlockChain.Lineage hs) : ∃ raws c, db.getAllBlocks = .ok raws ∧
      loadBlocks BlockChain.new.clear raws = .ok c ∧ BlockChain.Unnumbered c hs ∧
      (hs = [] → raws = []) := by
  obtain ⟨raws, hraws, hmem⟩ := db.getAllBlocks_eq
  have hvalues : ∀ raw ∈ raws, ∃ b ∈ hs, b.serialize = .ok raw.val := by
    intro raw hraw
    obtain ⟨k, hk, hfind⟩ := (hmem raw).mp hraw
    exact h.only k raw hk hfind
  have hempty : ∀ k, k ≠ BlockChain.GENESIS_BLOCK_HASH →
      BlockChain.new.clear.blocks.find? k = none := fun k hk => OrdMap.find?_insert_ne hk
  obtain ⟨c, hload, hhashes, hlast, hothers, hin⟩ := loadBlocks_of hl hvalues
    (fun b hb => Or.inl (hempty _ (fun he => hl.genesis (he ▸ List.mem_map_of_mem hb))))
  refine ⟨raws, c, hraws, hload, ⟨hhashes, hlast, hothers _ hl.genesis, ?_, ?_⟩, ?_⟩
  · intro b hb
    obtain ⟨raw, hser, hfind⟩ := h.saved b hb
    exact hin b hb (Or.inr ⟨raw, (hmem raw).mpr ⟨_, List.prefix_append _ _, hfind⟩, hser⟩)
  · intro k hk hnot
    rw [hothers k hnot, hempty k hk]
  · rintro rfl
    refine List.eq_nil_iff_forall_not_mem.mpr (fun raw hraw => ?_)
    obtain ⟨b, hb, _⟩ := hvalues raw hraw
    exact absurd hb List.not_mem_nil

/-- **What the database holds** is put together to the chain that grows out of its headers. -/
theorem HasBlocks.initializeChain_eq {db : LevelDb} {hs : List BlockHeader} (h : HasBlocks db hs)
    (hl : BlockChain.Lineage hs) : initializeChain db .new = .ok (BlockChain.new.grow hs) := by
  obtain ⟨raws, c, hraws, hload, hunnumbered, hnil⟩ := h.loaded hl
  refine bind_eq_ok.mpr ⟨_, h.metadata, bind_eq_ok.mpr ⟨raws, hraws,
    bind_eq_ok.mpr ⟨c, hload, ?_⟩⟩⟩
  rcases List.eq_nil_or_concat hs with rfl | ⟨below, top, rfl⟩
  · obtain rfl := hnil rfl
    cases hload
    rfl
  · rw [List.concat_eq_append] at hl hunnumbered ⊢
    have htop : (metadataOf (below ++ [top])).blockHash = BlockChain.tip (below ++ [top]) := by
      rw [metadataOf, List.getLast?_concat, BlockChain.tip_concat]
    have hne : BlockChain.tip (below ++ [top]) ≠ ∅ := by
      rw [BlockChain.tip_concat]
      exact hl.hashes top (List.mem_append_right _ (List.mem_singleton_self _))
    rw [htop, Blob.isEmpty_eq_false.mpr hne, BlockChain.calcBlockchain_lineage hl hunnumbered]
    rfl

/-- The headers of the blocks 1, …, h, as they come from a source. -/
def headersTo (blk : Nat → BlockInfo) (h : Nat) : List BlockHeader :=
  (List.range h).map (fun i => (blk (i + 1)).header.withNumber none)

/-- The blocks 1, …, len of one chain, from the genesis block on. -/
structure OneChain (blk : Nat → BlockInfo) (len : Nat) : Prop extends ChainOfBlocks blk len where
  root : (blk 1).header.prevHash = BlockChain.GENESIS_BLOCK_HASH

section Headers

variable {blk : Nat → BlockInfo} {len h : Nat}

theorem length_headersTo : (headersTo blk h).length = h := by
  rw [headersTo, List.length_map, List.length_range]

theorem headersTo_succ :
    headersTo blk (h + 1) = headersTo blk h ++ [(blk (h + 1)).header.withNumber none] := by
  rw [headersTo, headersTo, List.range_succ, List.map_append, List.map_singleton]

theorem withNumber_none {header : BlockHeader} {n : Nat} (hn : header.blockNumber = some n) :
    (header.withNumber none).withNumber (some n) = header := by
  rw [← hn]
  rfl

theorem OneChain.tip (hchain : OneChain blk len) (hlen : h + 1 ≤ len) :
    (blk (h + 1)).header.prevHash = BlockChain.tip (headersTo blk h) := by
  cases h with
  | zero => exact hchain.root
  | succ h =>
      rw [headersTo_succ, BlockChain.tip_concat, hchain.linked (h + 1) (by omega) hlen]
      rfl

/-- The blocks up to a bound below the length have the numbers of their places. -/
theorem OneChain.blockNumber_min (hchain : OneChain blk len) {m i : Nat} (hi : 1 ≤ i)
    (hle : i ≤ min m len) : (blk i).blockNumber.toNat = i :=
  hchain.blockNumber_toNat hi (hle.trans (min_le_right _ _))

end Headers

/-! ## The node -/

/-- The three workers. -/
structure Workers where
  main : WorkerMain
  script : WorkerScript
  nodeTest : WorkerNodeTest

/-- What a node holds, and its databases. -/
structure Node where
  /-- The chain, and the database that the main worker and the script worker write to as well. -/
  sync : SyncImpl
  /-- The block that the workers have and whose header is not written yet, with its element of the
  timeline. -/
  unsaved : Option (BlockInfo × UInt64 × Blob)
  /-- A block has come into the chain whose header could not be written, and the loop has gone
  on. -/
  lost : Bool
  mainQueue : List BlockInfo
  mainMemory : MainMemory
  scriptQueue : List BlockInfo
  leveldbV8 : LevelDb
  nodeTestQueue : List BlockInfo
  leveldbNodeTest : LevelDb

/-- A block with the number that the chain gave it. -/
def numbered (bi : BlockInfo) (n : Nat) : BlockInfo :=
  { header := bi.header.withNumber (some n)
    txs := bi.txs.map (fun tx => { tx with blockNumber := UInt64.ofNat n }) }

namespace Node

/-- `worker->process(bi)` of the workers that there are and that want the block. -/
def push (σ : Node) (toMain toScript toNodeTest : Bool) (bi : BlockInfo) : Node :=
  { σ with
    mainQueue := σ.mainQueue ++ if toMain then [bi] else []
    scriptQueue := σ.scriptQueue ++ if toScript then [bi] else []
    nodeTestQueue := σ.nodeTestQueue ++ if toNodeTest then [bi] else [] }

/-- The node once a block is in the chain, in the timeline and in the queues. -/
def give (σ : Node) (toMain toScript toNodeTest : Bool) (bi : BlockInfo) (blockchain : BlockChain)
    (timeline : BlocksTimeline) (saved : UInt64 × Blob) : Node :=
  { σ.push toMain toScript toNodeTest bi with
    sync := { σ.sync with blockchain, timeline, delivered := σ.sync.delivered ++ [bi] }
    unsaved := some (bi, saved) }

/-- The node once the header is written. -/
def save (σ : Node) (batch : Batch) : Node :=
  { σ with sync := { σ.sync with leveldb := addBatch batch σ.sync.leveldb }, unsaved := none }

/-- The node that starts again with what is on disk. -/
def restart (σ : Node) (blockchain : BlockChain) (timeline : BlocksTimeline) : Node :=
  { σ with
    sync := { σ.sync with blockchain, timeline, delivered := [] }, unsaved := none
    mainQueue := []
    mainMemory := WorkerMain.startMemory (σ.sync.leveldb.findMainBlock.toOption.getD default)
    scriptQueue := [], nodeTestQueue := [] }

/--
The steps of the loop and of the workers, in any order. Blocks come from one chain,
each when the chain has the one below; and a worker that is behind is offered blocks
of the chain again. A block may be refused by the timeline; the header of one that is
not is written, or cannot be and is passed over, or the node crashes before.
-/
inductive Step (ws : Workers) (blk : Nat → BlockInfo) (len : Nat) : Node → Node → Prop where
  | give {σ : Node} (toMain toScript toNodeTest : Bool) {bi : BlockInfo} {n : Nat} {c : BlockChain}
      {t : BlocksTimeline} {saved : UInt64 × Blob} : σ.unsaved = none →
      n = σ.sync.blockchain.countBlocks + 1 → n ≤ len →
      bi.header.blockNumber = none → numbered bi n = blk n →
      σ.sync.blockchain.addBlock bi.header = (.ok (some n), c) →
      σ.sync.timeline.addSimpleBlock (blk n).header = (.ok saved, t) →
      Step ws blk len σ (σ.give toMain toScript toNodeTest (blk n) c t saved)
  | refuse {σ : Node} {bi : BlockInfo} {n : Nat} {c : BlockChain} {t : BlocksTimeline} {e : Err} :
      σ.unsaved = none → n = σ.sync.blockchain.countBlocks + 1 → n ≤ len →
      bi.header.blockNumber = none → numbered bi n = blk n →
      σ.sync.blockchain.addBlock bi.header = (.ok (some n), c) →
      σ.sync.timeline.addSimpleBlock (blk n).header = (.error e, t) →
      Step ws blk len σ
        { σ with sync := { σ.sync with blockchain := c, timeline := t }, lost := true }
  | save {σ : Node} {bi : BlockInfo} {saved : UInt64 × Blob} {batch : Batch} :
      σ.unsaved = some (bi, saved) → σ.sync.blockBatch bi.header saved.1 saved.2 = .ok batch →
      Step ws blk len σ (σ.save batch)
  | lose {σ : Node} {bi : BlockInfo} {saved : UInt64 × Blob} : σ.unsaved = some (bi, saved) →
      Step ws blk len σ { σ with unsaved := none, lost := true }
  | append {σ : Node} (files : OrdMap Blob Bytes) :
      Step ws blk len σ { σ with sync := { σ.sync with files } }
  | confirm {σ : Node} (fault : Option Err) (fromFile : Bool) (filepos : Except Err FilePosition) :
      Step ws blk len σ
        { σ with sync := (SyncImpl.confirmBlockF fault σ.sync fromFile filepos).2 }
  | sign {σ : Node} (fl : Faults) (src : SyncImpl.Source) (bi : SignBlockInfo) (dump : Blob) :
      Step ws blk len σ { σ with sync := (SyncImpl.processSignBlockF fl σ.sync src bi dump).2 }
  | again {σ : Node} (toMain toScript toNodeTest : Bool) (i : Nat) : 1 ≤ i →
      i ≤ σ.sync.blockchain.countBlocks →
      Step ws blk len σ (σ.push toMain toScript toNodeTest (blk i))
  | main {σ : Node} {bi : BlockInfo} {rest : List BlockInfo} {db : LevelDb} {m : MainMemory} :
      σ.mainQueue = bi :: rest →
      ((ws.main.on σ.sync.leveldb).worker σ.mainMemory bi).2 = (db, m) →
      Step ws blk len σ
        { σ with sync := { σ.sync with leveldb := db }, mainQueue := rest, mainMemory := m }
  | script {σ : Node} {bi : BlockInfo} {rest : List BlockInfo} {server : V8Server}
      {txsStatusCache : StatusCache} {db db' : LevelDb} {m : ScriptMemory} :
      σ.scriptQueue = bi :: rest →
      ((ws.script.on σ.leveldbV8 server).work
        { leveldb := σ.sync.leveldb, txsStatusCache } bi).2 = (db, m) →
      -- the statuses are written before the batch is
      db' = db ∨ db' = σ.leveldbV8 →
      Step ws blk len σ
        { σ with
          sync := { σ.sync with leveldb := m.leveldb }, scriptQueue := rest, leveldbV8 := db' }
  | nodeTest {σ : Node} {bi : BlockInfo} {rest : List BlockInfo} {db : LevelDb} :
      σ.nodeTestQueue = bi :: rest → ((ws.nodeTest.on σ.leveldbNodeTest).work bi).2 = db →
      Step ws blk len σ { σ with nodeTestQueue := rest, leveldbNodeTest := db }
  | crash {σ : Node} {c : BlockChain} (t : BlocksTimeline) :
      initializeChain σ.sync.leveldb .new = .ok c → Step ws blk len σ (σ.restart c t)

/-- A node before its first block. -/
structure Empty (σ : Node) : Prop where
  modules : σ.sync.modules.block
  blockchain : σ.sync.blockchain = .new
  records : HasBlocks σ.sync.leveldb []
  main : recordedIn σ.sync.leveldb.findMainBlock = some (0, none)
  script : recordedIn σ.leveldbV8.findScriptBlock = some (0, none)
  nodeTest : recordedIn σ.leveldbNodeTest.findNodeStatBlock = some (0, none)
  unsaved : σ.unsaved = none
  mainQueue : σ.mainQueue = []
  scriptQueue : σ.scriptQueue = []
  nodeTestQueue : σ.nodeTestQueue = []

/-- The states of a node that began without blocks. -/
inductive Reached (ws : Workers) (blk : Nat → BlockInfo) (len : Nat) : Node → Prop where
  | start {σ : Node} : σ.Empty → Reached ws blk len σ
  | step {σ σ' : Node} : Reached ws blk len σ → Step ws blk len σ σ' → Reached ws blk len σ'

/-! ## What holds after every step -/

/-- A record that names no block, or one of the first `h`. -/
def Names (blk : Nat → BlockInfo) (h : Nat) (record : Option (Nat × Option Blob)) : Prop :=
  record = some (0, none) ∨
    ∃ i, 1 ≤ i ∧ i ≤ h ∧ record = some (i, some (blk i).header.hash)

/-- A queue with some of the first `h` blocks. -/
def Queued (blk : Nat → BlockInfo) (h : Nat) (queue : List BlockInfo) : Prop :=
  ∀ bi ∈ queue, ∃ i, 1 ≤ i ∧ i ≤ h ∧ bi = blk i

/-- The chain of the first `h` blocks. -/
def chainTo (blk : Nat → BlockInfo) (h : Nat) : BlockChain := BlockChain.new.grow (headersTo blk h)

/-- The headers of the first `h` blocks are written, and nothing is further than one block
ahead. -/
structure Holds (blk : Nat → BlockInfo) (len h : Nat) (σ : Node) : Prop where
  modules : σ.sync.modules.block
  grown : BlockChain.Grown (chainTo blk h) (headersTo blk h)
  records : HasBlocks σ.sync.leveldb (headersTo blk h)
  idle : σ.unsaved = none → h ≤ len ∧ σ.sync.blockchain = chainTo blk h
  busy : ∀ bi saved, σ.unsaved = some (bi, saved) → h + 1 ≤ len ∧ bi = blk (h + 1) ∧
    σ.sync.blockchain = chainTo blk (h + 1) ∧
    BlockChain.Grown (chainTo blk (h + 1)) (headersTo blk (h + 1))
  mainQueue : Queued blk (min (h + 1) len) σ.mainQueue
  scriptQueue : Queued blk (min (h + 1) len) σ.scriptQueue
  nodeTestQueue : Queued blk (min (h + 1) len) σ.nodeTestQueue
  main : Names blk (min (h + 1) len) (recordedIn σ.sync.leveldb.findMainBlock)
  script : Names blk (min (h + 1) len) (recordedIn σ.leveldbV8.findScriptBlock)
  nodeTest : Names blk (min (h + 1) len) (recordedIn σ.leveldbNodeTest.findNodeStatBlock)

section Steps

variable {ws : Workers} {blk : Nat → BlockInfo} {len h : Nat} {σ : Node}

theorem Names.mono {h' : Nat} {record : Option (Nat × Option Blob)} (hrec : Names blk h record)
    (hle : h ≤ h') : Names blk h' record := by
  rcases hrec with hrec | ⟨i, hi, hih, hrec⟩
  · exact Or.inl hrec
  · exact Or.inr ⟨i, hi, hih.trans hle, hrec⟩

theorem Queued.mono {h' : Nat} {queue : List BlockInfo} (hq : Queued blk h queue) (hle : h ≤ h') :
    Queued blk h' queue := by
  intro bi hbi
  obtain ⟨i, hi, hih, rfl⟩ := hq bi hbi
  exact ⟨i, hi, hih.trans hle, rfl⟩

theorem Queued.tail {bi : BlockInfo} {rest queue : List BlockInfo} (hq : Queued blk h queue)
    (hqueue : queue = bi :: rest) : Queued blk h rest := by
  rw [hqueue] at hq
  exact fun bi' hbi' => hq bi' (List.mem_cons_of_mem _ hbi')

theorem Queued.push {i : Nat} {queue : List BlockInfo} (hq : Queued blk h queue) (hi : 1 ≤ i)
    (hih : i ≤ h) (b : Bool) : Queued blk h (queue ++ if b then [blk i] else []) := by
  intro bi hbi
  rcases List.mem_append.mp hbi with hbi | hbi
  · exact hq bi hbi
  · split at hbi
    · exact ⟨i, hi, hih, List.mem_singleton.mp hbi⟩
    · exact absurd hbi List.not_mem_nil

/-- **A round of a worker** records the block from its queue, or nothing new. -/
theorem Names.round {μ : Type} {L : GuardedLoop LevelDb μ BlockInfo Blob} {d d' : LevelDb}
    {m m' : μ} {bi : BlockInfo} {rest queue : List BlockInfo} (hq : Queued blk h queue)
    (hqueue : queue = bi :: rest) (hnumber : ∀ i, 1 ≤ i → i ≤ h → L.number (blk i) = i)
    (hname : L.name bi = bi.header.hash) (hrec : Names blk h (L.recorded d))
    (hround : L.round d m bi d' m') : Names blk h (L.recorded d') := by
  obtain ⟨i, hi, hih, rfl⟩ := hq bi (hqueue ▸ List.mem_cons_self)
  rcases L.guarded hround with rfl | ⟨_, _, _, _, _, happ⟩
  · exact hrec
  · exact Or.inr ⟨i, hi, hih, by rw [L.records happ, hnumber i hi hih, hname]⟩

/-! ### One step -/

theorem hasBlocks_of_sameUnder {db db' : LevelDb} {hs : List BlockHeader} (hhas : HasBlocks db hs)
    (hblocks : SameUnder (ascii BLOCK_PREFIX.toList) db db')
    (hmeta : SameUnder KEY_BLOCK_METADATA db db') : HasBlocks db' hs :=
  hhas.congr hblocks (hmeta _ (List.prefix_refl _))

theorem findMainBlock_of_sameUnder {db db' : LevelDb}
    (hsame : SameUnder (literalKey MAIN_BLOCK_NUMBER_PREFIX) db db') :
    db'.findMainBlock = db.findMainBlock := by
  unfold LevelDb.findMainBlock LevelDb.findOneValueWithoutCheckValue LevelDb.findOneValueInternal
  rw [hsame _ (List.prefix_refl _)]

theorem countBlocks_chainTo : (chainTo blk h).countBlocks = h := by
  unfold BlockChain.countBlocks chainTo
  rw [BlockChain.hashes_grow, List.length_append, List.length_map, length_headersTo]
  exact Nat.add_sub_cancel_left 1 h

/-- What synchronization does beside the blocks. -/
theorem Holds.aside (hσ : σ.Holds blk len h) {s' : SyncImpl}
    (hs' : ∀ p, SyncImpl.BesideBlocks p → SyncImpl.Aside p σ.sync s') :
    Holds blk len h { σ with sync := s' } := by
  have hblocks := hs' (ascii BLOCK_PREFIX.toList) (by decide)
  have hmain := hs' (literalKey MAIN_BLOCK_NUMBER_PREFIX) (by decide)
  refine { hσ with
    modules := ?_
    records := hasBlocks_of_sameUnder hσ.records hblocks.records (hs' _ (by decide)).records
    idle := ?_
    busy := ?_
    main := ?_ }
  · show s'.modules.block = true
    rw [hblocks.modules]
    exact hσ.modules
  · show _ → h ≤ len ∧ s'.blockchain = _
    rw [hblocks.blockchain]
    exact hσ.idle
  · show ∀ bi saved, _ → _ ∧ _ ∧ s'.blockchain = _ ∧ _
    rw [hblocks.blockchain]
    exact hσ.busy
  · show Names _ _ (recordedIn s'.leveldb.findMainBlock)
    rw [findMainBlock_of_sameUnder hmain.records]
    exact hσ.main

/-- **A block is given** to the workers. -/
theorem Holds.give (hchain : OneChain blk len) (hσ : σ.Holds blk len h) {bi : BlockInfo}
    {c : BlockChain} {t : BlocksTimeline} {saved : UInt64 × Blob} (hunsaved : σ.unsaved = none)
    {n : Nat} (hn : n = σ.sync.blockchain.countBlocks + 1) (hlen : n ≤ len)
    (hnum : bi.header.blockNumber = none) (hbi : numbered bi n = blk n)
    (hadd : σ.sync.blockchain.addBlock bi.header = (.ok (some n), c)) (a b d : Bool) :
    Holds blk len h (σ.give a b d (blk n) c t saved) := by
  obtain ⟨-, hmemory⟩ := hσ.idle hunsaved
  rw [hmemory, countBlocks_chainTo] at hn
  subst hn
  have hheader : (blk (h + 1)).header.withNumber none = bi.header := by
    rw [← hbi]
    show bi.header.withNumber none = bi.header
    rw [← hnum]
    rfl
  -- the first block hangs on the genesis block, so it makes a lineage as well
  have hfirst : (chainTo blk h).countBlocks = 0 →
      bi.header.prevHash = BlockChain.GENESIS_BLOCK_HASH := by
    intro hzero
    rw [countBlocks_chainTo] at hzero
    subst hzero
    rw [← hheader]
    exact hchain.root
  rw [hmemory] at hadd
  have hgrown := (hσ.grown.accept hnum hfirst hadd).1
  rw [← hheader, ← headersTo_succ] at hgrown
  have hmin : h + 1 ≤ min (h + 1) len := le_min (le_refl _) hlen
  -- nothing is on disk yet, so the height stays and the queues may be one block ahead of it
  refine { hσ with
    idle := fun hnone => absurd hnone (by simp [Node.give])
    busy := ?_
    mainQueue := hσ.mainQueue.push (Nat.le_add_left _ _) hmin a
    scriptQueue := hσ.scriptQueue.push (Nat.le_add_left _ _) hmin b
    nodeTestQueue := hσ.nodeTestQueue.push (Nat.le_add_left _ _) hmin d }
  rintro bi' saved' hsome
  obtain ⟨rfl, rfl⟩ := Prod.mk.inj (Option.some.inj hsome)
  have hc : c = chainTo blk (h + 1) := hgrown.chain
  exact ⟨hlen, rfl, hc, hc ▸ hgrown⟩

/-- **The header is written.** -/
theorem Holds.save (hchain : OneChain blk len) (hσ : σ.Holds blk len h) {bi : BlockInfo}
    {saved : UInt64 × Blob} {batch : Batch} (hunsaved : σ.unsaved = some (bi, saved))
    (hbatch : σ.sync.blockBatch bi.header saved.1 saved.2 = .ok batch) :
    Holds blk len (h + 1) (σ.save batch) := by
  obtain ⟨hlen, rfl, hmemory, hgrown⟩ := hσ.busy bi saved hunsaved
  have hle : min (h + 1) len ≤ min (h + 1 + 1) len := min_le_min_right _ (Nat.le_succ _)
  have hspares : SameUnder (literalKey MAIN_BLOCK_NUMBER_PREFIX) σ.sync.leveldb
      (addBatch batch σ.sync.leveldb) :=
    (SyncImpl.blockBatch_spares (by decide) (by decide) (by decide) hbatch).sameUnder _
  have hnumber := hchain.numbered (h + 1) (Nat.le_add_left _ _) hlen
  refine
    { modules := hσ.modules
      grown := hgrown
      records := ?_
      idle := fun _ => ⟨hlen, hmemory⟩
      busy := fun _ _ hsome => absurd hsome (by simp [Node.save])
      mainQueue := hσ.mainQueue.mono hle
      scriptQueue := hσ.scriptQueue.mono hle
      nodeTestQueue := hσ.nodeTestQueue.mono hle
      main := ?_
      script := hσ.script.mono hle
      nodeTest := hσ.nodeTest.mono hle }
  · -- the metadata name the new block, as it does not share its parent with the last one
    have hlineage := hgrown.lineage
    have htip : ((blk (h + 1)).header.withNumber none).prevHash = BlockChain.tip (headersTo blk h) :=
      hchain.tip hlen
    rw [headersTo_succ] at hlineage ⊢
    rw [← withNumber_none hnumber] at hbatch
    exact SyncImpl.hasBlocks_addBatch hσ.records hσ.grown.lineage hlineage htip hσ.modules hbatch
  · -- the main worker's record stands in the same database
    show Names _ _ (recordedIn (addBatch batch σ.sync.leveldb).findMainBlock)
    rw [findMainBlock_of_sameUnder hspares]
    exact hσ.main.mono hle

/-- **The node crashes** and starts again. -/
theorem Holds.crash (hσ : σ.Holds blk len h) {c : BlockChain} (t : BlocksTimeline)
    (hinit : initializeChain σ.sync.leveldb .new = .ok c) (hlen : h ≤ len) :
    Holds blk len h (σ.restart c t) := by
  rw [hσ.records.initializeChain_eq hσ.grown.lineage] at hinit
  obtain rfl := Except.ok.inj hinit
  -- the records of the workers are on disk, what was in the queues is lost
  exact { hσ with
    idle := fun _ => ⟨hlen, rfl⟩
    busy := fun _ _ hsome => absurd hsome (by simp [Node.restart])
    mainQueue := fun _ hbi => absurd hbi List.not_mem_nil
    scriptQueue := fun _ hbi => absurd hbi List.not_mem_nil
    nodeTestQueue := fun _ hbi => absurd hbi List.not_mem_nil }

theorem Holds.le_len (hσ : σ.Holds blk len h) : h ≤ len := by
  cases hunsaved : σ.unsaved with
  | none => exact (hσ.idle hunsaved).1
  | some unsaved => exact (Nat.le_succ h).trans (hσ.busy unsaved.1 unsaved.2 hunsaved).1

/-- The chain in memory is at most one block ahead. -/
theorem Holds.blockchain_cases (hσ : σ.Holds blk len h) : σ.sync.blockchain = chainTo blk h ∨
    h + 1 ≤ len ∧ σ.sync.blockchain = chainTo blk (h + 1) := by
  cases hunsaved : σ.unsaved with
  | none => exact Or.inl (hσ.idle hunsaved).2
  | some unsaved =>
      obtain ⟨hlen, _, hmemory, _⟩ := hσ.busy unsaved.1 unsaved.2 hunsaved
      exact Or.inr ⟨hlen, hmemory⟩

theorem Holds.countBlocks_le (hσ : σ.Holds blk len h) :
    σ.sync.blockchain.countBlocks ≤ min (h + 1) len := by
  rcases hσ.blockchain_cases with hmemory | ⟨hlen, hmemory⟩
  · rw [hmemory, countBlocks_chainTo]
    exact le_min (Nat.le_succ h) hσ.le_len
  · rw [hmemory, countBlocks_chainTo]
    exact le_min (le_refl _) hlen

/-- **A block is offered again.** -/
theorem Holds.again (hσ : σ.Holds blk len h) {i : Nat} (hi : 1 ≤ i)
    (hcount : i ≤ σ.sync.blockchain.countBlocks) (a b d : Bool) :
    Holds blk len h (σ.push a b d (blk i)) := by
  have hle : i ≤ min (h + 1) len := hcount.trans hσ.countBlocks_le
  exact { hσ with
    mainQueue := hσ.mainQueue.push hi hle a
    scriptQueue := hσ.scriptQueue.push hi hle b
    nodeTestQueue := hσ.nodeTestQueue.push hi hle d }

/-- **The main worker** takes a block from its queue. -/
theorem Holds.mainRound (hchain : OneChain blk len) (hσ : σ.Holds blk len h) {bi : BlockInfo}
    {rest : List BlockInfo} {db : LevelDb} {m : MainMemory} (hqueue : σ.mainQueue = bi :: rest)
    (hround : ((ws.main.on σ.sync.leveldb).worker σ.mainMemory bi).2 = (db, m)) :
    Holds blk len h
      { σ with sync := { σ.sync with leveldb := db }, mainQueue := rest, mainMemory := m } := by
  have hblocks : SameUnder (ascii BLOCK_PREFIX.toList) σ.sync.leveldb db :=
    WorkerMain.worker_sameUnder hround (by decide) (by decide) (by decide)
  have hmeta : SameUnder KEY_BLOCK_METADATA σ.sync.leveldb db :=
    WorkerMain.worker_sameUnder hround (by decide) (by decide) (by decide)
  exact { hσ with
    records := hasBlocks_of_sameUnder hσ.records hblocks hmeta
    mainQueue := hσ.mainQueue.tail hqueue
    main := Names.round (L := ws.main.loop) hσ.mainQueue hqueue
      (fun _ => hchain.blockNumber_min) rfl hσ.main hround }

/-- **The script worker** takes a block from its queue. -/
theorem Holds.scriptRound (hchain : OneChain blk len) (hσ : σ.Holds blk len h) {bi : BlockInfo}
    {rest : List BlockInfo} {server : V8Server} {txsStatusCache : StatusCache} {db db' : LevelDb}
    {m : ScriptMemory} (hqueue : σ.scriptQueue = bi :: rest)
    (hround : ((ws.script.on σ.leveldbV8 server).work
      { leveldb := σ.sync.leveldb, txsStatusCache } bi).2 = (db, m))
    (hdb : db' = db ∨ db' = σ.leveldbV8) :
    Holds blk len h
      { σ with
        sync := { σ.sync with leveldb := m.leveldb }, scriptQueue := rest, leveldbV8 := db' } := by
  have hblocks : SameUnder (ascii BLOCK_PREFIX.toList) σ.sync.leveldb m.leveldb :=
    WorkerScript.work_sameUnder hround (by decide) (by decide)
  have hmeta : SameUnder KEY_BLOCK_METADATA σ.sync.leveldb m.leveldb :=
    WorkerScript.work_sameUnder hround (by decide) (by decide)
  have hmain : SameUnder (literalKey MAIN_BLOCK_NUMBER_PREFIX) σ.sync.leveldb m.leveldb :=
    WorkerScript.work_sameUnder hround (by decide) (by decide)
  refine { hσ with
    records := hasBlocks_of_sameUnder hσ.records hblocks hmeta
    scriptQueue := hσ.scriptQueue.tail hqueue
    main := ?_
    script := ?_ }
  · show Names _ _ (recordedIn m.leveldb.findMainBlock)
    rw [findMainBlock_of_sameUnder hmain]
    exact hσ.main
  · rcases hdb with rfl | rfl
    -- the batch is written, or the node is about to crash before it is
    · exact Names.round (L := ws.script.loop) hσ.scriptQueue hqueue
        (fun _ => hchain.blockNumber_min) rfl hσ.script ⟨server, hround⟩
    · exact hσ.script

/-- **The node-test worker** takes a block from its queue. -/
theorem Holds.nodeTestRound (hchain : OneChain blk len) (hσ : σ.Holds blk len h) {bi : BlockInfo}
    {rest : List BlockInfo} {db : LevelDb} (hqueue : σ.nodeTestQueue = bi :: rest)
    (hround : ((ws.nodeTest.on σ.leveldbNodeTest).work bi).2 = db) :
    Holds blk len h { σ with nodeTestQueue := rest, leveldbNodeTest := db } := by
  have hloop : ws.nodeTest.loop.round σ.leveldbNodeTest () bi db () := hround
  exact { hσ with
    nodeTestQueue := hσ.nodeTestQueue.tail hqueue
    nodeTest := Names.round hσ.nodeTestQueue hqueue
      (fun _ => hchain.blockNumber_min) rfl hσ.nodeTest hloop }

/-- A header that was passed over stays lost. -/
theorem Step.lost_mono {σ' : Node} (hstep : Step ws blk len σ σ') (hlost : σ'.lost = false) :
    σ.lost = false := by
  cases hstep with
  | refuse => cases hlost
  | lose _ => cases hlost
  | _ => exact hlost

/-- **Every step** that loses no header keeps what holds; only a written header moves it on. -/
theorem Holds.step (hchain : OneChain blk len) {σ' : Node} (hσ : σ.Holds blk len h)
    (hstep : Step ws blk len σ σ') (hlost : σ'.lost = false) : ∃ h', σ'.Holds blk len h' := by
  cases hstep with
  | refuse => cases hlost
  | lose _ => cases hlost
  | give toMain toScript toNodeTest hunsaved hn hlen hnum hbi hadd _ =>
      exact ⟨h, hσ.give hchain hunsaved hn hlen hnum hbi hadd toMain toScript toNodeTest⟩
  | save hunsaved hbatch => exact ⟨h + 1, hσ.save hchain hunsaved hbatch⟩
  | append files => exact ⟨h, hσ.aside (fun p _ => ⟨rfl, rfl, SameUnder.refl p _⟩)⟩
  | confirm fault fromFile filepos =>
      exact ⟨h, hσ.aside (fun p hp => SyncImpl.confirmBlockF_aside hp fault fromFile filepos)⟩
  | sign fl src bi dump => exact ⟨h, hσ.aside (fun p hp => SyncImpl.processSignBlockF_aside hp)⟩
  | again toMain toScript toNodeTest i hi hcount =>
      exact ⟨h, hσ.again hi hcount toMain toScript toNodeTest⟩
  | main hqueue hround => exact ⟨h, hσ.mainRound hchain hqueue hround⟩
  | script hqueue hround hdb => exact ⟨h, hσ.scriptRound hchain hqueue hround hdb⟩
  | nodeTest hqueue hround => exact ⟨h, hσ.nodeTestRound hchain hqueue hround⟩
  | crash t hinit => exact ⟨h, hσ.crash t hinit hσ.le_len⟩

theorem Empty.holds (hσ : σ.Empty) : σ.Holds blk len 0 where
  modules := hσ.modules
  grown := BlockChain.grown_new
  records := hσ.records
  idle _ := ⟨Nat.zero_le _, hσ.blockchain⟩
  busy _ _ hsome := absurd (hσ.unsaved.symm.trans hsome) (by simp)
  mainQueue _ hbi := absurd (hσ.mainQueue ▸ hbi) List.not_mem_nil
  scriptQueue _ hbi := absurd (hσ.scriptQueue ▸ hbi) List.not_mem_nil
  nodeTestQueue _ hbi := absurd (hσ.nodeTestQueue ▸ hbi) List.not_mem_nil
  main := Or.inl hσ.main
  script := Or.inl hσ.script
  nodeTest := Or.inl hσ.nodeTest

/-- **Every run** without a lost header has written the headers of the blocks up to some height. -/
theorem Reached.holds (hchain : OneChain blk len) (hreached : Reached ws blk len σ)
    (hlost : σ.lost = false) : ∃ h, σ.Holds blk len h := by
  induction hreached with
  | start hempty => exact ⟨0, hempty.holds⟩
  | step _ hstep ih =>
      obtain ⟨h, hσ⟩ := ih (hstep.lost_mono hlost)
      exact hσ.step hchain hstep hlost

end Steps

/-! ## The rounds of `process` -/

section Rounds

variable {ws : Workers} {blk : Nat → BlockInfo} {len n : Nat} {σ : Node} {c : BlockChain}

/-- **A round with a block** gives the block to the workers, writes its header and confirms it, if
nothing fails; else its header is lost. -/
theorem steps_of_acceptBlock (toMain toScript toNodeTest : Bool) {src : SyncImpl.Source}
    {bi : BlockInfo} (hunsaved : σ.unsaved = none) (hn : n = σ.sync.blockchain.countBlocks + 1)
    (hlen : n ≤ len) (hnum : bi.header.blockNumber = none) (hbi : numbered bi n = blk n)
    (hadd : σ.sync.blockchain.addBlock bi.header = (.ok (some n), c)) :
    ∃ σ', Relation.ReflTransGen (Step ws blk len) σ σ' ∧ σ'.unsaved = none ∧
      σ'.sync = (SyncImpl.acceptBlock { σ.sync with blockchain := c } src bi n).2 ∧
      ((SyncImpl.acceptBlock { σ.sync with blockchain := c } src bi n).1 = .ok () →
        σ'.lost = σ.lost) := by
  have hne : n ≠ 0 := by omega
  have hheader : (blk n).header = bi.header.withNumber (some n) := by
    rw [← hbi]
    rfl
  unfold SyncImpl.acceptBlock
  rw [if_neg hne]
  simp only
  -- The timeline may refuse the block before the workers get it.
  rcases htimeline : σ.sync.timeline.addSimpleBlock (bi.header.withNumber (some n)) with
    ⟨e | saved, t⟩
  · exact ⟨_, .single (.refuse hunsaved hn hlen hnum hbi hadd (hheader ▸ htimeline)), hunsaved, rfl,
      fun hok => by cases hok⟩
  simp only
  have hgive : Step ws blk len σ (σ.give toMain toScript toNodeTest (blk n) c t saved) :=
    .give toMain toScript toNodeTest hunsaved hn hlen hnum hbi hadd (hheader ▸ htimeline)
  have hsame : ∀ s' : SyncImpl, s'.modules = σ.sync.modules → s'.leveldb = σ.sync.leveldb →
      s'.blockBatch (bi.header.withNumber (some n)) saved.1 saved.2 =
        σ.sync.blockBatch (bi.header.withNumber (some n)) saved.1 saved.2 :=
    fun _ hmodules hdb => SyncImpl.blockBatch_congr hmodules hdb
  rcases hbatch : σ.sync.blockBatch (bi.header.withNumber (some n)) saved.1 saved.2 with e | batch
  · simp only [hsame, hbatch, SyncImpl.commit]
    -- the workers have the block, and the loop goes on without its header
    refine ⟨_, (Relation.ReflTransGen.single hgive).tail (.lose rfl), rfl, ?_,
      fun hok => by cases hok⟩
    rw [← hbi]
    rfl
  · simp only [hsame, hbatch, SyncImpl.commit]
    have hsave : Step ws blk len (σ.give toMain toScript toNodeTest (blk n) c t saved)
        ((σ.give toMain toScript toNodeTest (blk n) c t saved).save batch) :=
      .save rfl (hheader ▸ (hsame _ rfl rfl).trans hbatch)
    refine ⟨_, ((Relation.ReflTransGen.single hgive).tail hsave).tail
      (.confirm none src.isFile (SyncImpl.endOfBlock (bi.header.withNumber (some n)).filePos
        (bi.header.withNumber (some n)).endBlockPos)), rfl, ?_, fun _ => rfl⟩
    rw [← hbi]
    rfl

/-- **A round of `process`** with the next block of the chain is made of these steps. -/
theorem steps_of_processBlock {γ : Type} (find : BlockChain → Except Err (Option γ))
    (toMain toScript toNodeTest : Bool) {src : SyncImpl.Source} {bi bi' : BlockInfo} {dump : Blob}
    {s : SyncImpl} (hunsaved : σ.unsaved = none)
    (hsave : σ.sync.saveTransactions bi dump (σ.sync.isSaveBlockToFiles && !src.isNoDefaultSource) =
      .ok (bi', s))
    (hn : n = σ.sync.blockchain.countBlocks + 1) (hlen : n ≤ len)
    (hnum : bi'.header.blockNumber = none) (hbi : numbered bi' n = blk n)
    (hadd : s.blockchain.addBlock bi'.header = (.ok (some n), c)) :
    ∃ σ', Relation.ReflTransGen (Step ws blk len) σ σ' ∧ σ'.unsaved = none ∧
      σ'.sync = (SyncImpl.processBlock find σ.sync src bi dump).2 ∧
      ((SyncImpl.processBlock find σ.sync src bi dump).1 = .ok none → σ'.lost = σ.lost) := by
  obtain ⟨files, rfl⟩ := SyncImpl.saveTransactions_frame hsave
  have happend : Step ws blk len σ { σ with sync := { σ.sync with files } } := .append files
  unfold SyncImpl.processBlock
  simp only [hsave, hadd]
  obtain ⟨σ', hsteps, hdone, hsync, hlost⟩ := @steps_of_acceptBlock ws blk len n
    { σ with sync := { σ.sync with files } } c toMain toScript toNodeTest src bi' hunsaved hn hlen
    hnum hbi hadd
  refine ⟨σ', hsteps.head happend, hdone, ?_, ?_⟩
  · rw [hsync]
    rcases SyncImpl.acceptBlock { σ.sync with files, blockchain := c } src bi' n with ⟨_ | _, _⟩ <;>
      rfl
  · rcases hres : SyncImpl.acceptBlock { σ.sync with blockchain := c, files } src bi' n with
      ⟨e | _, s₁⟩
    · exact fun hok => by cases hok
    · exact fun _ => hlost (congrArg Prod.fst hres)

end Rounds

/--
**Crash consistency up to one block.** Whenever the node crashes, and no header was lost
before, the chain that is put together again is that of the blocks whose headers are
written; the chain it had was at most one block longer, and the record of each worker
names no block, or one of that chain, or the one that comes next.
-/
theorem crash_consistent {ws : Workers} {blk : Nat → BlockInfo} {len : Nat} {σ : Node}
    (hchain : OneChain blk len) (hreached : Reached ws blk len σ) (hlost : σ.lost = false) :
    ∃ h ≤ len, initializeChain σ.sync.leveldb .new = .ok (chainTo blk h) ∧
      (σ.sync.blockchain = chainTo blk h ∨
        h + 1 ≤ len ∧ σ.sync.blockchain = chainTo blk (h + 1)) ∧
      Names blk (min (h + 1) len) (recordedIn σ.sync.leveldb.findMainBlock) ∧
      Names blk (min (h + 1) len) (recordedIn σ.leveldbV8.findScriptBlock) ∧
      Names blk (min (h + 1) len) (recordedIn σ.leveldbNodeTest.findNodeStatBlock) := by
  obtain ⟨h, hσ⟩ := hreached.holds hchain hlost
  exact ⟨h, hσ.le_len, hσ.records.initializeChain_eq hσ.grown.lineage, hσ.blockchain_cases,
    hσ.main, hσ.script, hσ.nodeTest⟩

/-! ### A node with two blocks -/

/-- Workers on empty databases. -/
def plainWorkers : Workers := ⟨plainMain, plainScript, plainNodeTest⟩

/-- An empty block, as it comes from a source. -/
def offered (i : Nat) : BlockInfo := SyncImpl.emptyBlock (UInt8.ofNat i) (UInt8.ofNat (i - 1))

/-- A chain of empty blocks. -/
def emptyChain (i : Nat) : BlockInfo := numbered (offered i) i

theorem oneChain_emptyChain : OneChain emptyChain 2 where
  numbered _ _ _ := rfl
  linked _ _ _ := rfl
  distinct i j hi hi' hj hj' h := by
    have hi : i = 1 ∨ i = 2 := by omega
    have hj : j = 1 ∨ j = 2 := by omega
    have hne : (emptyChain 1).header.hash ≠ (emptyChain 2).header.hash := by decide
    rcases hi with rfl | rfl <;> rcases hj with rfl | rfl
    · rfl
    · exact absurd h hne
    · exact absurd h.symm hne
    · rfl
  small := by decide
  root := rfl

/-- A node that has just started. -/
def begun : Node :=
  { sync := SyncImpl.fresh false, unsaved := none, lost := false
    mainQueue := [], mainMemory := WorkerMain.startMemory default
    scriptQueue := [], leveldbV8 := ∅, nodeTestQueue := [], leveldbNodeTest := ∅ }

/-- The node after it was given a block. -/
def given (σ : Node) (i : Nat) : Node :=
  let added := σ.sync.timeline.addSimpleBlock (emptyChain i).header
  σ.give true true true (emptyChain i)
    (σ.sync.blockchain.addBlock (offered i).header).2 added.2 (added.1.toOption.getD (0, ∅))

/-- The node after the header of the block was written. -/
def written (σ : Node) (i : Nat) : Node :=
  let saved := (σ.unsaved.map Prod.snd).getD (0, ∅)
  σ.save ((σ.sync.blockBatch (emptyChain i).header saved.1 saved.2).toOption.getD .new)

/-- The node after a round of the main worker. -/
def worked (σ : Node) (i : Nat) : Node :=
  let round := ((plainMain.on σ.sync.leveldb).worker σ.mainMemory (emptyChain i)).2
  { σ with
    sync := { σ.sync with leveldb := round.1 }
    mainQueue := σ.mainQueue.tail, mainMemory := round.2 }

section Plain

variable {σ : Node} {i : Nat}

theorem eq_ok_getD {α : Type} {x : Except Err α} {a : α} (h : x.toOption.isSome) :
    x = .ok (x.toOption.getD a) := by
  cases x with
  | error e => exact absurd h (by simp [Except.toOption])
  | ok b => rfl

theorem Reached.given (h : Reached plainWorkers emptyChain 2 σ) (hunsaved : σ.unsaved = none)
    (hi : i = σ.sync.blockchain.countBlocks + 1) (hlen : i ≤ 2)
    (hadd : (σ.sync.blockchain.addBlock (offered i).header).1 = .ok (some i))
    (htimeline : (σ.sync.timeline.addSimpleBlock (emptyChain i).header).1.toOption.isSome) :
    Reached plainWorkers emptyChain 2 (Node.given σ i) :=
  h.step (.give true true true hunsaved hi hlen rfl rfl (Prod.ext hadd rfl)
    (Prod.ext (eq_ok_getD htimeline) rfl))

theorem Reached.written (h : Reached plainWorkers emptyChain 2 σ) {saved : UInt64 × Blob}
    (hunsaved : σ.unsaved = some (emptyChain i, saved))
    (hbatch : (σ.sync.blockBatch (emptyChain i).header saved.1 saved.2).toOption.isSome) :
    Reached plainWorkers emptyChain 2 (Node.written σ i) := by
  have hsaved : (σ.unsaved.map Prod.snd).getD (0, ∅) = saved := by rw [hunsaved]; rfl
  unfold Node.written
  rw [hsaved]
  exact h.step (.save hunsaved (eq_ok_getD hbatch))

theorem Reached.worked (h : Reached plainWorkers emptyChain 2 σ) {rest : List BlockInfo}
    (hqueue : σ.mainQueue = emptyChain i :: rest) :
    Reached plainWorkers emptyChain 2 (Node.worked σ i) := by
  have htail : σ.mainQueue.tail = rest := by rw [hqueue]; rfl
  unfold Node.worked
  rw [htail]
  exact h.step (.main hqueue rfl)

end Plain

/-- The main worker has both blocks, and the header of the second one is not written. -/
def ahead : Node := worked (worked (given (written (given begun 1) 1) 2) 1) 2

theorem reached_ahead : Reached plainWorkers emptyChain 2 ahead := by
  have hbegun : Reached plainWorkers emptyChain 2 begun :=
    .start ⟨rfl, rfl, hasBlocks_empty, recordedIn_absent rfl, recordedIn_absent rfl,
      recordedIn_absent rfl, rfl, rfl, rfl, rfl⟩
  have hfirst : Reached plainWorkers emptyChain 2 (given begun 1) :=
    hbegun.given rfl rfl (by decide) (by decide +kernel) (by decide +kernel)
  have hwritten : Reached plainWorkers emptyChain 2 (written (given begun 1) 1) :=
    hfirst.written rfl (by decide +kernel)
  have hsecond : Reached plainWorkers emptyChain 2 (given (written (given begun 1) 1) 2) :=
    hwritten.given rfl (by decide +kernel) (by decide) (by decide +kernel) (by decide +kernel)
  exact (hsecond.worked rfl).worked rfl

/-- The record is one block ahead of the headers. -/
theorem crash_consistent_two :
    recordedIn ahead.sync.leveldb.findMainBlock = some (2, some (emptyChain 2).header.hash) ∧
      ∃ h ≤ 2, initializeChain ahead.sync.leveldb .new = .ok (chainTo emptyChain h) ∧
        (ahead.sync.blockchain = chainTo emptyChain h ∨
          h + 1 ≤ 2 ∧ ahead.sync.blockchain = chainTo emptyChain (h + 1)) ∧
        Names emptyChain (min (h + 1) 2) (recordedIn ahead.sync.leveldb.findMainBlock) ∧
        Names emptyChain (min (h + 1) 2) (recordedIn ahead.leveldbV8.findScriptBlock) ∧
        Names emptyChain (min (h + 1) 2) (recordedIn ahead.leveldbNodeTest.findNodeStatBlock) :=
  ⟨by decide +kernel, crash_consistent oneChain_emptyChain reached_ahead rfl⟩

end Node

end TorrentNode
