import TorrentNode.Lib.GuardedLoop
import TorrentNode.Workers.Counter
import TorrentNode.Workers.NodeTest
import TorrentNode.Workers.Script

/-!
# The databases of the workers hold a prefix of the chain

All three workers check the same guards against the record of the block they
wrote last and put the record of the new block at the end of its batch, so all
three are loops that remember how far they came. The guards have one gap: an
empty record lets any block in.
-/

namespace TorrentNode

open GuardedLoop Effect

/-- What a lookup of the block-info record says, if it says anything. -/
def recordedIn (record : Except Err WorkerBlockInfo) : Option (Nat × Option Blob) :=
  record.toOption.map WorkerBlockInfo.recorded

theorem recordedIn_ok {record : Except Err WorkerBlockInfo} {m : WorkerBlockInfo}
    (h : record = .ok m) : recordedIn record = some m.recorded := by
  rw [h]; rfl

theorem recordedIn_absent {db : LevelDb} {key : Bytes} (h : db.find? key = none) :
    recordedIn (db.findOneValueWithoutCheckValue WorkerBlockInfo.deserialize key) =
      some (0, none) := by
  unfold LevelDb.findOneValueWithoutCheckValue LevelDb.findOneValueInternal
  rw [h]; rfl

/-- A block-info record at the end of a batch is the one that is found afterwards. -/
theorem findBlock_addBatch {name : String} {record : WorkerBlockInfo} {b b' : Batch}
    {key : Bytes} (h : b.addKey key (record.serialize name) false = .ok b') (db : LevelDb) :
    (addBatch b' db).findOneValueWithoutCheckValue WorkerBlockInfo.deserialize key =
      .ok record := by
  obtain ⟨value, hser, rfl⟩ := Batch.addKey_eq_ok h
  have hfind := find?_addBatch_addKeyInternal b db key value false key
  rw [if_pos rfl] at hfind
  rw [LevelDb.findOneValue_of_find? hfind, WorkerBlockInfo.deserialize_serialize hser]

theorem recordedIn_addBatch {name : String} {record : WorkerBlockInfo} {b b' : Batch}
    {key : Bytes} (h : b.addKey key (record.serialize name) false = .ok b') (db : LevelDb) :
    recordedIn ((addBatch b' db).findOneValueWithoutCheckValue WorkerBlockInfo.deserialize key) =
      some (record.blockNumber.toNat, some record.blockHash) := by
  rw [recordedIn_ok (findBlock_addBatch h db)]
  obtain ⟨value, hser, _⟩ := Batch.addKey_eq_ok h
  have hne := (WorkerBlockInfo.serialize_eq_ok hser).1
  unfold WorkerBlockInfo.recorded
  rw [Blob.isEmpty_eq_false.mpr hne]
  rfl

/-- What the guards let through, in the words of the record. -/
theorem guards_passed {record : Except Err WorkerBlockInfo} {m : WorkerBlockInfo} {n : UInt64}
    {header : BlockHeader} (hrec : record = .ok m) (h : guards m n header = .ok true) :
    ∃ k hash, recordedIn record = some (k, hash) ∧ k < n.toNat ∧
      (hash = none ∨ hash = some header.prevHash) := by
  obtain ⟨hlt, hprev⟩ := guards_eq_true.mp h
  exact ⟨m.recorded.1, m.recorded.2, recordedIn_ok hrec, hlt, hprev⟩

/-- What passes the guards of a round is worked on under its number. -/
theorem guardedRound_cases {α ρ : Type} {record : Except Err WorkerBlockInfo} {bi : BlockInfo}
    {unchanged result : ρ} {work : UInt64 → Outcome α × ρ}
    (h : (guardedRound record bi unchanged work).2 = result) : result = unchanged ∨
      ∃ k hash, recordedIn record = some (k, hash) ∧ k < bi.blockNumber.toNat ∧
        (hash = none ∨ hash = some bi.header.prevHash) ∧ (work bi.blockNumber).2 = result := by
  unfold guardedRound at h
  cases record with
  | error e => exact Or.inl h.symm
  | ok m =>
      cases hn : bi.header.blockNumber with
      | none => simp only [hn] at h; exact Or.inl h.symm
      | some number =>
          have hnum : UInt64.ofNat number = bi.blockNumber := by
            unfold BlockInfo.blockNumber; rw [hn]; rfl
          simp only [hn, hnum] at h
          split at h
          · exact Or.inl h.symm
          · exact Or.inl h.symm
          · rename_i hg
            obtain ⟨k, hash, hk, hlt, hprev⟩ := @guards_passed (.ok m) _ _ _ rfl hg
            exact Or.inr ⟨k, hash, hk, hlt, hprev, h⟩

/-! ## The main worker -/

namespace WorkerMain

/-- The worker on another database. -/
def on (w : WorkerMain) (leveldb : LevelDb) : WorkerMain := { w with leveldb }

/-- What a block does to the database with what is in memory: its records get their numbers from
the counter. -/
def Takes (w : WorkerMain) (db : LevelDb) (memory : MainMemory) (bi : BlockInfo) (db' : LevelDb) :
    Prop :=
  ∃ statuses s, ((w.on db).processBlock bi bi.blockNumber).exec (blockStart memory) =
    (.ok statuses, s) ∧ db' = addBatch s.batch db

/-- What a block does to the database, whatever the counter stands at. -/
def Applies (w : WorkerMain) (db : LevelDb) (bi : BlockInfo) (db' : LevelDb) : Prop :=
  ∃ memory, w.Takes db memory bi db'

/--
The numbers that the counter has left are below the one in the record; without a
record, or below a recorded 0, `size_t` starts at its largest value.
-/
def CountsBelow (db : LevelDb) (memory : MainMemory) : Prop :=
  memory.countVal < 2 ^ 64 ∧ ∀ record, db.findMainBlock = .ok record →
    memory.countVal ≤ record.countVal.toNat ∨ memory.countVal ≤ (record.countVal - 1).toNat

theorem worker_guarded {w : WorkerMain} {memory memory' : MainMemory} {bi : BlockInfo}
    {db' : LevelDb} (h : (w.worker memory bi).2 = (db', memory')) : db' = w.leveldb ∨
      ∃ k hash, recordedIn w.leveldb.findMainBlock = some (k, hash) ∧ k < bi.blockNumber.toNat ∧
        (hash = none ∨ hash = some bi.header.prevHash) ∧ w.Takes w.leveldb memory bi db' := by
  unfold worker at h
  cases hn : bi.header.blockNumber with
  | none => rw [hn] at h; exact Or.inl (Prod.mk.inj h).1.symm
  | some number =>
      have hnum : UInt64.ofNat number = bi.blockNumber := by
        unfold BlockInfo.blockNumber; rw [hn]; rfl
      simp only [hn, hnum] at h
      cases hrec : w.leveldb.findMainBlock with
      | error e =>
          simp only [hrec, Except.bind] at h
          exact Or.inl (Prod.mk.inj h).1.symm
      | ok m =>
          simp only [hrec, Except.bind] at h
          split at h
          · exact Or.inl (Prod.mk.inj h).1.symm
          · exact Or.inl (Prod.mk.inj h).1.symm
          · rename_i hg
            split at h
            · exact Or.inl (Prod.mk.inj h).1.symm
            · rename_i statuses s hexec
              obtain ⟨k, hash, hk, hlt, hprev⟩ := @guards_passed (.ok m) _ _ _ rfl hg
              exact Or.inr ⟨k, hash, hk, hlt, hprev, statuses, s, hexec, (Prod.mk.inj h).1.symm⟩

theorem saveMainBlock_ok {bi : BlockInfo} {n : UInt64} {s s' : MainState} {u : Unit}
    (h : (saveMainBlock bi n).exec s = (.ok u, s')) :
    s.batch.addMainBlock ⟨n, bi.header.hash, UInt64.ofInt s.memory.countVal⟩ = .ok s'.batch ∧
      s'.memory = s.memory := by
  unfold saveMainBlock at h
  rw [exec_read_bind] at h
  have hmap := exec_tryUpdate_ok.mp h
  obtain ⟨b, hb, rfl⟩ := map_eq_ok.mp hmap
  exact ⟨hb, rfl⟩

theorem findMainBlock_processBlock {w : WorkerMain} {bi : BlockInfo} {n : UInt64}
    {s s' : MainState} {statuses : List (Option TransactionStatus)}
    (h : (w.processBlock bi n).exec s = (.ok statuses, s')) (db : LevelDb) :
    (addBatch s'.batch db).findMainBlock =
      .ok ⟨n, bi.header.hash, UInt64.ofInt s'.memory.countVal⟩ := by
  obtain ⟨_, s₁, _, hrest⟩ := exec_bind_ok.mp h
  obtain ⟨_, s₂, hsave, hpure⟩ := exec_bind_ok.mp hrest
  obtain ⟨_, rfl⟩ := Prod.mk.inj hpure
  obtain ⟨hadd, hmemory⟩ := saveMainBlock_ok hsave
  rw [hmemory]
  exact findBlock_addBatch hadd db

theorem takes_records {w : WorkerMain} {memory : MainMemory} {db db' : LevelDb} {bi : BlockInfo}
    (h : w.Takes db memory bi db') :
    recordedIn db'.findMainBlock = some (bi.blockNumber.toNat, some bi.header.hash) := by
  obtain ⟨statuses, s, hexec, rfl⟩ := h
  obtain ⟨_, s₁, _, hrest⟩ := exec_bind_ok.mp hexec
  obtain ⟨_, s₂, hsave, hpure⟩ := exec_bind_ok.mp hrest
  obtain ⟨_, rfl⟩ := Prod.mk.inj hpure
  exact recordedIn_addBatch (saveMainBlock_ok hsave).1 db

/-- The constructor goes on below the number in the record. -/
theorem countsBelow_startMemory (db : LevelDb) :
    CountsBelow db (startMemory (db.findMainBlock.toOption.getD default)) := by
  constructor
  · have := ((db.findMainBlock.toOption.getD default).countVal - 1).toNat_lt
    show (((db.findMainBlock.toOption.getD default).countVal - 1).toNat : Int) < 2 ^ 64
    omega
  · intro record hrecord
    rw [hrecord]
    exact Or.inr (le_refl _)

/-- A block is recorded with the number that the counter has come to. -/
theorem countsBelow_worker {w : WorkerMain} {memory memory' : MainMemory} {bi : BlockInfo}
    {db' : LevelDb} (h : (w.worker memory bi).2 = (db', memory'))
    (hbelow : CountsBelow w.leveldb memory) : CountsBelow db' memory' := by
  obtain ⟨hsmall, hbelow⟩ := hbelow
  rcases worker_cases (r := (w.worker memory bi).1) (by rw [← h]) with
    ⟨statuses, s, _, hexec, rfl, hm⟩ | ⟨_, rfl, hm⟩
  · have hdown := countsDown_processBlock hexec
    refine ⟨by omega, fun record hrecord => Or.inl ?_⟩
    rw [findMainBlock_processBlock hexec] at hrecord
    obtain rfl := Except.ok.inj hrecord
    rw [hm]
    -- below zero the counter is below any record
    by_cases h0 : 0 ≤ s.memory.countVal
    · exact (toNat_ofInt h0 (by omega)).ge
    · exact (by omega : s.memory.countVal ≤ 0).trans (Int.natCast_nonneg _)
  · refine ⟨by omega, fun record hrecord => ?_⟩
    exact (hbelow record hrecord).imp hm.trans hm.trans

/-- `worker` as a loop over its database and what it keeps in memory. -/
def loop (w : WorkerMain) : GuardedLoop LevelDb MainMemory BlockInfo Blob where
  number bi := bi.blockNumber.toNat
  name bi := bi.header.hash
  pred bi := bi.header.prevHash
  recorded db := recordedIn db.findMainBlock
  round db memory bi db' memory' := ((w.on db).worker memory bi).2 = (db', memory')
  takes := w.Takes
  boot db _ := startMemory (db.findMainBlock.toOption.getD default)
  fits := CountsBelow
  guarded h := worker_guarded h
  records h := takes_records h
  fits_boot db _ := countsBelow_startMemory db
  fits_round h := countsBelow_worker h

end WorkerMain

/-! ## The script worker -/

namespace WorkerScript

/-- The worker on another database, with a server that may answer differently. -/
def on (w : WorkerScript) (leveldbV8 : LevelDb) (server : V8Server) : WorkerScript :=
  { w with leveldbV8, server }

/-- What a block does to the database; the server may answer as it likes. -/
def Takes (w : WorkerScript) (db : LevelDb) (memory : ScriptMemory) (bi : BlockInfo)
    (db' : LevelDb) : Prop :=
  ∃ server s, ((w.on db server).processBlock bi bi.blockNumber).exec
    { memory, batchStates := Batch.new } = (.ok (), s) ∧ db' = addBatch s.batchStates db

theorem work_guarded {w : WorkerScript} {memory memory' : ScriptMemory} {bi : BlockInfo}
    {db' : LevelDb} (h : (w.work memory bi).2 = (db', memory')) : db' = w.leveldbV8 ∨
      ∃ k hash, recordedIn w.leveldbV8.findScriptBlock = some (k, hash) ∧
        k < bi.blockNumber.toNat ∧ (hash = none ∨ hash = some bi.header.prevHash) ∧
        w.Takes w.leveldbV8 memory bi db' := by
  rcases guardedRound_cases h with hsame | ⟨k, hash, hk, hlt, hprev, hwork⟩
  · exact Or.inl (Prod.mk.inj hsame).1
  · split at hwork
    · exact Or.inl (Prod.mk.inj hwork).1.symm
    · rename_i s hexec
      exact Or.inr ⟨k, hash, hk, hlt, hprev, w.server, s, hexec, (Prod.mk.inj hwork).1.symm⟩

theorem takes_records {w : WorkerScript} {memory : ScriptMemory} {db db' : LevelDb}
    {bi : BlockInfo} (h : w.Takes db memory bi db') :
    recordedIn db'.findScriptBlock = some (bi.blockNumber.toNat, some bi.header.hash) := by
  obtain ⟨server, s, hexec, rfl⟩ := h
  obtain ⟨_, s₁, _, hsave⟩ := exec_bind_ok.mp hexec
  exact recordedIn_addBatch (onBatch_ok hsave).1 db

/-- `work` as a loop; the server may answer each round as it likes. Nothing in memory is read for
the records. -/
def loop (w : WorkerScript) : GuardedLoop LevelDb ScriptMemory BlockInfo Blob where
  number bi := bi.blockNumber.toNat
  name bi := bi.header.hash
  pred bi := bi.header.prevHash
  recorded db := recordedIn db.findScriptBlock
  round db memory bi db' memory' := ∃ server, ((w.on db server).work memory bi).2 = (db', memory')
  takes := w.Takes
  boot _ memory := { memory with txsStatusCache := { map := ∅, attributes := ∅ } }
  fits _ _ := True
  guarded h := h.elim (fun _ h => work_guarded h)
  records h := takes_records h
  fits_boot _ _ := trivial
  fits_round _ _ := trivial

end WorkerScript

/-! ## The node-test worker -/

namespace WorkerNodeTest

/-- The worker with this database. -/
def on (w : WorkerNodeTest) (leveldbNodeTest : LevelDb) : WorkerNodeTest :=
  { w with leveldbNodeTest }

/-- What a block does to the database. -/
def Applies (w : WorkerNodeTest) (db : LevelDb) (bi : BlockInfo) (db' : LevelDb) : Prop :=
  ∃ batchStates, (w.on db).processBlock bi bi.blockNumber = .ok batchStates ∧
    db' = addBatch batchStates db

theorem work_guarded {w : WorkerNodeTest} {bi : BlockInfo} {db' : LevelDb}
    (h : (w.work bi).2 = db') : db' = w.leveldbNodeTest ∨
      ∃ k hash, recordedIn w.leveldbNodeTest.findNodeStatBlock = some (k, hash) ∧
        k < bi.blockNumber.toNat ∧ (hash = none ∨ hash = some bi.header.prevHash) ∧
        w.Applies w.leveldbNodeTest bi db' := by
  rcases guardedRound_cases h with hsame | ⟨k, hash, hk, hlt, hprev, hwork⟩
  · exact Or.inl hsame
  · split at hwork
    · exact Or.inl hwork.symm
    · rename_i batchStates hexec
      exact Or.inr ⟨k, hash, hk, hlt, hprev, batchStates, hexec, hwork.symm⟩

theorem applies_records {w : WorkerNodeTest} {db db' : LevelDb} {bi : BlockInfo}
    (h : w.Applies db bi db') :
    recordedIn db'.findNodeStatBlock = some (bi.blockNumber.toNat, some bi.header.hash) := by
  obtain ⟨batchStates, hexec, rfl⟩ := h
  unfold processBlock at hexec
  cases hd : (w.on db).leveldbNodeTest.findNodeStatDayNumber with
  | error e => simp [hd, Bind.bind, Except.bind] at hexec
  | ok day =>
      simp only [hd, Bind.bind, Except.bind] at hexec
      split at hexec
      · simp at hexec
      · split at hexec
        · simp at hexec
        · exact recordedIn_addBatch hexec db

/-- `work` as a loop. -/
def loop (w : WorkerNodeTest) : GuardedLoop LevelDb Unit BlockInfo Blob where
  number bi := bi.blockNumber.toNat
  name bi := bi.header.hash
  pred bi := bi.header.prevHash
  recorded db := recordedIn db.findNodeStatBlock
  round db _ bi db' _ := ((w.on db).work bi).2 = db'
  takes db _ := w.Applies db
  boot _ _ := ()
  fits _ _ := True
  guarded h := work_guarded h
  records h := applies_records h
  fits_boot _ _ := trivial
  fits_round _ _ := trivial

end WorkerNodeTest

/-! ## All three -/

/-- The blocks 1, …, len of one chain, as they stand in `BlockChain`. -/
structure ChainOfBlocks (blk : Nat → BlockInfo) (len : Nat) : Prop where
  numbered : ∀ i, 1 ≤ i → i ≤ len → (blk i).header.blockNumber = some i
  linked : ∀ i, 1 ≤ i → i + 1 ≤ len → (blk (i + 1)).header.prevHash = (blk i).header.hash
  distinct : ∀ i j, 1 ≤ i → i ≤ len → 1 ≤ j → j ≤ len →
    (blk i).header.hash = (blk j).header.hash → i = j
  /-- Numbers are of type `size_t`. -/
  small : len < 2 ^ 64

namespace ChainOfBlocks

variable {blk : Nat → BlockInfo} {len : Nat}

theorem blockNumber_toNat (h : ChainOfBlocks blk len) {i : Nat} (hi : 1 ≤ i) (hlen : i ≤ len) :
    (blk i).blockNumber.toNat = i := by
  have hsmall := h.small
  unfold BlockInfo.blockNumber
  rw [h.numbered i hi hlen, Option.getD_some, UInt64.toNat_ofNat']
  exact Nat.mod_eq_of_lt (by omega)

theorem main (h : ChainOfBlocks blk len) (w : WorkerMain) : w.loop.IsChain blk len :=
  ⟨fun _ hi hlen => h.blockNumber_toNat hi hlen, h.linked, h.distinct⟩

theorem script (h : ChainOfBlocks blk len) (w : WorkerScript) : w.loop.IsChain blk len :=
  ⟨fun _ hi hlen => h.blockNumber_toNat hi hlen, h.linked, h.distinct⟩

theorem nodeTest (h : ChainOfBlocks blk len) (w : WorkerNodeTest) : w.loop.IsChain blk len :=
  ⟨fun _ hi hlen => h.blockNumber_toNat hi hlen, h.linked, h.distinct⟩

end ChainOfBlocks

/--
**The database of each worker is the fold of a prefix of the chain**, the one its
record names: whatever blocks of the chain are delivered, fail or come again, and
whenever the worker is restarted, as long as an empty record is only offered the
first block. Each block of the main worker takes its numbers below the recorded one.
-/
theorem workers_hold_prefix {blk : Nat → BlockInfo} {len : Nat} (hchain : ChainOfBlocks blk len)
    {d₀ : LevelDb} :
    (∀ (w : WorkerMain) (d : LevelDb) (m : MainMemory),
      d₀.find? (literalKey MAIN_BLOCK_NUMBER_PREFIX) = none →
      w.loop.Run blk len d₀ w.loop.FirstFirst d m → w.loop.UpTo blk len d₀ d) ∧
    (∀ (w : WorkerScript) (d : LevelDb) (m : ScriptMemory),
      d₀.find? (literalKey SCRIPT_BLOCK_NUMBER_PREFIX) = none →
      w.loop.Run blk len d₀ w.loop.FirstFirst d m → w.loop.UpTo blk len d₀ d) ∧
    (∀ (w : WorkerNodeTest) (d : LevelDb) (m : Unit),
      d₀.find? (literalKey NODE_STAT_BLOCK_NUMBER_PREFIX) = none →
      w.loop.Run blk len d₀ w.loop.FirstFirst d m → w.loop.UpTo blk len d₀ d) :=
  ⟨fun w _ _ habsent hrun => upTo_run (hchain.main w) (recordedIn_absent habsent) hrun,
    fun w _ _ habsent hrun => upTo_run (hchain.script w) (recordedIn_absent habsent) hrun,
    fun w _ _ habsent hrun => upTo_run (hchain.nodeTest w) (recordedIn_absent habsent) hrun⟩

/-- The chain of simple blocks with hashes made of their heights, with these transactions in the
first block. -/
def plainChain (txs : List TransactionInfo) (i : Nat) : BlockInfo :=
  { header :=
      { (default : BlockHeader) with
        blockType := BLOCK_TYPE_COMMON, blockNumber := some i
        hash := Blob.replicate 32 (UInt8.ofNat i) Blob.hash_fits
        prevHash := Blob.replicate 32 (UInt8.ofNat (i - 1)) Blob.hash_fits }
    txs := if i = 1 then txs else [] }

/-- A delegation in a transaction format that carries no status. -/
def plainDelegation : TransactionInfo :=
  { (default : TransactionInfo) with
    hash := Blob.replicate 32 9 Blob.hash_fits, sizeRawTx := 100
    fromAddress := Address.ofBlob (Blob.replicate 25 1 Blob.address_fits)
    toAddress := Address.ofBlob (Blob.replicate 25 2 Blob.address_fits)
    delegate := some { value := 5, isDelegate := true } }

/-- Everything is written. -/
def allModules : Modules := ⟨true, true, true, true, true, true, true⟩

/-- A worker on an empty database, whose parser knows nothing. -/
def plainMain : WorkerMain :=
  { leveldb := ∅, modules := allModules, validateState := false, maxCountElementsTxsCache := 100
    parseJson := fun _ => none, fromHex := fun _ => .error .stop }

/-- A worker on an empty database, whose server answers nothing. -/
def plainScript : WorkerScript :=
  { leveldbV8 := ∅, modules := allModules
    server :=
      { requestCurl := fun _ => .error .stop, fromHex := fun _ => .error .stop
        jsonToString := fun _ => ∅ } }

/-- A worker on an empty database, whose parser knows nothing. -/
def plainNodeTest : WorkerNodeTest :=
  { leveldbNodeTest := ∅, parseJson := fun _ => none, getObject := fun _ _ => .error .stop
    getString := fun _ _ => .error .stop, getOptString := fun _ _ => .ok none }

theorem plainChain_two (txs : List TransactionInfo) : ChainOfBlocks (plainChain txs) 2 where
  numbered _ _ _ := rfl
  linked _ _ _ := rfl
  distinct i j hi hi' hj hj' h := by
    have hi : i = 1 ∨ i = 2 := by omega
    have hj : j = 1 ∨ j = 2 := by omega
    have hne : (plainChain [] 1).header.hash ≠ (plainChain [] 2).header.hash := by decide
    rcases hi with rfl | rfl <;> rcases hj with rfl | rfl
    · rfl
    · exact absurd h hne
    · exact absurd h.symm hne
    · rfl
  small := by decide

/-- The main worker after these blocks. -/
def plainMainRun (blocks : List BlockInfo) : LevelDb × MainMemory :=
  blocks.foldl (fun s bi => ((plainMain.on s.1).worker s.2 bi).2)
    (∅, WorkerMain.startMemory default)

/-- It remembers nothing. -/
def plainMemory : ScriptMemory :=
  { leveldb := ∅, txsStatusCache := { map := ∅, attributes := ∅ } }

/-- The main worker restarted after the first block, then given this block. -/
def plainRestarted (bi : BlockInfo) : LevelDb × MainMemory :=
  let first := plainMainRun [plainChain [] 1]
  ((plainMain.on first.1).worker (plainMain.loop.boot first.1 first.2) bi).2

/-- Both blocks delivered to the main worker with a restart between them, and the first one to the
others. -/
theorem workers_hold_prefix_two :
    plainMain.loop.UpTo (plainChain []) 2 ∅ (plainRestarted (plainChain [] 2)).1 ∧
    plainScript.loop.UpTo (plainChain []) 2 ∅ (plainScript.work plainMemory (plainChain [] 1)).2.1 ∧
    plainNodeTest.loop.UpTo (plainChain []) 2 ∅ (plainNodeTest.work (plainChain [] 1)).2 := by
  have h := @ workers_hold_prefix _ _ (plainChain_two []) ∅
  have hfirst : (plainChain [] 1).blockNumber.toNat ≤ 1 := by decide
  refine ⟨h.1 plainMain _ (plainRestarted (plainChain [] 2)).2 rfl ?_,
    h.2.1 plainScript _ (plainScript.work plainMemory (plainChain [] 1)).2.2 rfl ?_,
    h.2.2 plainNodeTest _ () rfl ?_⟩
  · have hone : plainMain.loop.recorded (plainMainRun [plainChain [] 1]).1 ≠ some (0, none) := by
      decide +kernel
    have hrun : plainMain.loop.Run (plainChain []) 2 ∅ plainMain.loop.FirstFirst
        (plainMainRun [plainChain [] 1]).1 (plainMainRun [plainChain [] 1]).2 :=
      Run.deliver (Run.start (WorkerMain.startMemory default)) (i := 1) (by decide) (by decide)
        (fun _ => hfirst) rfl
    exact Run.deliver (Run.restart hrun) (i := 2) (by decide) (by decide)
      (fun hr => absurd hr hone) rfl
  · exact Run.deliver (Run.start plainMemory) (i := 1) (by decide) (by decide) (fun _ => hfirst)
      ⟨plainScript.server, rfl⟩
  · exact Run.deliver (Run.start ()) (i := 1) (by decide) (by decide) (fun _ => hfirst) rfl

/-- A delegation without a status stops its block, whatever the worker remembers. -/
theorem plainDelegation_fails (memory : MainMemory) :
    ((plainMain.processBlock (plainChain [plainDelegation] 1) 1).exec
      (WorkerMain.blockStart memory)).1 = .error (.exception "delegate status not seted") := rfl

/--
The first block fails and the second one is let in: the record names block 2, but
the database does not hold the blocks 1 and 2.
-/
theorem failed_first_block_overtaken :
    ChainOfBlocks (plainChain [plainDelegation]) 2 ∧
    plainMain.loop.Run (plainChain [plainDelegation]) 2 ∅ (fun _ _ => True)
      (plainMainRun [plainChain [plainDelegation] 1, plainChain [] 2]).1
      (plainMainRun [plainChain [plainDelegation] 1, plainChain [] 2]).2 ∧
    ¬plainMain.loop.UpTo (plainChain [plainDelegation]) 2 ∅
      (plainMainRun [plainChain [plainDelegation] 1, plainChain [] 2]).1 := by
  refine ⟨plainChain_two _, ?_, ?_⟩
  · refine Run.deliver (Run.deliver (Run.start (WorkerMain.startMemory default)) (i := 1) ?_ ?_ trivial rfl)
      (i := 2) ?_ ?_ trivial rfl
    all_goals decide
  · rintro ⟨n, _, hfilled, hrec⟩
    have htwo : plainMain.loop.recorded
        (plainMainRun [plainChain [plainDelegation] 1, plainChain [] 2]).1 =
          some (2, some (plainChain [] 2).header.hash) := by decide +kernel
    rw [htwo] at hrec
    have hn : 2 = n := (Prod.mk.inj (Option.some.inj hrec)).1
    -- what the second block did cannot be told from the record, but the first one never applies
    obtain ⟨d₁, memory, statuses, s, hexec, _⟩ := Folded.first hfilled.folded (by omega)
    have hfail := plainDelegation_fails memory
    rw [show (plainMain.processBlock (plainChain [plainDelegation] 1) 1).exec
      (WorkerMain.blockStart memory) = (.ok statuses, s) from hexec] at hfail
    exact absurd hfail (by simp)

end TorrentNode
