import TorrentNode.Sync.Restart
import TorrentNode.Workers.Frames
import TorrentNode.Workers.Prefix

/-!
# The database that synchronization shares with the workers

Synchronization, the main worker and the script worker write to one database, each
records of its own kinds. So what `initialize` rebuilds the chain from is left alone
by the workers, and the record of the main worker's last block by the others.
-/

namespace TorrentNode

/-- The records under a prefix are the same in both databases. -/
def SameUnder (p : Bytes) (db db' : LevelDb) : Prop := ∀ k, p <+: k → db'.find? k = db.find? k

theorem SameUnder.refl (p : Bytes) (db : LevelDb) : SameUnder p db db := fun _ _ => rfl

theorem SameUnder.trans {p : Bytes} {db db' db'' : LevelDb} (h : SameUnder p db db')
    (h' : SameUnder p db' db'') : SameUnder p db db'' := fun k hk => (h' k hk).trans (h k hk)

theorem Batch.Spares.sameUnder {p : Bytes} {b : Batch} (h : Batch.new.Spares p b) (db : LevelDb) :
    SameUnder p db (addBatch b db) := fun _ hk => h.find?_addBatch db hk

/-! ## The main worker -/

namespace WorkerMain

open Effect

/-- **What the main worker writes** has prefixes of its own. -/
theorem Applies.sameUnder {w : WorkerMain} {db db' : LevelDb} {bi : BlockInfo} {p : Bytes}
    (h : w.Applies db bi db') (hp : Foreign p) (htoken : Apart p (ascii TOKEN_PREFIX.toList))
    (hdelegate : Apart p (ascii DELEGATE_PREFIX.toList)) : SameUnder p db db' := by
  obtain ⟨memory, statuses, s, hexec, rfl⟩ := h
  have hspares := Keeps.of_exec (R := SparesRecords p) hexec
    (keeps_processBlock p hp htoken (fun _ => keeps_delegateStatus hdelegate))
  have hkeys : DelegateKeys (blockStart memory) := by
    intro pair stack hstack
    exact absurd hstack (by simp [blockStart])
  exact (hspares hkeys).batch.sameUnder db

/-- A round leaves records of other kinds as they are, and the record of the block behind. -/
theorem worker_sameUnder {w : WorkerMain} {memory memory' : MainMemory} {bi : BlockInfo}
    {db db' : LevelDb} {p : Bytes} (h : ((w.on db).worker memory bi).2 = (db', memory'))
    (hp : Foreign p) (htoken : Apart p (ascii TOKEN_PREFIX.toList))
    (hdelegate : Apart p (ascii DELEGATE_PREFIX.toList)) : SameUnder p db db' := by
  rcases worker_guarded h with rfl | ⟨_, _, _, _, _, happ⟩
  · exact SameUnder.refl p _
  · exact Applies.sameUnder ⟨memory, happ⟩ hp htoken hdelegate

end WorkerMain

/-! ## The script worker -/

namespace WorkerScript

open Effect

/-- The database outside the batch keeps what stands under a prefix. -/
def KeepsOutside (p : Bytes) (s s' : ScriptState) : Prop :=
  SameUnder p s.memory.leveldb s'.memory.leveldb

instance {p : Bytes} : Frame (KeepsOutside p) where
  refl _ := SameUnder.refl p _
  trans h h' := SameUnder.trans h h'

section Steps

variable {w : WorkerScript} {p : Bytes} {tx : TransactionInfo} {n : UInt64}

theorem outside_onBatch {f : Batch → Except Err Batch} : Keeps (KeepsOutside p) (onBatch f) := by
  refine keeps_tryUpdate (fun s s' h => ?_)
  obtain ⟨b, _, rfl⟩ := map_eq_ok.mp h
  exact SameUnder.refl p _

theorem outside_saveDetails {contract : Address} {details lastError : Blob} :
    Keeps (KeepsOutside p) (saveDetails contract details lastError) :=
  keeps_bind (keeps_lift _) (fun _ => outside_onBatch)

theorem outside_saveState {contract : Address} {state : V8State} :
    Keeps (KeepsOutside p) (saveState contract state) :=
  keeps_bind (keeps_lift _) (fun _ => outside_onBatch)

theorem outside_processCompile {scriptInfo : ScriptInfo} :
    Keeps (KeepsOutside p) (w.processCompile n tx scriptInfo) := by
  refine keeps_bind (keeps_lift _) (fun _ => keeps_bind (keeps_lift _) (fun _ =>
    keeps_bind (keeps_read _) (fun _ => keeps_bind (keeps_lift _) (fun _ => ?_))))
  refine keeps_ite (keeps_pure _) (keeps_ite ?_ (keeps_ite ?_ ?_))
  · exact keeps_bind (keeps_lift _) (fun _ => keeps_bind outside_saveDetails (fun _ => keeps_pure _))
  · exact keeps_bind outside_saveDetails (fun _ => keeps_pure _)
  · exact keeps_bind outside_saveState (fun _ => keeps_bind outside_saveDetails (fun _ =>
      keeps_bind (keeps_lift _) (fun _ => keeps_bind outside_onBatch (fun _ => keeps_pure _))))

theorem outside_processRun {scriptInfo : ScriptInfo} :
    Keeps (KeepsOutside p) (w.processRun n tx scriptInfo) := by
  refine keeps_bind (keeps_read _) (fun _ => keeps_bind (keeps_lift _) (fun _ =>
    keeps_ite (keeps_pure _) (keeps_bind (keeps_lift _) (fun _ => keeps_bind (keeps_lift _)
      (fun _ => keeps_ite ?_ ?_)))))
  · exact keeps_bind outside_saveDetails (fun _ => keeps_pure _)
  · exact keeps_bind outside_saveState (fun _ =>
      keeps_bind outside_saveDetails (fun _ => keeps_pure _))

theorem outside_processUnknown : Keeps (KeepsOutside p) (w.processUnknown n tx) :=
  keeps_bind (keeps_lift _) (fun _ => keeps_bind (keeps_lift _) (fun _ =>
    keeps_bind (keeps_read _) (fun _ => keeps_bind (keeps_lift _) (fun _ =>
      keeps_ite (keeps_pure _) (keeps_bind outside_saveDetails (fun _ => keeps_pure _))))))

theorem outside_processScript {scriptInfo : ScriptInfo} :
    Keeps (KeepsOutside p) (w.processScript n tx scriptInfo) := by
  unfold processScript
  cases scriptInfo.type with
  | compile => exact outside_processCompile
  | run => exact outside_processRun
  | pay => exact outside_processRun
  | unknown => exact outside_processUnknown

/-- A value under a key of another kind. -/
theorem sameUnder_saveValue {db db' : LevelDb} {key : Bytes} {serialized : Except Err Bytes}
    (hkey : ¬p <+: key) (h : db.saveValue key serialized = .ok db') : SameUnder p db db' := by
  obtain ⟨bytes, _, h⟩ := bind_eq_ok.mp h
  obtain ⟨value, _, h⟩ := bind_eq_ok.mp h
  obtain rfl := Except.ok.inj h
  intro k hk
  refine OrdMap.find?_insert_ne ?_
  rintro rfl
  exact hkey hk

theorem outside_toLeveldb (hp : Apart p (ascii ADDRESS_STATUS_PREFIX.toList)) {address : Address}
    {status : TransactionStatus} : Keeps (KeepsOutside p) (w.toLeveldb address tx status) := by
  refine keeps_bind (keeps_lift _) (fun _ => keeps_ite (keeps_pure _)
    (keeps_bind (keeps_lift _) (fun name => keeps_ite (keeps_tryUpdate ?_) (keeps_pure _))))
  intro s s' h
  obtain ⟨db, hsave, rfl⟩ := map_eq_ok.mp h
  refine sameUnder_saveValue (hp.not_prefix ?_) hsave
  unfold makeAddressStatusKey literalKey
  rw [List.append_assoc, List.append_assoc]
  exact List.prefix_append _ _

theorem outside_saveTransactionStatus (hp : Apart p (ascii TRANSACTION_STATUS_PREFIX.toList))
    {status : TransactionStatus} : Keeps (KeepsOutside p) (w.saveTransactionStatus n status) := by
  refine keeps_ite (keeps_bind (keeps_update (fun _ => SameUnder.refl p _))
    (fun _ => keeps_tryUpdate ?_)) (keeps_pure _)
  intro s s' h
  obtain ⟨db, hsave, rfl⟩ := map_eq_ok.mp h
  obtain ⟨key, hkey, hsave⟩ := bind_eq_ok.mp hsave
  exact sameUnder_saveValue (hp.not_prefix (prefix_makeKey hkey)) hsave

theorem outside_processTransaction (haddress : Apart p (ascii ADDRESS_STATUS_PREFIX.toList))
    (htx : Apart p (ascii TRANSACTION_STATUS_PREFIX.toList)) :
    Keeps (KeepsOutside p) (w.processTransaction n tx) := by
  unfold processTransaction
  cases tx.scriptInfo with
  | none => exact keeps_pure _
  | some scriptInfo =>
      refine keeps_bind outside_processScript (fun status => ?_)
      cases status with
      | none => exact keeps_pure _
      | some status =>
          exact keeps_bind (keeps_bind (outside_toLeveldb haddress) (fun _ =>
            keeps_bind (keeps_lift _) (fun _ => keeps_ite (outside_toLeveldb haddress)
              (keeps_pure _)))) (fun _ => outside_saveTransactionStatus htx)

theorem outside_processBlock (haddress : Apart p (ascii ADDRESS_STATUS_PREFIX.toList))
    (htx : Apart p (ascii TRANSACTION_STATUS_PREFIX.toList)) {bi : BlockInfo} :
    Keeps (KeepsOutside p) (w.processBlock bi n) :=
  keeps_bind (keeps_ite (keeps_each (fun _ => outside_processTransaction haddress htx) _)
    (keeps_pure _)) (fun _ => outside_onBatch)

/-- **What the script worker writes outside its batch** are statuses. -/
theorem work_sameUnder {memory memory' : ScriptMemory} {bi : BlockInfo} {db' : LevelDb}
    (h : (w.work memory bi).2 = (db', memory'))
    (haddress : Apart p (ascii ADDRESS_STATUS_PREFIX.toList))
    (htx : Apart p (ascii TRANSACTION_STATUS_PREFIX.toList)) :
    SameUnder p memory.leveldb memory'.leveldb := by
  rcases guardedRound_cases h with hsame | ⟨_, _, _, _, _, hwork⟩
  · rw [(Prod.mk.inj hsame).2]
    exact SameUnder.refl p _
  · rcases hexec : (w.processBlock bi bi.blockNumber).exec { memory, batchStates := Batch.new } with
      ⟨e | u, s⟩
    all_goals
      rw [hexec] at hwork
      obtain ⟨_, rfl⟩ := Prod.mk.inj hwork
      exact Keeps.of_exec (R := KeepsOutside p) hexec (outside_processBlock haddress htx)

end Steps

end WorkerScript

/-! ## Synchronization -/

namespace SyncImpl

variable {s s' : SyncImpl} {p : Bytes}

/-- The prefixes of what stands with a block. -/
def BesideBlocks (p : Bytes) : Prop :=
  ∀ q ∈ [SIGNS_BLOCK_NUMBER_PREFIX, BLOCKS_TIMELINE_PREFIX, FILE_PREFIX], Apart p (ascii q.toList)

instance (p : Bytes) : Decidable (BesideBlocks p) := inferInstanceAs (Decidable (∀ q ∈ _, _))

theorem saveBlockTimeline_spares {b b' : Batch} {key : UInt64} {raw : Blob}
    (hp : Apart p (ascii BLOCKS_TIMELINE_PREFIX.toList))
    (h : b.saveBlockTimeline key raw = .ok b') : b.Spares p b' := by
  obtain ⟨key', hkey, h⟩ := bind_eq_ok.mp h
  obtain rfl := Except.ok.inj h
  exact Batch.Spares.addKeyInternal (hp.not_prefix (prefix_makeKey hkey)) raw _

/-- What is written of a block hangs on the modules and the database alone. -/
theorem blockBatch_congr {bh : BlockHeader} {key : UInt64} {raw : Blob}
    (hmodules : s'.modules = s.modules) (hdb : s'.leveldb = s.leveldb) :
    s'.blockBatch bh key raw = s.blockBatch bh key raw := by
  unfold blockBatch
  rw [hmodules, hdb]

/-- **The record of a block** is written besides what the workers keep. -/
theorem blockBatch_spares {bh : BlockHeader} {key : UInt64} {raw : Blob} {b : Batch}
    (hblock : Apart p (ascii BLOCK_PREFIX.toList)) (hmeta : ¬p <+: KEY_BLOCK_METADATA)
    (htimeline : Apart p (ascii BLOCKS_TIMELINE_PREFIX.toList))
    (h : s.blockBatch bh key raw = .ok b) : Batch.new.Spares p b := by
  have hrest : ∀ b₁ : Batch, (do
      let metadata ← s.leveldb.findBlockMetadata
      let batch ← b₁.addBlockMetadata (nextMetadata metadata bh)
      batch.saveBlockTimeline key raw) = .ok b → b₁.Spares p b := by
    intro b₁ h
    obtain ⟨metadata, -, h⟩ := bind_eq_ok.mp h
    obtain ⟨b₂, h₂, h⟩ := bind_eq_ok.mp h
    exact (Batch.Spares.addKey hmeta h₂).trans (saveBlockTimeline_spares htimeline h)
  unfold blockBatch at h
  by_cases hmod : s.modules.block = true
  · rw [if_pos hmod] at h
    obtain ⟨b₁, h₁, h⟩ := bind_eq_ok.mp h
    exact (Batch.Spares.addKey_makeKey hblock h₁).trans (hrest b₁ h)
  · rw [if_neg hmod] at h
    exact hrest Batch.new h

theorem signBlockBatch_spares {bh : SignBlockHeader} {key : UInt64} {raw : Blob} {b : Batch}
    (hp : BesideBlocks p) (h : s.signBlockBatch bh key raw = .ok b) : Batch.new.Spares p b := by
  have htimeline := hp BLOCKS_TIMELINE_PREFIX (by decide)
  unfold signBlockBatch at h
  by_cases hmod : s.modules.block = true
  · rw [if_pos hmod] at h
    obtain ⟨b₁, h₁, h⟩ := bind_eq_ok.mp h
    exact (Batch.Spares.addKey_makeKey (hp SIGNS_BLOCK_NUMBER_PREFIX (by decide)) h₁).trans
      (saveBlockTimeline_spares htimeline h)
  · rw [if_neg hmod] at h
    exact saveBlockTimeline_spares htimeline h

/-- A step that leaves the chain alone, and the records under a prefix. -/
structure Aside (p : Bytes) (s s' : SyncImpl) : Prop where
  modules : s'.modules = s.modules
  blockchain : s'.blockchain = s.blockchain
  records : SameUnder p s.leveldb s'.leveldb

theorem Aside.trans {s'' : SyncImpl} (h : Aside p s s') (h' : Aside p s' s'') : Aside p s s'' :=
  ⟨h'.modules.trans h.modules, h'.blockchain.trans h.blockchain, h.records.trans h'.records⟩

theorem commit_aside {batch : Except Err Batch} (h : ∀ b, batch = .ok b → Batch.new.Spares p b) :
    Aside p s (s.commit batch).2 := by
  cases batch with
  | error e => exact ⟨rfl, rfl, SameUnder.refl p _⟩
  | ok b => exact ⟨rfl, rfl, (h b rfl).sameUnder s.leveldb⟩

theorem commitF_aside {fault : Option Err} {batch : Except Err Batch}
    (h : ∀ b, batch = .ok b → Batch.new.Spares p b) : Aside p s (commitF fault s batch).2 := by
  cases fault with
  | none => exact commit_aside h
  | some e => exact ⟨rfl, rfl, SameUnder.refl p _⟩

theorem confirmBlockF_aside (hp : BesideBlocks p) (fault : Option Err) (fromFile : Bool)
    (filepos : Except Err FilePosition) : Aside p s (confirmBlockF fault s fromFile filepos).2 := by
  have hbatch : ∀ filepos b, Batch.new.addFileMetadata filepos = .ok b → Batch.new.Spares p b := by
    intro filepos b hb
    obtain ⟨name, -, hb⟩ := bind_eq_ok.mp hb
    obtain ⟨key, hkey, hb⟩ := bind_eq_ok.mp hb
    have hfile : Apart p (ascii FILE_PREFIX.toList) := hp FILE_PREFIX (by decide)
    exact Batch.Spares.addKey (hfile.not_prefix (prefix_makeKey hkey)) hb
  cases fault with
  | some e => exact ⟨rfl, rfl, SameUnder.refl p _⟩
  | none =>
      show Aside p s (s.confirmBlock fromFile filepos).2
      unfold confirmBlock
      cases filepos with
      | error e => exact ⟨rfl, rfl, SameUnder.refl p _⟩
      | ok filepos =>
          cases fromFile with
          | false => exact ⟨rfl, rfl, SameUnder.refl p _⟩
          | true => exact commit_aside (hbatch filepos)

theorem storeSignBlockF_aside (hp : BesideBlocks p) {fl : Faults} {src : Source}
    {bi : SignBlockInfo} {saved : UInt64 × Blob} :
    Aside p s (storeSignBlockF fl s src bi saved).2 := by
  have hwrite : Aside p s (s.commitF fl.write (s.signBlockBatch bi.header saved.1 saved.2)).2 :=
    commitF_aside (fun b hb => signBlockBatch_spares hp hb)
  unfold storeSignBlockF
  rcases hr : s.commitF fl.write (s.signBlockBatch bi.header saved.1 saved.2) with ⟨e | u, t⟩
  · rw [hr] at hwrite
    exact hwrite
  · rw [hr] at hwrite
    exact hwrite.trans (confirmBlockF_aside hp fl.confirm src.isFile _)

/-- **A round with a signature block**, also one that fails, leaves the chain alone. -/
theorem processSignBlockF_aside {fl : Faults} {src : Source} {bi : SignBlockInfo} {dump : Blob}
    (hp : BesideBlocks p) : Aside p s (processSignBlockF fl s src bi dump).2 := by
  unfold processSignBlockF
  rcases fl.save with _ | ⟨e, files⟩
  · rcases hsave : s.saveTransactionsSignBlock bi dump
      (s.isSaveBlockToFiles && !src.isNoDefaultSource) with e | ⟨bi', s'⟩
    · exact ⟨rfl, rfl, SameUnder.refl p _⟩
    obtain ⟨files, rfl⟩ := saveTransactionsSignBlock_frame hsave
    simp only
    rcases s.timeline.addSignBlock bi'.header with ⟨e | saved, timeline⟩
    · exact ⟨rfl, rfl, SameUnder.refl p _⟩
    exact ⟨(storeSignBlockF_aside hp).modules, (storeSignBlockF_aside hp).blockchain,
      (storeSignBlockF_aside hp).records⟩
  · exact ⟨rfl, rfl, SameUnder.refl p _⟩

end SyncImpl

end TorrentNode
