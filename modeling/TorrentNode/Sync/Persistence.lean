import TorrentNode.Sync.Rejected
import TorrentNode.Sync.TimelineRecords

/-!
# The saved timeline and the one in memory

A round puts its element on the timeline before it serialises the element, hands
the block to the workers and writes the record. Nothing takes the element off
again when one of these throws, and the next key is the size of the timeline, so
a round that fails in between leaves a gap in the keys.
-/

namespace TorrentNode

/-! ## Rounds in which a call may fail -/

/-- The calls of a round that may throw for a reason of their own. -/
structure Faults where
  /-- `saveBlockToFileBinary` throws, and leaves the block files so. -/
  save : Option (Err × OrdMap Blob Bytes)
  /-- One of the workers' queues throws. -/
  workers : Option Err
  /-- The database can not be read or written, and a batch is written whole or not at all. -/
  write : Option Err
  /-- `confirmBlock` throws before it writes. -/
  confirm : Option Err

/-- Every call does its work. -/
def Faults.none : Faults := { save := .none, workers := .none, write := .none, confirm := .none }

namespace BlocksTimeline

theorem add_known {t : BlocksTimeline} {e : Element} (h : t.hashes.find? e.hash ≠ none) :
    ∃ err, t.add e = (.error err, t) := by
  unfold add
  cases hf : t.hashes.find? e.hash with
  | none => exact absurd hf h
  | some n => exact ⟨_, rfl⟩

/-- The key of a new element is the number of elements before it. -/
theorem add_new {t : BlocksTimeline} {e : Element} {raw : Blob}
    (h : t.hashes.find? e.hash = none) (hser : e.serialize = .ok raw.val) :
    t.add e = (.ok (UInt64.ofNat ((t.push e).size - 1), raw), t.push e) := by
  unfold add
  rw [h, hser]
  refine Prod.ext (bind_eq_ok.mpr ⟨_, rfl, bind_eq_ok.mpr ⟨raw, Blob.ofBytes_val raw, rfl⟩⟩) rfl

end BlocksTimeline

namespace SyncImpl

variable {γ : Type}

/-- Make a batch and write it. -/
def commitF (fault : Option Err) (s : SyncImpl) (batch : Except Err Batch) :
    Except Err Unit × SyncImpl :=
  match fault with
  | some e => (.error e, s)
  | none => s.commit batch

/-- `confirmBlock` with a fault. -/
def confirmBlockF (fault : Option Err) (s : SyncImpl) (fromFile : Bool)
    (filepos : Except Err FilePosition) : Except Err Unit × SyncImpl :=
  match fault with
  | some e => (.error e, s)
  | none => s.confirmBlock fromFile filepos

/-- What follows the insertion of a block into the timeline. -/
def storeBlockF (fl : Faults) (s : SyncImpl) (src : Source) (bi : BlockInfo)
    (saved : UInt64 × Blob) : Except Err Unit × SyncImpl :=
  match fl.workers with
  | some e => (.error e, s)
  | none =>
    let s := { s with delivered := s.delivered ++ [bi] }
    match s.commitF fl.write (s.blockBatch bi.header saved.1 saved.2) with
    | (.error e, s) => (.error e, s)
    | (.ok (), s) =>
      s.confirmBlockF fl.confirm src.isFile (endOfBlock bi.header.filePos bi.header.endBlockPos)

/-- What is done with an accepted block, with faults. -/
def acceptBlockF (fl : Faults) (s : SyncImpl) (src : Source) (bi : BlockInfo)
    (currentBlockNum : Nat) : Except Err Unit × SyncImpl :=
  if currentBlockNum = 0 then (.error (.exception "Incorrect block number"), s)
  else
    let bi : BlockInfo :=
      { header := bi.header.withNumber (some currentBlockNum)
        txs := bi.txs.map (fun tx => { tx with blockNumber := UInt64.ofNat currentBlockNum }) }
    match s.timeline.addSimpleBlock bi.header with
    | (.error e, timeline) => (.error e, { s with timeline })
    | (.ok saved, timeline) => storeBlockF fl { s with timeline } src bi saved

/-- `processBlock`, when calls may fail. -/
def processBlockF (fl : Faults) (findCommonAncestor : BlockChain → Except Err (Option γ))
    (s : SyncImpl) (src : Source) (bi : BlockInfo) (dump : Blob) :
    Except Err (Option γ) × SyncImpl :=
  match fl.save with
  | some (e, files) => (.error e, { s with files })
  | none =>
    match s.saveTransactions bi dump (s.isSaveBlockToFiles && !src.isNoDefaultSource) with
    | .error e => (.error e, s)
    | .ok (bi, s) =>
      match s.blockchain.addBlock bi.header with
      | (.error e, blockchain) => (.error e, { s with blockchain })
      | (.ok none, blockchain) =>
        let s := { s with blockchain }
        match findCommonAncestor blockchain with
        | .error e => (.error e, s)
        | .ok none => (.error (.exception "False alarm"), s)
        | .ok (some conflict) => (.ok (some conflict), s)
      | (.ok (some currentBlockNum), blockchain) =>
        match acceptBlockF fl { s with blockchain } src bi currentBlockNum with
        | (.error e, s) => (.error e, s)
        | (.ok (), s) => (.ok none, s)

/-- `saveTransactionsSignBlock(bi, binaryDump, saveBlockToFile)` -/
def saveTransactionsSignBlock (s : SyncImpl) (bi : SignBlockInfo) (dump : Blob)
    (saveBlockToFile : Bool) : Except Err (SignBlockInfo × SyncImpl) :=
  if !saveBlockToFile then .ok (bi, s)
  else
    let fileName := bi.header.filePos.fileNameRelative
    if fileName.isEmpty then .error (.exception "File name not set")
    else
      let (currPos, files) := saveBlockToFileBinary s.files fileName dump
      .ok ({ bi with
             header := { bi.header with filePos := { bi.header.filePos with pos := currPos } } },
        { s with files })

/-- What follows the insertion of a signature block into the timeline. -/
def storeSignBlockF (fl : Faults) (s : SyncImpl) (src : Source) (bi : SignBlockInfo)
    (saved : UInt64 × Blob) : Except Err Unit × SyncImpl :=
  match s.commitF fl.write (s.signBlockBatch bi.header saved.1 saved.2) with
  | (.error e, s) => (.error e, s)
  | (.ok (), s) =>
    s.confirmBlockF fl.confirm src.isFile (endOfBlock bi.header.filePos bi.header.endBlockPos)

/-- `processSignBlock`, when calls may fail. -/
def processSignBlockF (fl : Faults) (s : SyncImpl) (src : Source) (bi : SignBlockInfo)
    (dump : Blob) : Except Err Unit × SyncImpl :=
  match fl.save with
  | some (e, files) => (.error e, { s with files })
  | none =>
    match s.saveTransactionsSignBlock bi dump (s.isSaveBlockToFiles && !src.isNoDefaultSource) with
    | .error e => (.error e, s)
    | .ok (bi, s) =>
      match s.timeline.addSignBlock bi.header with
      | (.error e, timeline) => (.error e, { s with timeline })
      | (.ok saved, timeline) => storeSignBlockF fl { s with timeline } src bi saved

/-- Without faults these are the rounds of `process`. -/
theorem processBlockF_none (find : BlockChain → Except Err (Option γ)) (s : SyncImpl)
    (src : Source) (bi : BlockInfo) (dump : Blob) :
    processBlockF .none find s src bi dump = processBlock find s src bi dump := by
  have haccept : acceptBlockF .none = acceptBlock := by
    funext s src bi n
    unfold acceptBlockF acceptBlock
    split
    · rfl
    · simp only
      generalize BlocksTimeline.addSimpleBlock _ _ = added
      obtain ⟨r, t⟩ := added
      cases r <;> rfl
  unfold processBlock
  rw [← haccept]
  rfl

theorem processSignBlockF_none (s : SyncImpl) (src : Source) (bi : SignBlockInfo) (dump : Blob) :
    processSignBlockF .none s src bi dump = processSignBlock s src bi dump := by
  unfold processSignBlockF processSignBlock
  rcases hsave : s.saveTransactionsSignBlock bi dump
    (s.isSaveBlockToFiles && !src.isNoDefaultSource) with e | ⟨bi', s'⟩
  · simp only [Faults.none]
    unfold saveTransactionsSignBlock at hsave
    simp only [hsave]
  · simp only [Faults.none]
    unfold saveTransactionsSignBlock at hsave
    simp only [hsave]
    generalize s'.timeline.addSignBlock bi'.header = added
    obtain ⟨r, t⟩ := added
    cases r <;> rfl

/-! ## Runs -/

/-- What a round has to deal with. -/
inductive Round where
  | block (bi : BlockInfo) (dump : Blob)
  | sign (bi : SignBlockInfo) (dump : Blob)

/-- The state at the next head of the loop. -/
def roundF (fl : Faults) (find : BlockChain → Except Err (Option γ)) (src : Source) (s : SyncImpl) :
    Round → SyncImpl
  | .block bi dump => (processBlockF fl find s src bi dump).2
  | .sign bi dump => (processSignBlockF fl s src bi dump).2

/--
The states at the heads of the loop, from a new database on. Other parts of the
program write records of their own, and a node that starts again has what the
database gives it and files it can not choose.
-/
inductive Run (ok : Faults → Source → SyncImpl → Round → Prop) : SyncImpl → Prop
  | start (s : SyncImpl) : s.timeline = BlocksTimeline.new → s.leveldb = ∅ → Run ok s
  | round {γ : Type} (fl : Faults) (find : BlockChain → Except Err (Option γ)) (src : Source)
      {s : SyncImpl} (r : Round) : Run ok s → ok fl src s r → Run ok (roundF fl find src s r)
  | others {s : SyncImpl} (leveldb : LevelDb) : Run ok s →
      (∀ k, ascii BLOCKS_TIMELINE_PREFIX.toList <+: k → leveldb.find? k = s.leveldb.find? k) →
      Run ok { s with leveldb }
  | restart {s : SyncImpl} (blockchain : BlockChain) (files : OrdMap Blob Bytes)
      (delivered : List BlockInfo) {found : List (UInt64 × Blob)} {timeline : BlocksTimeline} :
      Run ok s → s.leveldb.findAllBlocksTimeline = .ok found →
      BlocksTimeline.deserialize .new found = .ok timeline →
      Run ok { s with blockchain, files, delivered, timeline }

/-- The records have the keys from zero on, and reading them builds the timeline in memory. -/
def Persisted (s : SyncImpl) : Prop :=
  ∃ raws : List Blob, s.leveldb.HasTimeline raws ∧
    s.leveldb.findAllBlocksTimeline = .ok (raws.mapIdx (fun i raw => (UInt64.ofNat i, raw))) ∧
    BlocksTimeline.deserialize .new (raws.mapIdx (fun i raw => (UInt64.ofNat i, raw))) =
      .ok s.timeline

/-- The database mirrors a timeline whose elements have different hashes. -/
def Mirrored (t : BlocksTimeline) (db : LevelDb) : Prop :=
  ∃ els raws, t = BlocksTimeline.built els ∧ (els.map BlocksTimeline.Element.hash).Nodup ∧
    BlocksTimeline.SerializesTo els raws ∧ els.length ≤ 2 ^ 64 ∧ db.HasTimeline raws

theorem mirrored_new : Mirrored .new ∅ :=
  ⟨[], [], rfl, List.nodup_nil, List.Forall₂.nil, by decide, LevelDb.hasTimeline_empty⟩

theorem Mirrored.congr {t : BlocksTimeline} {db db' : LevelDb} (h : Mirrored t db)
    (hsame : ∀ k, ascii BLOCKS_TIMELINE_PREFIX.toList <+: k → db'.find? k = db.find? k) :
    Mirrored t db' := by
  obtain ⟨els, raws, ht, hnodup, hser, hlen, hdb⟩ := h
  exact ⟨els, raws, ht, hnodup, hser, hlen, hdb.congr hsame⟩

/-- **A mirrored timeline is built anew from the records.** -/
theorem Mirrored.rebuilds {t : BlocksTimeline} {db : LevelDb} (h : Mirrored t db) :
    ∃ raws, db.HasTimeline raws ∧
      db.findAllBlocksTimeline = .ok (raws.mapIdx (fun i raw => (UInt64.ofNat i, raw))) ∧
      BlocksTimeline.deserialize .new (raws.mapIdx (fun i raw => (UInt64.ofNat i, raw))) =
        .ok t := by
  obtain ⟨els, raws, rfl, hnodup, hser, hlen, hdb⟩ := h
  refine ⟨raws, hdb, LevelDb.findAllBlocksTimeline_eq hdb (hser.length_eq ▸ hlen), ?_⟩
  have hbuilt := BlocksTimeline.deserialize_built [] hser hnodup hlen
  simp only [List.length_nil, Nat.zero_add] at hbuilt
  exact hbuilt

/-- **One more element**, with its record written behind the others. -/
theorem Mirrored.push {t : BlocksTimeline} {db db' : LevelDb} {e : BlocksTimeline.Element}
    {key : UInt64} {raw : Blob} (h : Mirrored t db) (hnew : t.hashes.find? e.hash = none)
    (hser : e.serialize = .ok raw.val) (hkey : key = UInt64.ofNat ((t.push e).size - 1))
    (hroom : t.timeline.length < 2 ^ 64)
    (hdb : ∀ k, ascii BLOCKS_TIMELINE_PREFIX.toList <+: k →
      db'.find? k = OrdMap.find? (OrdMap.insert db (timelineKey key.toNat) raw) k) :
    Mirrored (t.push e) db' := by
  obtain ⟨els, raws, rfl, hnodup, hsers, hlen, hrecs⟩ := h
  rw [BlocksTimeline.timeline_built] at hroom
  rw [BlocksTimeline.find?_hashes_built] at hnew
  have hnodup' : ((els ++ [e]).map BlocksTimeline.Element.hash).Nodup := by
    rw [List.map_append, List.nodup_append]
    refine ⟨hnodup, by simp, ?_⟩
    intro a ha b hb hab
    obtain ⟨x, hx, rfl⟩ := List.mem_map.mp ha
    rw [List.map_singleton, List.mem_singleton] at hb
    exact hnew x hx (hab.trans hb)
  have hsize : (BlocksTimeline.built (els ++ [e])).size = els.length + 1 := by
    rw [BlocksTimeline.size_built hnodup', List.length_append, List.length_singleton]
  have hnum : key.toNat = raws.length := by
    rw [hkey, ← BlocksTimeline.built_concat, hsize, Nat.add_sub_cancel, toNat_ofNat_of_lt hroom,
      hsers.length_eq]
  rw [← BlocksTimeline.built_concat]
  refine ⟨els ++ [e], raws ++ [raw], rfl, hnodup', ?_, ?_, ?_⟩
  · exact List.rel_append hsers (List.Forall₂.cons hser List.Forall₂.nil)
  · rw [List.length_append, List.length_singleton]
    omega
  · rw [hnum] at hdb
    exact (hrecs.insert (hsers.length_eq ▸ hroom) raw).congr hdb

/-! ## What a batch writes -/

/-- A key that begins with another character is none of the timeline's. -/
theorem not_timeline {p k : Bytes} (hp : p <+: k) (hne : p.head? ≠ none) (h : p.head? ≠ some 116) :
    ¬ ascii BLOCKS_TIMELINE_PREFIX.toList <+: k := by
  rintro ⟨_, rfl⟩
  obtain ⟨w, hw⟩ := hp
  cases p with
  | nil => exact hne rfl
  | cons c p =>
      rw [List.cons_append] at hw
      exact h (congrArg some (List.cons.inj hw).1)

/-- An operation on a key of another record. -/
def Foreign (batch : Batch) : Prop :=
  ∀ op ∈ batch.batch, ¬ ascii BLOCKS_TIMELINE_PREFIX.toList <+: op.key

theorem foreign_new : Foreign .new := by
  intro op hop
  exact absurd hop List.not_mem_nil

theorem Foreign.find? {batch : Batch} (h : Foreign batch) (db : LevelDb) {k : Bytes}
    (hk : ascii BLOCKS_TIMELINE_PREFIX.toList <+: k) : (addBatch batch db).find? k = db.find? k := by
  refine WriteOp.find?_apply_of_not_mem ?_
  rintro op hop rfl
  exact h op hop hk

theorem Foreign.addKey {batch batch' : Batch} {p key : Bytes} {serialized : Except Err Bytes}
    {isSave : Bool} (h : Foreign batch) (hp : p <+: key) (hne : p.head? ≠ none)
    (h116 : p.head? ≠ some 116) (hadd : batch.addKey key serialized isSave = .ok batch') :
    Foreign batch' := by
  obtain ⟨value, -, rfl⟩ := Batch.addKey_eq_ok hadd
  intro op hop
  rcases List.mem_append.mp hop with hop | hop
  · exact h op hop
  · rw [List.mem_singleton.mp hop]
    exact not_timeline hp hne h116

/-- A key of a literal and a string. -/
theorem prefix_of_makeKey {p : String} {s : Blob} {key : Bytes}
    (h : makeKey [.lit p, .str s] = .ok key) : ascii p.toList <+: key := by
  unfold makeKey at h
  obtain ⟨b, hb, h⟩ := bind_eq_ok.mp h
  obtain ⟨-, hb⟩ := check_bind_eq_ok.mp hb
  obtain ⟨b', hb', h⟩ := bind_eq_ok.mp h
  obtain ⟨-, hb'⟩ := check_bind_eq_ok.mp hb'
  cases hb
  cases hb'
  cases h
  exact List.prefix_append _ _

/-- The record of an element goes behind the other records of a batch. -/
theorem saveBlockTimeline_writes {batch batch' : Batch} {key : UInt64} {raw : Blob}
    (h : Foreign batch) (hsave : batch.saveBlockTimeline key raw = .ok batch') (db : LevelDb)
    {k : Bytes} (hk : ascii BLOCKS_TIMELINE_PREFIX.toList <+: k) :
    (addBatch batch' db).find? k = OrdMap.find? (OrdMap.insert db (timelineKey key.toNat) raw) k := by
  obtain ⟨key', hkey, hsave⟩ := bind_eq_ok.mp hsave
  have hkey' : key' = timelineKey key.toNat := by
    rw [timelineKey, UInt64.ofNat_toNat]
    exact (Except.ok.inj hkey).symm
  cases hsave
  rw [find?_addBatch_addKeyInternal, OrdMap.find?_insert, h.find? db hk, hkey']
  by_cases hkk : k = timelineKey key.toNat
  · rw [if_pos hkk, if_pos hkk]
  · rw [if_neg hkk, if_neg hkk]

/-- A batch that begins with the header's record, or with none. -/
theorem headed {c : Prop} [Decidable c] {header : Except Err Batch}
    {rest : Batch → Except Err Batch} {batch : Batch}
    (h : (if c then header >>= rest else pure Batch.new >>= rest) = .ok batch)
    (hheader : ∀ b, header = .ok b → Foreign b) : ∃ b, Foreign b ∧ rest b = .ok batch := by
  by_cases hc : c
  · rw [if_pos hc] at h
    obtain ⟨b, hb, h⟩ := bind_eq_ok.mp h
    exact ⟨b, hheader b hb, h⟩
  · rw [if_neg hc] at h
    exact ⟨.new, foreign_new, h⟩

theorem blockBatch_writes {s : SyncImpl} {bh : BlockHeader} {key : UInt64} {raw : Blob}
    {batch : Batch} (h : s.blockBatch bh key raw = .ok batch) {k : Bytes}
    (hk : ascii BLOCKS_TIMELINE_PREFIX.toList <+: k) :
    (addBatch batch s.leveldb).find? k =
      OrdMap.find? (OrdMap.insert s.leveldb (timelineKey key.toNat) raw) k := by
  unfold blockBatch at h
  obtain ⟨b₁, hb₁, h⟩ := headed h (fun b hb => by
    obtain ⟨key', hkey, hb⟩ := bind_eq_ok.mp hb
    exact foreign_new.addKey (prefix_of_makeKey hkey) (by decide) (by decide) hb)
  obtain ⟨metadata, -, h⟩ := bind_eq_ok.mp h
  obtain ⟨b₂, h₂, h⟩ := bind_eq_ok.mp h
  have hb₂ : Foreign b₂ :=
    hb₁.addKey (List.prefix_refl KEY_BLOCK_METADATA) (by decide) (by decide) h₂
  exact saveBlockTimeline_writes hb₂ h s.leveldb hk

theorem signBlockBatch_writes {s : SyncImpl} {bh : SignBlockHeader} {key : UInt64} {raw : Blob}
    {batch : Batch} (h : s.signBlockBatch bh key raw = .ok batch) {k : Bytes}
    (hk : ascii BLOCKS_TIMELINE_PREFIX.toList <+: k) :
    (addBatch batch s.leveldb).find? k =
      OrdMap.find? (OrdMap.insert s.leveldb (timelineKey key.toNat) raw) k := by
  unfold signBlockBatch at h
  obtain ⟨b₁, hb₁, h⟩ := headed h (fun b hb => by
    obtain ⟨key', hkey, hb⟩ := bind_eq_ok.mp hb
    exact foreign_new.addKey (prefix_of_makeKey hkey) (by decide) (by decide) hb)
  exact saveBlockTimeline_writes hb₁ h s.leveldb hk

/-- The database mirrors the timeline in memory. -/
def InStep (s : SyncImpl) : Prop := Mirrored s.timeline s.leveldb

/-- `confirmBlock` leaves the timeline and its records alone. -/
theorem confirmBlockF_mirrored (fault : Option Err) {s : SyncImpl} (fromFile : Bool)
    (filepos : Except Err FilePosition) (h : InStep s) :
    InStep (s.confirmBlockF fault fromFile filepos).2 := by
  unfold confirmBlockF confirmBlock
  cases fault with
  | some e => exact h
  | none =>
      cases filepos with
      | error e => exact h
      | ok filepos =>
          cases fromFile with
          | false => exact h
          | true =>
              simp only [if_true]
              cases hb : Batch.new.addFileMetadata filepos with
              | error e => exact h
              | ok batch =>
                  refine h.congr (fun k hk => Foreign.find? ?_ s.leveldb hk)
                  obtain ⟨name, -, hb⟩ := bind_eq_ok.mp hb
                  obtain ⟨key, hkey, hb⟩ := bind_eq_ok.mp hb
                  exact foreign_new.addKey (prefix_of_makeKey hkey) (by decide) (by decide) hb

/-! ## Runs that lose nothing -/

/-- Nothing throws between the insertion of an element and the write of its record. -/
structure Saves (fl : Faults) (s : SyncImpl) (e : BlocksTimeline.Element)
    (batch : UInt64 → Blob → Except Err Batch) : Prop where
  room : s.timeline.timeline.length < 2 ^ 64
  element : ∃ raw : Blob, e.serialize = .ok raw.val
  records : ∀ key raw, ∃ b, batch key raw = .ok b
  write : fl.write = none

/-- If the round comes to an insertion, it also saves the element. -/
def Safe (fl : Faults) (src : Source) (s : SyncImpl) : Round → Prop
  | .block bi dump => ∀ bi' s' num, fl.save = none →
      s.saveTransactions bi dump (s.isSaveBlockToFiles && !src.isNoDefaultSource) = .ok (bi', s') →
      (s'.blockchain.addBlock bi'.header).1 = .ok (some num) → num ≠ 0 →
      s.timeline.hashes.find? bi'.header.hash = none →
      fl.workers = none ∧
        Saves fl s (.simple bi'.header.hash) (s.blockBatch (bi'.header.withNumber (some num)))
  | .sign bi dump => ∀ bi' s', fl.save = none →
      s.saveTransactionsSignBlock bi dump (s.isSaveBlockToFiles && !src.isNoDefaultSource) =
        .ok (bi', s') →
      s.timeline.hashes.find? bi'.header.hash = none →
      Saves fl s
        (.sign { hash := bi'.header.hash, filePos := bi'.header.filePos
                 prevHash := bi'.header.prevHash })
        (s.signBlockBatch bi'.header)

/-- Only the block files change when a dump is saved. -/
theorem saveTransactions_frame {s s' : SyncImpl} {bi bi' : BlockInfo} {dump : Blob} {save : Bool}
    (h : s.saveTransactions bi dump save = .ok (bi', s')) : ∃ files, s' = { s with files } := by
  unfold saveTransactions at h
  split at h
  · cases h
    exact ⟨s.files, rfl⟩
  · dsimp only at h
    split at h
    · cases h
    · cases h
      exact ⟨_, rfl⟩

theorem saveTransactionsSignBlock_frame {s s' : SyncImpl} {bi bi' : SignBlockInfo} {dump : Blob}
    {save : Bool} (h : s.saveTransactionsSignBlock bi dump save = .ok (bi', s')) :
    ∃ files, s' = { s with files } := by
  unfold saveTransactionsSignBlock at h
  split at h
  · cases h
    exact ⟨s.files, rfl⟩
  · dsimp only at h
    split at h
    · cases h
    · cases h
      exact ⟨_, rfl⟩

/-- The round that saves an element keeps the records in step. -/
theorem Saves.mirrored {fl : Faults} {s : SyncImpl} {e : BlocksTimeline.Element}
    {batch : UInt64 → Blob → Except Err Batch} (hsaves : Saves fl s e batch) (h : InStep s)
    (hnew : s.timeline.hashes.find? e.hash = none)
    (hwrites : ∀ {key raw b}, batch key raw = .ok b → ∀ {k},
      ascii BLOCKS_TIMELINE_PREFIX.toList <+: k → (addBatch b s.leveldb).find? k =
        OrdMap.find? (OrdMap.insert s.leveldb (timelineKey key.toNat) raw) k) :
    ∃ saved b, s.timeline.add e = (.ok saved, s.timeline.push e) ∧
      batch saved.1 saved.2 = .ok b ∧ Mirrored (s.timeline.push e) (addBatch b s.leveldb) := by
  obtain ⟨raw, hser⟩ := hsaves.element
  obtain ⟨b, hb⟩ := hsaves.records (UInt64.ofNat ((s.timeline.push e).size - 1)) raw
  refine ⟨_, b, BlocksTimeline.add_new hnew hser, hb, ?_⟩
  exact Mirrored.push h hnew hser rfl hsaves.room (fun k hk => hwrites hb hk)

/-- **A round with a block** keeps the records in step with the timeline. -/
theorem acceptBlockF_inStep {fl : Faults} {s : SyncImpl} (src : Source) {bi : BlockInfo} {num : Nat}
    (h : InStep s)
    (hsafe : num ≠ 0 → s.timeline.hashes.find? bi.header.hash = none → fl.workers = none ∧
      Saves fl s (.simple bi.header.hash) (s.blockBatch (bi.header.withNumber (some num)))) :
    InStep (acceptBlockF fl s src bi num).2 := by
  unfold acceptBlockF
  by_cases hnum : num = 0
  · rw [if_pos hnum]
    exact h
  rw [if_neg hnum]
  by_cases hnew : s.timeline.hashes.find? bi.header.hash = none
  · obtain ⟨hworkers, hsaves⟩ := hsafe hnum hnew
    obtain ⟨saved, b, hadd, hb, hmirrored⟩ := hsaves.mirrored h hnew blockBatch_writes
    have hadd' : s.timeline.addSimpleBlock (bi.header.withNumber (some num)) =
        (.ok saved, s.timeline.push (.simple bi.header.hash)) := hadd
    simp only [hadd', storeBlockF, hworkers, commitF, hsaves.write]
    have hb' : ∀ s' : SyncImpl, s'.modules = s.modules → s'.leveldb = s.leveldb →
        s'.blockBatch (bi.header.withNumber (some num)) saved.1 saved.2 = .ok b := by
      intro s' hmod hdb
      rw [← hb, blockBatch, blockBatch, hmod, hdb]
    simp only [hb', commit]
    exact confirmBlockF_mirrored _ _ _ hmirrored
  · obtain ⟨err, hadd⟩ := BlocksTimeline.add_known (e := .simple bi.header.hash) hnew
    have hadd' : s.timeline.addSimpleBlock (bi.header.withNumber (some num)) =
        (.error err, s.timeline) := hadd
    simp only [hadd']
    exact h

theorem processBlockF_inStep {fl : Faults} {src : Source} {s : SyncImpl} {bi : BlockInfo}
    {dump : Blob} (find : BlockChain → Except Err (Option γ)) (h : InStep s)
    (hsafe : Safe fl src s (.block bi dump)) : InStep (processBlockF fl find s src bi dump).2 := by
  unfold processBlockF
  cases hfault : fl.save with
  | some f => exact h
  | none =>
  cases hsave : s.saveTransactions bi dump (s.isSaveBlockToFiles && !src.isNoDefaultSource) with
  | error e => exact h
  | ok r =>
  obtain ⟨bi', s'⟩ := r
  have hsafe := fun num => hsafe bi' _ num hfault hsave
  obtain ⟨files, rfl⟩ := saveTransactions_frame hsave
  simp only
  generalize s.blockchain.addBlock bi'.header = added at hsafe ⊢
  obtain ⟨r, blockchain⟩ := added
  rcases r with e | _ | num
  · exact h
  · simp only
    rcases find blockchain with e | _ | conflict
    · exact h
    · exact h
    · exact h
  · have hkept := @acceptBlockF_inStep fl { s with blockchain, files } src _ _ h
      (fun hnum hnew => (hsafe num rfl hnum hnew).imp_right
        (fun hs => ⟨hs.room, hs.element, hs.records, hs.write⟩))
    simp only
    generalize acceptBlockF fl _ src bi' num = accepted at hkept ⊢
    obtain ⟨r, s'⟩ := accepted
    cases r <;> exact hkept

/-- **A round with a signature block** does too. -/
theorem processSignBlockF_inStep {fl : Faults} {src : Source} {s : SyncImpl} {bi : SignBlockInfo}
    {dump : Blob} (h : InStep s) (hsafe : Safe fl src s (.sign bi dump)) :
    InStep (processSignBlockF fl s src bi dump).2 := by
  unfold processSignBlockF
  cases hfault : fl.save with
  | some f => exact h
  | none =>
  cases hsave : s.saveTransactionsSignBlock bi dump
      (s.isSaveBlockToFiles && !src.isNoDefaultSource) with
  | error e => exact h
  | ok r =>
  obtain ⟨bi', s'⟩ := r
  have hsafe := hsafe bi' _ hfault hsave
  obtain ⟨files, rfl⟩ := saveTransactionsSignBlock_frame hsave
  simp only [BlocksTimeline.addSignBlock]
  generalize he : BlocksTimeline.Element.sign _ = e at hsafe ⊢
  have hash : e.hash = bi'.header.hash := by rw [← he]; rfl
  by_cases hnew : s.timeline.hashes.find? bi'.header.hash = none
  · have hsaves := hsafe hnew
    obtain ⟨saved, b, hadd, hb, hmirrored⟩ :=
      hsaves.mirrored h (hash ▸ hnew) signBlockBatch_writes
    simp only [hadd, storeSignBlockF, commitF, hsaves.write]
    have hb' : ∀ s' : SyncImpl, s'.modules = s.modules → s'.leveldb = s.leveldb →
        s'.signBlockBatch bi'.header saved.1 saved.2 = .ok b := by
      intro s' hmod hdb
      rw [← hb, signBlockBatch, signBlockBatch, hmod]
    simp only [hb', commit]
    exact confirmBlockF_mirrored _ _ _ hmirrored
  · obtain ⟨err, hadd⟩ := BlocksTimeline.add_known (e := e) (hash ▸ hnew)
    simp only [hadd]
    exact h

theorem roundF_inStep {fl : Faults} {src : Source} {s : SyncImpl} {r : Round}
    (find : BlockChain → Except Err (Option γ)) (h : InStep s) (hsafe : Safe fl src s r) :
    InStep (roundF fl find src s r) := by
  cases r with
  | block bi dump => exact processBlockF_inStep find h hsafe
  | sign bi dump => exact processSignBlockF_inStep h hsafe

/-- **Every state of a safe run** has its timeline in the database. -/
theorem Run.inStep {s : SyncImpl} (h : Run Safe s) : InStep s := by
  induction h with
  | start s ht hdb =>
      unfold InStep
      rw [ht, hdb]
      exact mirrored_new
  | round fl find src r _ hsafe ih => exact roundF_inStep find ih hsafe
  | others leveldb _ hsame ih => exact Mirrored.congr ih hsame
  | restart blockchain files delivered _ hfound hbuilt ih =>
      obtain ⟨raws, -, hfound', hbuilt'⟩ := Mirrored.rebuilds ih
      rw [hfound] at hfound'
      cases hfound'
      rw [hbuilt] at hbuilt'
      cases hbuilt'
      exact ih

/--
**The timeline outlives the process**, as long as no round throws between putting
an element on the timeline and writing its record.
-/
theorem timeline_persisted {s : SyncImpl} (h : Run Safe s) : Persisted s := h.inStep.rebuilds

theorem dump_fits : List.length ([1, 2, 3] : Bytes) < 2 ^ 63 := by decide

/-- A round with an empty block, from the network. -/
def nextRound (fl : Faults) (s : SyncImpl) (hash prevHash : UInt8) : SyncImpl :=
  roundF (γ := Unit) fl (fun _ => .ok none) network s
    (.block (emptyBlock hash prevHash) ⟨[1, 2, 3], dump_fits⟩)

/-- A signature block without signatures. -/
def emptySignBlock (hash prevHash : UInt8) : SignBlockInfo :=
  { header :=
      { timestamp := 0, blockSize := 1, hash := Blob.replicate 32 hash Blob.hash_fits
        prevHash := Blob.replicate 32 prevHash Blob.hash_fits
        filePos := { pos := 0, fileNameRelative := ⟨ascii ['b', 'l', 'k'], Blob.blk_fits⟩ }
        senderSign := ∅, senderPubkey := ∅, senderAddress := ∅ }
    txs := [] }

/-- A round with a sign block. -/
def nextSignRound (fl : Faults) (s : SyncImpl) (hash prevHash : UInt8) : SyncImpl :=
  roundF (γ := Unit) fl (fun _ => .ok none) network s
    (.sign (emptySignBlock hash prevHash) ⟨[1, 2, 3], dump_fits⟩)

section Plain

variable {fl : Faults} {s : SyncImpl} {hash prevHash : UInt8} {dump : Blob}

/-- The element does not decide whether there is a batch. -/
theorem records_of_isSome {start : Except Err Batch} {batch : UInt64 → Blob → Except Err Batch}
    (hbatch : ∀ key raw, batch key raw = start >>= fun b => b.saveBlockTimeline key raw)
    (hsome : start.toOption.isSome) (key : UInt64) (raw : Blob) : ∃ b, batch key raw = .ok b := by
  cases hstart : start with
  | error e =>
      rw [hstart] at hsome
      cases hsome
  | ok b =>
      rw [hbatch, hstart]
      exact ⟨_, rfl⟩

theorem serialized_of_isSome {e : BlocksTimeline.Element}
    (h : (e.serialize >>= Blob.ofBytes).toOption.isSome) :
    ∃ raw : Blob, e.serialize = .ok raw.val := by
  cases hser : e.serialize with
  | error err =>
      rw [hser] at h
      cases h
  | ok bytes =>
      by_cases hfits : bytes.length < 2 ^ 63
      · exact ⟨⟨bytes, hfits⟩, rfl⟩
      · have hlong : Blob.ofBytes bytes = .error (.std "length_error") := dif_neg hfits
        rw [hser] at h
        have h : (Blob.ofBytes bytes).toOption.isSome = true := h
        rw [hlong] at h
        cases h

theorem safe_emptyBlock (num : Nat) (hfiles : s.isSaveBlockToFiles = false)
    (hworkers : fl.workers = none) (hwrite : fl.write = none)
    (hadd : (s.blockchain.addBlock (emptyBlock hash prevHash).header).1 = .ok (some num))
    (hroom : s.timeline.timeline.length < 2 ^ 64)
    (helement : ((BlocksTimeline.Element.simple (emptyBlock hash prevHash).header.hash).serialize >>=
      Blob.ofBytes).toOption.isSome)
    (hrecords : ((do
      let header := (emptyBlock hash prevHash).header.withNumber (some num)
      let batch ← if s.modules.block then Batch.new.addBlockHeader header.hash header
        else pure Batch.new
      let metadata ← s.leveldb.findBlockMetadata
      batch.addBlockMetadata (nextMetadata metadata header) : Except Err Batch)).toOption.isSome) :
    Safe fl network s (.block (emptyBlock hash prevHash) dump) := by
  intro bi' s' n _ hsave hnumber _ _
  rw [hfiles] at hsave
  have hsame : (emptyBlock hash prevHash, s) = (bi', s') := Except.ok.inj hsave
  cases hsame
  rw [hadd] at hnumber
  obtain rfl := Option.some.inj (Except.ok.inj hnumber)
  refine ⟨hworkers, hroom, serialized_of_isSome helement, records_of_isSome ?_ hrecords, hwrite⟩
  intro key raw
  unfold blockBatch
  cases s.modules.block <;> simp only [Bool.false_eq_true, if_false, if_true, bind_assoc]

theorem safe_emptySignBlock (hfiles : s.isSaveBlockToFiles = false) (hwrite : fl.write = none)
    (hroom : s.timeline.timeline.length < 2 ^ 64)
    (helement : ((BlocksTimeline.Element.sign
      { hash := (emptySignBlock hash prevHash).header.hash
        filePos := (emptySignBlock hash prevHash).header.filePos
        prevHash := (emptySignBlock hash prevHash).header.prevHash }).serialize >>=
      Blob.ofBytes).toOption.isSome)
    (hrecords : (if s.modules.block then Batch.new.addSignBlockHeader
      (emptySignBlock hash prevHash).header.hash (emptySignBlock hash prevHash).header
      else pure Batch.new : Except Err Batch).toOption.isSome) :
    Safe fl network s (.sign (emptySignBlock hash prevHash) dump) := by
  intro bi' s' _ hsave _
  rw [hfiles] at hsave
  have hsame : (emptySignBlock hash prevHash, s) = (bi', s') := Except.ok.inj hsave
  cases hsame
  refine ⟨hroom, serialized_of_isSome helement, records_of_isSome ?_ hrecords, hwrite⟩
  intro key raw
  unfold signBlockBatch
  cases s.modules.block <;> rfl

end Plain

/-- The block file cannot be written. -/
def unwritable : Faults :=
  { Faults.none with save := some (.exception "Incorrect get size file", ∅) }

/-- A block, a signature block behind it, a round that fails before it puts anything on the
timeline, and the same block again. -/
theorem timeline_persisted_four :
    ∃ s, s = nextRound .none (nextRound unwritable
        (nextSignRound .none (nextRound .none (fresh false) 1 0) 5 1) 2 1) 2 1 ∧
      s.timeline.size = 3 ∧ Persisted s := by
  have hfirst : Run Safe (nextRound .none (fresh false) 1 0) :=
    Run.round _ _ network _ (Run.start (fresh false) rfl rfl)
      (safe_emptyBlock 1 rfl rfl rfl (by decide +kernel) (by decide) (by decide +kernel)
        (by decide +kernel))
  have hsign : Run Safe (nextSignRound .none (nextRound .none (fresh false) 1 0) 5 1) :=
    Run.round _ _ network _ hfirst (safe_emptySignBlock (by decide +kernel) rfl (by decide +kernel)
      (by decide +kernel) (by decide +kernel))
  have hfailed : Run Safe
      (nextRound unwritable (nextSignRound .none (nextRound .none (fresh false) 1 0) 5 1) 2 1) :=
    Run.round _ _ network _ hsign (fun _ _ _ hsave => by cases hsave)
  have hagain : Run Safe (nextRound .none (nextRound unwritable
      (nextSignRound .none (nextRound .none (fresh false) 1 0) 5 1) 2 1) 2 1) :=
    Run.round _ _ network _ hfailed (safe_emptyBlock 2 (by decide +kernel) rfl rfl
      (by decide +kernel) (by decide +kernel) (by decide +kernel) (by decide +kernel))
  exact ⟨_, rfl, by decide +kernel, timeline_persisted hagain⟩

/-- A disk that takes no more batches. -/
def diskFull : Faults := { Faults.none with write := some (.exception "dont add key to bd. ") }

/-- The block after a failed write is saved under the second key, and no first one is there. -/
theorem failed_write_leaves_gap :
    ∃ s, Run (fun _ _ _ _ => True) s ∧ s.timeline.size = 2 ∧
      (s.leveldb.under (ascii BLOCKS_TIMELINE_PREFIX.toList)).map Prod.fst = [timelineKey 1] ∧
      ¬ Persisted s := by
  have hrun : Run (fun _ _ _ _ => True) (nextRound .none (nextRound diskFull (fresh false) 1 0) 2 1) :=
    Run.round _ _ network _ (Run.round _ _ network _ (Run.start (fresh false) rfl rfl) trivial) trivial
  have hkeys : ((nextRound .none (nextRound diskFull (fresh false) 1 0) 2 1).leveldb.under
      (ascii BLOCKS_TIMELINE_PREFIX.toList)).map Prod.fst = [timelineKey 1] := by decide +kernel
  refine ⟨_, hrun, by decide +kernel, hkeys, ?_⟩
  rintro ⟨raws, hraws, -, -⟩
  rw [hraws] at hkeys
  cases raws with
  | nil => exact absurd hkeys (by simp)
  | cons raw raws =>
      rw [List.mapIdx_cons, List.map_cons] at hkeys
      have hkey : timelineKey 0 = timelineKey 1 := (List.cons.inj hkeys).1
      exact absurd hkey (by decide)

end SyncImpl

end TorrentNode
