import TorrentNode.Lib.NamedKeys
import TorrentNode.Workers.NodeTestDays
import TorrentNode.Workers.Prefix

/-!
# The statistics of the node tests

The records of a day grow by what each block of the day adds, and the block that ends
the day moves the worker on to the next one. So the records are those of the sequence
of tests and ends of days, wherever the blocks cut it.
-/

namespace TorrentNode

open NamedKeys OrdMap

/-- What the database holds of these tests when it is this day. -/
structure HoldsTests (db : LevelDb) (day : UInt64) (l : List (Nat × Tested)) : Prop where
  day : db.findNodeStatDayNumber = .ok ⟨day⟩
  rps : ∀ address, address ≠ ∅ → ∀ d, db.findNodeStatRps address d =
    .ok ⟨(testsOf address (testsOn d.toNat l)).map (fun e => e.2.rps)⟩
  nodes : ∀ d, ∃ n, db.findAllTestedNodesForDay d = .ok n ∧
    ∀ address, n.nodes.find? address = some () ↔ testsOf address (testsOn d.toNat l) ≠ []
  best : WorkerNodeTest.HasBest db l

/-! ## Keys -/

/-- Where the results of a node on a day stand. -/
def rpsKey (day : UInt64) (address : Blob) : Bytes :=
  ascii NODE_STAT_RPS_PREFIX.toList ++ address.val ++ ascii [NODE_STAT_RPS_POSTFIX] ++
    serializeUInt64 (-day)

/-- The key of the nodes that were tested on a day. -/
def testedNodesKey (day : UInt64) : Bytes :=
  ascii NODES_TESTED_STATS_ALL_DAY.toList ++ ascii [NODES_TESTED_STATS_ALL_DAY_POSTFIX] ++
    serializeUInt64 (-day)

theorem serializeUInt64_neg_inj {day day' : UInt64}
    (h : serializeUInt64 (-day) = serializeUInt64 (-day')) : day = day' := by
  have hle : ¬(-day).toNat < (-day').toNat := by
    rw [← serializeUInt64_lt, h]
    exact lt_irrefl _
  have hge : ¬(-day').toNat < (-day).toNat := by
    rw [← serializeUInt64_lt, h]
    exact lt_irrefl _
  have heq : (-day).toNat = (-day').toNat := by omega
  exact UInt64.neg_inj.mp (UInt64.toNat_inj.mp heq)

theorem rpsKey_inj {day day' : UInt64} {address address' : Blob}
    (h : rpsKey day address = rpsKey day' address') : day = day' ∧ address = address' := by
  obtain ⟨haddress, hday⟩ := @key_inj _ (ascii NODE_STAT_RPS_PREFIX.toList)
    address.val address'.val _ _ 33 (by rw [length_serializeUInt64, length_serializeUInt64]) h
  exact ⟨serializeUInt64_neg_inj hday, Subtype.ext haddress⟩

theorem testedNodesKey_inj {day day' : UInt64} (h : testedNodesKey day = testedNodesKey day') :
    day = day' := serializeUInt64_neg_inj (List.append_cancel_left h)

theorem prefix_testedNodesKey (day : UInt64) :
    ascii NODES_TESTED_STATS_ALL_DAY.toList <+: testedNodesKey day := by
  unfold testedNodesKey
  rw [List.append_assoc]
  exact List.prefix_append _ _

theorem findNodeStatRps_eq {db : LevelDb} {address : Blob} (hne : address ≠ ∅) (day : UInt64) :
    db.findNodeStatRps address day =
      db.findOneValueWithoutCheckValue NodeRps.deserialize (rpsKey day address) := by
  unfold LevelDb.findNodeStatRps
  rw [(makeKey_counter rfl).mpr ⟨hne, rfl⟩]
  rfl

theorem findNodeStatRps_empty (db : LevelDb) (day : UInt64) :
    db.findNodeStatRps ∅ day = .error (.exception "Incorrect parameter") := rfl

theorem findAllTestedNodesForDay_eq (db : LevelDb) (day : UInt64) :
    db.findAllTestedNodesForDay day =
      db.findOneValueWithoutCheckValue AllTestedNodes.deserialize (testedNodesKey day) := rfl

theorem findNodeStatLastResults_eq (db : LevelDb) :
    db.findNodeStatLastResults =
      db.findNamed NODE_STAT_RESULT_PREFIX BestNodeTest.deserialize := rfl

/-! ## What a block puts -/

namespace WorkerNodeTest

variable {w : WorkerNodeTest} {bi : BlockInfo} {day : UInt64} {s : NodeTestState} {b b' : Batch}

/-- The day number that a state block puts. -/
def putDay (bi : BlockInfo) (day : UInt64) (b : Batch) : Except Err Batch :=
  if bi.header.isStateBlock then b.addNodeTestDayNumber ⟨day + 1⟩ else pure b

/-- The results of a node, behind those of the day. -/
def putRps (w : WorkerNodeTest) (day : UInt64) (b : Batch) (e : Blob × NodeRps) :
    Except Err Batch := do
  let oldNodeRps ← w.leveldbNodeTest.findNodeStatRps e.1 day
  b.addNodeTestRpsForDay e.1 { rps := oldNodeRps.rps ++ e.2.rps } day

/-- Writes the last tests of a node. -/
def putLastResults (b : Batch) (e : Blob × BestNodeTest) : Except Err Batch :=
  b.addNodeTestLastResults e.1 e.2

/-- The nodes of the block, with those of the day. -/
def putTestedNodes (w : WorkerNodeTest) (day : UInt64) (nodes : AllTestedNodes) (b : Batch) :
    Except Err Batch :=
  if nodes.nodes.entries.isEmpty then pure b else do
    let allNodesForDayOld ← w.leveldbNodeTest.findAllTestedNodesForDay day
    b.addAllTestedNodesForDay { allNodesForDayOld.plus nodes with day } day

/-- Writes the registered nodes, if the block registered any. -/
def putAllNodes (w : WorkerNodeTest) (allNodes : AllNodes) (b : Batch) : Except Err Batch :=
  if allNodes.nodes.entries.isEmpty then pure b else do
    let allNodesOld ← w.leveldbNodeTest.findAllNodes
    b.addAllNodes (allNodesOld.plus allNodes)

theorem saveTests_eq : w.saveTests bi day s = (do
    let b ← putDay bi day s.batchStates
    let b ← s.nodesRps.entries.foldlM (w.putRps day) b
    let b ← s.lastNodesTests.entries.foldlM putLastResults b
    let b ← w.putTestedNodes day s.allNodesForDay b
    w.putAllNodes s.allNodes b) := by
  unfold saveTests putDay putTestedNodes
  by_cases hstate : bi.header.isStateBlock = true
  · by_cases hnodes : s.allNodesForDay.nodes.entries.isEmpty = true
    · simp only [if_pos hstate, if_pos hnodes]
      rfl
    · simp only [if_pos hstate, if_neg hnodes, bind_assoc]
      rfl
  · by_cases hnodes : s.allNodesForDay.nodes.entries.isEmpty = true
    · simp only [if_neg hstate, if_pos hnodes]
      rfl
    · simp only [if_neg hstate, if_neg hnodes, bind_assoc]
      rfl

/-- The batches on the way to that of a block. -/
structure Puts (w : WorkerNodeTest) (bi : BlockInfo) (day : UInt64) (s : NodeTestState)
    (b₁ b₂ b₃ b₄ b₅ b₆ : Batch) : Prop where
  number : putDay bi day s.batchStates = .ok b₁
  rps : s.nodesRps.entries.foldlM (w.putRps day) b₁ = .ok b₂
  lastResults : s.lastNodesTests.entries.foldlM putLastResults b₂ = .ok b₃
  nodes : w.putTestedNodes day s.allNodesForDay b₃ = .ok b₄
  allNodes : w.putAllNodes s.allNodes b₄ = .ok b₅
  record : ∃ record, b₅.addNodeStatBlock record = .ok b₆

theorem processBlock_ok {n : UInt64} (h : w.processBlock bi n = .ok b) :
    ∃ (day : NodeTestDayNumber) (s : NodeTestState) (b₁ b₂ b₃ b₄ b₅ : Batch),
      w.leveldbNodeTest.findNodeStatDayNumber = .ok day ∧
      bi.txs.foldlM (w.processTransaction bi day.dayNumber)
        { batchStates := Batch.new, allNodesForDay := ⟨∅, 0⟩, allNodes := ⟨∅⟩, nodesRps := ∅,
          lastNodesTests := ∅ } = .ok s ∧
      w.Puts bi day.dayNumber s b₁ b₂ b₃ b₄ b₅ b := by
  obtain ⟨day, hday, h⟩ := bind_eq_ok.mp h
  obtain ⟨s, hs, h⟩ := bind_eq_ok.mp h
  rw [saveTests_eq] at h
  obtain ⟨b₅, hsave, hrecord⟩ := bind_eq_ok.mp h
  obtain ⟨b₁, hput, hsave⟩ := bind_eq_ok.mp hsave
  obtain ⟨b₂, hrps, hsave⟩ := bind_eq_ok.mp hsave
  obtain ⟨b₃, hlast, hsave⟩ := bind_eq_ok.mp hsave
  obtain ⟨b₄, hnodes, hall⟩ := bind_eq_ok.mp hsave
  exact ⟨day, s, b₁, b₂, b₃, b₄, b₅, hday, hs, hput, hrps, hlast, hnodes, hall, _, hrecord⟩

/-! ## What stays -/

section Spares

variable {p : Bytes}

theorem spares_addKey {key : Bytes} {serialized : Except Err Bytes} {isSave : Bool}
    (hp : Apart p key) (h : b.addKey key serialized isSave = .ok b') : b.Spares p b' :=
  Batch.Spares.addKey (hp.not_prefix (List.prefix_refl _)) h

theorem spares_putDay (hp : Apart p (ascii NODE_STAT_DAY_NUMBER.toList))
    (h : putDay bi day b = .ok b') : b.Spares p b' := by
  unfold putDay at h
  by_cases hstate : bi.header.isStateBlock = true
  · rw [if_pos hstate] at h
    exact spares_addKey hp h
  · rw [if_neg hstate] at h
    obtain rfl := Except.ok.inj h
    exact Batch.Spares.refl p b

theorem spares_putRps (hp : Apart p (ascii NODE_STAT_RPS_PREFIX.toList)) {l : List (Blob × NodeRps)}
    (h : l.foldlM (w.putRps day) b = .ok b') : b.Spares p b' := by
  refine Batch.Spares.foldlM (fun e c c' hput => ?_) h
  obtain ⟨old, -, hput⟩ := bind_eq_ok.mp hput
  exact Batch.Spares.addKey_makeKey hp hput

theorem spares_putLastResults (hp : Apart p (ascii NODE_STAT_RESULT_PREFIX.toList))
    {l : List (Blob × BestNodeTest)} (h : l.foldlM putLastResults b = .ok b') : b.Spares p b' :=
  Batch.Spares.foldlM (fun _ _ _ hput => Batch.Spares.addKey_makeKey hp hput) h

theorem spares_putTestedNodes (hp : Apart p (ascii NODES_TESTED_STATS_ALL_DAY.toList))
    {nodes : AllTestedNodes} (h : w.putTestedNodes day nodes b = .ok b') : b.Spares p b' := by
  unfold putTestedNodes at h
  by_cases hempty : nodes.nodes.entries.isEmpty = true
  · rw [if_pos hempty] at h
    obtain rfl := Except.ok.inj h
    exact Batch.Spares.refl p b
  · rw [if_neg hempty] at h
    obtain ⟨old, -, h⟩ := bind_eq_ok.mp h
    exact Batch.Spares.addKey_makeKey hp h

theorem spares_putAllNodes (hp : Apart p (ascii NODES_STATS_ALL.toList)) {allNodes : AllNodes}
    (h : w.putAllNodes allNodes b = .ok b') : b.Spares p b' := by
  unfold putAllNodes at h
  by_cases hempty : allNodes.nodes.entries.isEmpty = true
  · rw [if_pos hempty] at h
    obtain rfl := Except.ok.inj h
    exact Batch.Spares.refl p b
  · rw [if_neg hempty] at h
    obtain ⟨old, -, h⟩ := bind_eq_ok.mp h
    exact spares_addKey hp h

end Spares

/-! ## What a block does to the records -/

section Block

variable {db : LevelDb} {before today : List (Nat × Tested)} {b₁ b₂ b₃ b₄ b₅ b₆ : Batch}

/-- The tests of today are all of one day. -/
theorem testsOn_today (htoday : ∀ e ∈ today, e.1 = day.toNat) (d : UInt64) :
    testsOn d.toNat today = if d = day then today else [] := by
  by_cases hd : d = day
  · rw [if_pos hd, hd]
    exact List.filter_eq_self.mpr (fun e he => decide_eq_true (htoday e he))
  · rw [if_neg hd]
    refine List.filter_eq_nil_iff.mpr (fun e he => ?_)
    rw [decide_eq_true_eq, htoday e he]
    exact fun heq => hd (UInt64.toNat_inj.mp heq).symm

/-- A day that is not today has no tests of today. -/
theorem testsOf_day_append (htoday : ∀ e ∈ today, e.1 = day.toNat) (address : Blob) (d : UInt64) :
    testsOf address (testsOn d.toNat (before ++ today)) =
      testsOf address (testsOn d.toNat before) ++ if d = day then testsOf address today else [] := by
  rw [testsOn_append, testsOf_append, testsOn_today htoday]
  by_cases hd : d = day
  · rw [if_pos hd, if_pos hd]
  · rw [if_neg hd, if_neg hd]
    rfl

namespace Puts

variable (hp : w.Puts bi day s b₁ b₂ b₃ b₄ b₅ b₆)
include hp

theorem spares_record {p : Bytes} (h : Apart p (ascii NODE_STAT_BLOCK_NUMBER_PREFIX.toList)) :
    b₅.Spares p b₆ := by
  obtain ⟨record, hrecord⟩ := hp.record
  exact spares_addKey h hrecord

/-- **The number of the day.** -/
theorem holds_day (hc : Collected before today s) (hdb : db.findNodeStatDayNumber = .ok ⟨day⟩) :
    (addBatch b₆ db).findNodeStatDayNumber =
      .ok ⟨if bi.header.isStateBlock then day + 1 else day⟩ := by
  obtain ⟨p, hpre⟩ : ∃ p, ascii NODE_STAT_DAY_NUMBER.toList = p := ⟨_, rfl⟩
  have hlater : (addBatch b₆ db).find? p = (addBatch b₁ db).find? p := by
    have hspares : b₁.Spares p b₆ := by
      rw [← hpre]
      exact (spares_putRps (by decide) hp.rps).trans <|
        (spares_putLastResults (by decide) hp.lastResults).trans <|
        (spares_putTestedNodes (by decide) hp.nodes).trans <|
        (spares_putAllNodes (by decide) hp.allNodes).trans (hp.spares_record (by decide))
    exact hspares.find?_addBatch db (List.prefix_refl p)
  have hnew : (addBatch b₆ db).findNodeStatDayNumber =
      (addBatch b₁ db).findNodeStatDayNumber := by
    unfold LevelDb.findNodeStatDayNumber LevelDb.findOneValueWithoutCheckValue
      LevelDb.findOneValueInternal
    rw [hpre, hlater]
  have hnumber := hp.number
  rw [hnew]
  unfold putDay at hnumber
  -- Only a state block writes the number of the day.
  by_cases hstate : bi.header.isStateBlock = true
  · rw [if_pos hstate] at hnumber
    rw [if_pos hstate]
    obtain ⟨value, hvalue, rfl⟩ := Batch.addKey_eq_ok hnumber
    have hfind := find?_addBatch_addKeyInternal s.batchStates db
      (ascii NODE_STAT_DAY_NUMBER.toList) value false (ascii NODE_STAT_DAY_NUMBER.toList)
    rw [if_pos rfl] at hfind
    exact (LevelDb.findOneValue_of_find? hfind).trans (NodeTestDayNumber.deserialize_serialize hvalue)
  · rw [if_neg hstate] at hnumber
    rw [if_neg hstate]
    obtain rfl := Except.ok.inj hnumber
    have hspares := hc.batchStates p (by rw [← hpre]; decide)
    have hsame := hspares.find?_addBatch db (List.prefix_refl p)
    rw [← hdb]
    unfold LevelDb.findNodeStatDayNumber LevelDb.findOneValueWithoutCheckValue
      LevelDb.findOneValueInternal
    rw [hpre, hsame]
    rfl

/-- **The results of the day.** -/
theorem holds_rps (hc : Collected before today s) (hday : w.leveldbNodeTest = db)
    (htoday : ∀ e ∈ today, e.1 = day.toNat)
    (hdb : ∀ address, address ≠ ∅ → ∀ d, db.findNodeStatRps address d =
      .ok ⟨(testsOf address (testsOn d.toNat before)).map (fun e => e.2.rps)⟩)
    {address : Blob} (hne : address ≠ ∅) (d : UInt64) :
    (addBatch b₆ db).findNodeStatRps address d =
      .ok ⟨(testsOf address (testsOn d.toNat (before ++ today))).map (fun e => e.2.rps)⟩ := by
  obtain ⟨p, hpre⟩ : ∃ p, ascii NODE_STAT_RPS_PREFIX.toList = p := ⟨_, rfl⟩
  have hunder : p <+: rpsKey d address := by
    rw [← hpre]
    unfold rpsKey
    rw [List.append_assoc, List.append_assoc]
    exact List.prefix_append _ _
  have hlater : (addBatch b₆ db).find? (rpsKey d address) =
      (addBatch b₂ db).find? (rpsKey d address) := by
    have hspares : b₂.Spares p b₆ := by
      rw [← hpre]
      exact (spares_putLastResults (by decide) hp.lastResults).trans <|
        (spares_putTestedNodes (by decide) hp.nodes).trans <|
        (spares_putAllNodes (by decide) hp.allNodes).trans (hp.spares_record (by decide))
    exact hspares.find?_addBatch db hunder
  have hearlier : (addBatch b₁ db).find? (rpsKey d address) = db.find? (rpsKey d address) := by
    have hspares : Batch.new.Spares p b₁ := by
      rw [← hpre]
      exact (hc.batchStates _ (by decide)).trans (spares_putDay (by decide) hp.number)
    exact hspares.find?_addBatch db hunder
  -- each node has one entry in the batch, under a key of its own
  have hput : ∀ (e : Blob × NodeRps) (c c' : Batch), w.putRps day c e = .ok c' →
      ∃ value : Blob, (∃ old, db.findNodeStatRps e.1 day = .ok old ∧
        NodeRps.serialize ⟨old.rps ++ e.2.rps⟩ = .ok value.val) ∧
        c' = c.addKeyInternal (rpsKey day e.1) value false := by
    intro e c c' h
    obtain ⟨old, hold, h⟩ := bind_eq_ok.mp h
    obtain ⟨key, hkey, h⟩ := bind_eq_ok.mp h
    obtain ⟨-, rfl⟩ := (makeKey_counter rfl).mp hkey
    obtain ⟨value, hvalue, hc'⟩ := Batch.addKey_eq_ok h
    exact ⟨value, ⟨old, by rw [← hday]; exact hold, hvalue⟩, hc'⟩
  have hnodup : (s.nodesRps.entries.map (fun e => rpsKey day e.1)).Nodup := by
    have hkeys := List.Pairwise.map (S := (· ≠ ·)) (rpsKey day)
      (fun _ _ hne h => hne (rpsKey_inj h).2) (nodup_keys s.nodesRps)
    rwa [List.map_map] at hkeys
  obtain ⟨hother, hsame⟩ := find?_addBatch_foldlM hput db hp.rps hnodup
  rw [findNodeStatRps_eq hne, testsOf_day_append htoday]
  have hold := hdb address hne d
  rw [findNodeStatRps_eq hne] at hold
  -- A node that was tested in the block has a new record for this day alone.
  cases hfind : s.nodesRps.find? address with
  | none =>
      have hnone := (hc.nodesRps address).mp hfind
      have hnot : rpsKey d address ∉ s.nodesRps.entries.map (fun e => rpsKey day e.1) := by
        intro hmem
        obtain ⟨e, he, heq⟩ := List.mem_map.mp hmem
        rw [← (rpsKey_inj heq).2, mem_entries.mp he] at hfind
        cases hfind
      rw [hnone, ite_self, List.append_nil, ← hold]
      unfold LevelDb.findOneValueWithoutCheckValue LevelDb.findOneValueInternal
      rw [hlater, hother _ hnot, hearlier]
  | some rps =>
      by_cases hd : d = day
      · subst hd
        obtain ⟨value, ⟨old, hread, hvalue⟩, hfound⟩ := hsame (address, rps) (mem_entries.mpr hfind)
        obtain rfl := Except.ok.inj ((hdb address hne d).symm.trans hread)
        rw [if_pos rfl, List.map_append, ← hc.rps address rps hfind]
        rw [← hlater] at hfound
        exact (LevelDb.findOneValue_of_find? hfound).trans (NodeRps.deserialize_serialize hvalue)
      · have hnot : rpsKey d address ∉ s.nodesRps.entries.map (fun e => rpsKey day e.1) := by
          intro hmem
          obtain ⟨e, -, heq⟩ := List.mem_map.mp hmem
          exact hd (rpsKey_inj heq).1.symm
        rw [if_neg hd, List.append_nil, ← hold]
        unfold LevelDb.findOneValueWithoutCheckValue LevelDb.findOneValueInternal
        rw [hlater, hother _ hnot, hearlier]

/-- What the batch does under the prefix of the nodes of the days: it replaces the record of today,
if the block tested a node. -/
theorem find?_testedNodes (hc : Collected before today s) (hday : w.leveldbNodeTest = db) :
    (s.allNodesForDay.nodes.entries = [] ∧ ∀ k, ascii NODES_TESTED_STATS_ALL_DAY.toList <+: k →
      (addBatch b₆ db).find? k = db.find? k) ∨
    ∃ (old : AllTestedNodes) (value : Blob), s.allNodesForDay.nodes.entries ≠ [] ∧
      db.findAllTestedNodesForDay day = .ok old ∧
      AllTestedNodes.serialize { old.plus s.allNodesForDay with day } = .ok value.val ∧
      ∀ k, ascii NODES_TESTED_STATS_ALL_DAY.toList <+: k →
        (addBatch b₆ db).find? k = if k = testedNodesKey day then some value else db.find? k := by
  obtain ⟨p, hpre⟩ : ∃ p, ascii NODES_TESTED_STATS_ALL_DAY.toList = p := ⟨_, rfl⟩
  rw [hpre]
  have hlater : ∀ k, p <+: k → (addBatch b₆ db).find? k = (addBatch b₄ db).find? k := by
    have hspares : b₄.Spares p b₆ := by
      rw [← hpre]
      exact (spares_putAllNodes (by decide) hp.allNodes).trans (hp.spares_record (by decide))
    exact fun k hk => hspares.find?_addBatch db hk
  have hearlier : ∀ k, p <+: k → (addBatch b₃ db).find? k = db.find? k := by
    have hspares : Batch.new.Spares p b₃ := by
      rw [← hpre]
      exact (hc.batchStates _ (by decide)).trans <| (spares_putDay (by decide) hp.number).trans <|
        (spares_putRps (by decide) hp.rps).trans (spares_putLastResults (by decide) hp.lastResults)
    exact fun k hk => hspares.find?_addBatch db hk
  have hnodes := hp.nodes
  unfold putTestedNodes at hnodes
  -- A block without tests writes no record of tested nodes.
  by_cases hempty : s.allNodesForDay.nodes.entries.isEmpty = true
  · rw [if_pos hempty] at hnodes
    obtain rfl := Except.ok.inj hnodes
    exact Or.inl ⟨List.isEmpty_iff.mp hempty, fun k hk => (hlater k hk).trans (hearlier k hk)⟩
  · rw [if_neg hempty] at hnodes
    obtain ⟨old, hread, hnodes⟩ := bind_eq_ok.mp hnodes
    obtain ⟨key, hkey, hnodes⟩ := bind_eq_ok.mp hnodes
    have hkey : testedNodesKey day = key := Except.ok.inj hkey
    subst hkey
    obtain ⟨value, hvalue, rfl⟩ := Batch.addKey_eq_ok hnodes
    rw [hday] at hread
    refine Or.inr ⟨old, value, fun hnil => hempty (List.isEmpty_iff.mpr hnil), hread, hvalue,
      fun k hk => ?_⟩
    rw [hlater k hk, find?_addBatch_addKeyInternal, hearlier k hk]

/-- **The nodes of the day.** -/
theorem holds_nodes (hc : Collected before today s) (hday : w.leveldbNodeTest = db)
    (htoday : ∀ e ∈ today, e.1 = day.toNat)
    (hdb : ∀ d, ∃ n, db.findAllTestedNodesForDay d = .ok n ∧ ∀ address,
      n.nodes.find? address = some () ↔ testsOf address (testsOn d.toNat before) ≠ []) (d : UInt64) :
    ∃ n, (addBatch b₆ db).findAllTestedNodesForDay d = .ok n ∧ ∀ address,
      n.nodes.find? address = some () ↔ testsOf address (testsOn d.toNat (before ++ today)) ≠ [] := by
  have hunder := prefix_testedNodesKey d
  obtain ⟨old, hold, hnames⟩ := hdb d
  rcases hp.find?_testedNodes hc hday with
    ⟨hempty, hsame⟩ | ⟨oldToday, value, -, hread, hvalue, hfind⟩
  -- No node was tested in the block,
  · have hnone : ∀ address, testsOf address today = [] := by
      intro address
      by_contra hne
      have hmem := mem_entries.mpr ((hc.nodes address).mpr hne)
      rw [hempty] at hmem
      cases hmem
    refine ⟨old, ?_, ?_⟩
    · rw [← hold, findAllTestedNodesForDay_eq, findAllTestedNodesForDay_eq]
      unfold LevelDb.findOneValueWithoutCheckValue LevelDb.findOneValueInternal
      rw [hsame _ hunder]
    · intro address
      rw [testsOf_day_append htoday, hnone, ite_self, List.append_nil]
      exact hnames address
  -- or the record of the day has the new nodes with the old ones.
  · have hfound := hfind _ hunder
    by_cases hd : d = day
    · subst hd
      obtain rfl := Except.ok.inj (hold.symm.trans hread)
      rw [if_pos rfl] at hfound
      refine ⟨_, (LevelDb.findOneValue_of_find? hfound).trans
        (AllTestedNodes.deserialize_serialize hvalue), ?_⟩
      intro address
      show (old.plus s.allNodesForDay).nodes.find? address = some () ↔ _
      rw [AllTestedNodes.find?_plus, hc.nodes, hnames, testsOf_day_append htoday, if_pos rfl, ne_eq,
        ne_eq, ne_eq, List.append_eq_nil_iff, not_and_or, or_comm]
    · rw [if_neg (fun heq => hd (testedNodesKey_inj heq))] at hfound
      refine ⟨old, ?_, ?_⟩
      · rw [← hold, findAllTestedNodesForDay_eq, findAllTestedNodesForDay_eq]
        unfold LevelDb.findOneValueWithoutCheckValue LevelDb.findOneValueInternal
        rw [hfound]
      · intro address
        rw [testsOf_day_append htoday, if_neg hd, List.append_nil]
        exact hnames address

/-- **The last results.** -/
theorem holds_best (hc : Collected before today s) (hdb : HasBest db before) :
    HasBest (addBatch b₆ db) (before ++ today) := by
  intro address hne
  obtain ⟨p, hpre⟩ : ∃ p, ascii NODE_STAT_RESULT_PREFIX.toList = p := ⟨_, rfl⟩
  have hunder : p <+: p ++ address.val := List.prefix_append _ _
  have hlater : (addBatch b₆ db).find? (p ++ address.val) =
      (addBatch b₃ db).find? (p ++ address.val) := by
    have hspares : b₃.Spares p b₆ := by
      rw [← hpre]
      exact (spares_putTestedNodes (by decide) hp.nodes).trans <|
        (spares_putAllNodes (by decide) hp.allNodes).trans (hp.spares_record (by decide))
    exact hspares.find?_addBatch db hunder
  have hearlier : (addBatch b₂ db).find? (p ++ address.val) = db.find? (p ++ address.val) := by
    have hspares : Batch.new.Spares p b₂ := by
      rw [← hpre]
      exact (hc.batchStates _ (by decide)).trans <| (spares_putDay (by decide) hp.number).trans
        (spares_putRps (by decide) hp.rps)
    exact hspares.find?_addBatch db hunder
  have hput : ∀ (e : Blob × BestNodeTest) (c c' : Batch), putLastResults c e = .ok c' →
      ∃ value : Blob, e.2.serialize = .ok value.val ∧
        c' = c.addKeyInternal (p ++ e.1.val) value false := by
    intro e c c' h
    obtain ⟨-, hvalue⟩ := Batch.addNamed_eq_ok (p := NODE_STAT_RESULT_PREFIX) rfl h
    rwa [hpre] at hvalue
  have hinj : ∀ a a' : Blob, p ++ a.val = p ++ a'.val → a = a' :=
    fun a a' h => Subtype.ext (List.append_cancel_left h)
  have hnodup : (s.lastNodesTests.entries.map (fun e => p ++ e.1.val)).Nodup := by
    have hkeys := List.Pairwise.map (S := (· ≠ ·)) (fun a : Blob => p ++ a.val)
      (fun a a' hne h => hne (hinj a a' h)) (nodup_keys s.lastNodesTests)
    rwa [List.map_map] at hkeys
  obtain ⟨hother, hsame⟩ := find?_addBatch_foldlM hput db hp.lastResults hnodup
  rw [findNodeStatLastResults_eq, LevelDb.findNamed_of_ne rfl hne, hpre]
  unfold LevelDb.findOneValueInternal
  rw [hlater]
  -- The record of a node changes in the blocks that test it.
  cases hfind : s.lastNodesTests.find? address with
  | none =>
      have hnone := (hc.lastNodesTests address).mp hfind
      have hnot : p ++ address.val ∉ s.lastNodesTests.entries.map (fun e => p ++ e.1.val) := by
        intro hmem
        obtain ⟨e, he, heq⟩ := List.mem_map.mp hmem
        rw [← hinj _ _ heq, mem_entries.mp he] at hfind
        cases hfind
      obtain ⟨best, hread, hbest⟩ := hdb address hne
      rw [findNodeStatLastResults_eq, LevelDb.findNamed_of_ne rfl hne, hpre] at hread
      rw [hother _ hnot, hearlier, testsOf_append, hnone, List.append_nil]
      exact ⟨best, hread, hbest⟩
  | some best =>
      obtain ⟨value, hvalue, hfound⟩ := hsame (address, best) (mem_entries.mpr hfind)
      have hbest := hc.best address best hfind
      rw [hfound]
      refine ⟨_, BestNodeTest.deserialize_serialize hvalue, ?_⟩
      exact ⟨hbest.untested, hbest.upTo, hbest.last⟩

end Puts

end Block

/-! ## Rounds -/

/-- What a block left in the local variables and the batches, `today` being its tests. -/
structure Processed (w : WorkerNodeTest) (db : LevelDb) (bi : BlockInfo) (day : UInt64)
    (before today : List (Nat × Tested)) (b : Batch) : Prop where
  oneDay : ∀ e ∈ today, e.1 = day.toNat
  run : ∃ s b₁ b₂ b₃ b₄ b₅,
    bi.txs.foldlM ((w.on db).processTransaction bi day)
      { batchStates := Batch.new, allNodesForDay := ⟨∅, 0⟩, allNodes := ⟨∅⟩, nodesRps := ∅,
        lastNodesTests := ∅ } = .ok s ∧
    Collected before today s ∧ (w.on db).Puts bi day s b₁ b₂ b₃ b₄ b₅ b

theorem processed_block {db : LevelDb} {before : List (Nat × Tested)} {n : UInt64}
    (h : HoldsTests db day before) (hbefore : ∀ e ∈ before, e.1 ≤ day.toNat)
    (hblock : (w.on db).processBlock bi n = .ok b) :
    w.Processed db bi day before ((w.testsIn bi.txs).map (fun t => (day.toNat, t))) b := by
  obtain ⟨number, s, b₁, b₂, b₃, b₄, b₅, hnumber, htxs, hp⟩ := processBlock_ok hblock
  obtain rfl := Except.ok.inj (h.day.symm.trans hnumber)
  have hc := (Collected.start before).transactions (w := w.on db) h.best
    (by rw [List.append_nil]; exact hbefore) htxs
  rw [List.nil_append] at hc
  refine ⟨fun e he => ?_, s, b₁, b₂, b₃, b₄, b₅, htxs, hc, hp⟩
  obtain ⟨t, -, rfl⟩ := List.mem_map.mp he
  rfl

/-- **A block** adds its tests to those of the day, and a state block ends the day. -/
theorem Processed.holdsTests {db : LevelDb} {before today : List (Nat × Tested)}
    (hb : w.Processed db bi day before today b) (h : HoldsTests db day before) :
    HoldsTests (addBatch b db) (if bi.header.isStateBlock then day + 1 else day)
      (before ++ today) := by
  obtain ⟨s, b₁, b₂, b₃, b₄, b₅, -, hc, hp⟩ := hb.run
  exact ⟨hp.holds_day hc h.day, fun _ hne d => hp.holds_rps hc rfl hb.oneDay h.rps hne d,
    hp.holds_nodes hc rfl hb.oneDay h.nodes, hp.holds_best hc h.best⟩

theorem work_written {db' : LevelDb} (h : w.work bi = (.written (), db')) :
    ∃ k hash, recordedIn w.leveldbNodeTest.findNodeStatBlock = some (k, hash) ∧
      k < bi.blockNumber.toNat ∧ w.Applies w.leveldbNodeTest bi db' := by
  have hwork := guardedRound_written h
  have happlies : w.Applies w.leveldbNodeTest bi db' := by
    split at hwork
    · cases (Prod.mk.inj hwork).1
    · rename_i batchStates hblock
      exact ⟨batchStates, hblock, (Prod.mk.inj hwork).2.symm⟩
  unfold work guardedRound at h
  cases hrecord : w.leveldbNodeTest.findNodeStatBlock with
  | error e =>
      rw [hrecord] at h
      cases (Prod.mk.inj h).1
  | ok record =>
      cases hn : bi.header.blockNumber with
      | none =>
          simp only [hrecord, hn] at h
          cases (Prod.mk.inj h).1
      | some number =>
          have hnum : UInt64.ofNat number = bi.blockNumber := by
            unfold BlockInfo.blockNumber; rw [hn]; rfl
          simp only [hrecord, hn, hnum] at h
          split at h
          · cases (Prod.mk.inj h).1
          · cases (Prod.mk.inj h).1
          · rename_i hguards
            obtain ⟨k, hash, hk, hlt, -⟩ := @guards_passed (.ok record) _ _ _ rfl hguards
            exact ⟨k, hash, hk, hlt, happlies⟩

/-- A round that does not write leaves the database as it was. -/
theorem work_not_written {r : Outcome Unit} {db' : LevelDb} (h : w.work bi = (r, db'))
    (hr : r ≠ .written ()) : db' = w.leveldbNodeTest := by
  unfold work guardedRound at h
  split at h
  · exact (Prod.mk.inj h).2.symm
  · split at h
    · exact (Prod.mk.inj h).2.symm
    · split at h
      · exact (Prod.mk.inj h).2.symm
      · exact (Prod.mk.inj h).2.symm
      · dsimp only at h
        split at h
        · exact (Prod.mk.inj h).2.symm
        · exact absurd (Prod.mk.inj h).1.symm hr

/-! ## Runs -/

/-- The blocks that a round takes in. -/
def taken (r : Outcome Unit) (bi : BlockInfo) : List BlockInfo := if r = .written () then [bi] else []

/-- The databases that the worker can reach from an empty one, with the blocks it has written: rounds
with any blocks, some of which it skips or fails on. It remembers nothing outside its database. -/
inductive Reached (w : WorkerNodeTest) : LevelDb → List BlockInfo → Prop where
  | start : Reached w ∅ []
  | block {db db' : LevelDb} {blocks : List BlockInfo} {bi : BlockInfo} {r : Outcome Unit} :
      Reached w db blocks → (w.on db).work bi = (r, db') → Reached w db' (blocks ++ taken r bi)

/-- What the blocks bring the worker. -/
def eventsOf (blocks : List BlockInfo) : List NodeTestEvent := blocks.flatMap BlockInfo.nodeTestEvents

/-- The number of the current day. -/
def daysOf (blocks : List BlockInfo) : Nat := (eventsOf blocks).count .stateBlock

theorem eventsOf_concat (blocks : List BlockInfo) (bi : BlockInfo) :
    eventsOf (blocks ++ [bi]) = eventsOf blocks ++ bi.nodeTestEvents := by
  unfold eventsOf
  rw [List.flatMap_append, List.flatMap_singleton]

theorem daysOf_concat (blocks : List BlockInfo) (bi : BlockInfo) :
    daysOf (blocks ++ [bi]) = daysOf blocks + if bi.header.isStateBlock then 1 else 0 := by
  unfold daysOf
  rw [eventsOf_concat, List.count_append, count_block]

/-- What a run keeps. -/
structure Kept (w : WorkerNodeTest) (db : LevelDb) (blocks : List BlockInfo) : Prop where
  /-- Each state block raises the recorded number, which is of type `size_t`. -/
  recorded : ∃ k hash, recordedIn db.findNodeStatBlock = some (k, hash) ∧ daysOf blocks ≤ k ∧ k < 2 ^ 64
  holds : HoldsTests db (UInt64.ofNat (daysOf blocks)) (w.datedTests 0 (eventsOf blocks))

theorem kept_start (w : WorkerNodeTest) : Kept w ∅ [] where
  recorded := ⟨0, none, rfl, le_refl _, by decide⟩
  holds :=
    { day := rfl
      rps := fun _ hne d => by rw [findNodeStatRps_eq hne]; rfl
      nodes := fun d => ⟨⟨∅, 0⟩, rfl, fun _ => iff_of_false (fun h => by cases h) (fun h => h rfl)⟩
      best := fun address hne => by
        refine ⟨BestNodeTest.new true, ?_, ⟨fun _ => ⟨rfl, rfl, rfl⟩, fun e he => ?_, fun e he => ?_⟩⟩
        · rw [findNodeStatLastResults_eq, LevelDb.findNamed_of_ne rfl hne]
          rfl
        · cases he
        · cases he }

theorem Kept.day_eq {db : LevelDb} {blocks : List BlockInfo} (h : Kept w db blocks) :
    (UInt64.ofNat (daysOf blocks)).toNat = daysOf blocks := by
  obtain ⟨k, hash, -, hdays, hsmall⟩ := h.recorded
  rw [UInt64.toNat_ofNat', Nat.mod_eq_of_lt (by omega)]

/-- The tests of one more block. -/
theorem Kept.datedTests_concat {db : LevelDb} {blocks : List BlockInfo} (h : Kept w db blocks)
    (bi : BlockInfo) : w.datedTests 0 (eventsOf (blocks ++ [bi])) =
      w.datedTests 0 (eventsOf blocks) ++
        (w.testsIn bi.txs).map (fun t => ((UInt64.ofNat (daysOf blocks)).toNat, t)) := by
  rw [eventsOf_concat, datedTests_append, datedTests_block, h.day_eq, Nat.zero_add]
  rfl

/-- What a round that writes has done. -/
theorem Kept.processed {db db' : LevelDb} {blocks : List BlockInfo} (h : Kept w db blocks)
    (hround : (w.on db).work bi = (.written (), db')) :
    ∃ b, db' = addBatch b db ∧
      w.Processed db bi (UInt64.ofNat (daysOf blocks)) (w.datedTests 0 (eventsOf blocks))
        ((w.testsIn bi.txs).map (fun t => ((UInt64.ofNat (daysOf blocks)).toNat, t))) b := by
  obtain ⟨-, -, -, -, b, hblock, rfl⟩ := work_written hround
  refine ⟨b, rfl, processed_block h.holds (fun e he => ?_) hblock⟩
  rw [h.day_eq]
  have hle := day_le_of_mem he
  rwa [Nat.zero_add] at hle

/-- **One round.** -/
theorem Kept.block {db db' : LevelDb} {blocks : List BlockInfo} {r : Outcome Unit}
    (h : Kept w db blocks) (hround : (w.on db).work bi = (r, db')) :
    Kept w db' (blocks ++ taken r bi) := by
  unfold taken
  by_cases hr : r = .written ()
  · subst hr
    rw [if_pos rfl]
    obtain ⟨k, hash, hk, hlt, happlies⟩ := work_written hround
    obtain ⟨k', hash', hk', hdays, hsmall⟩ := h.recorded
    obtain ⟨rfl, -⟩ := Prod.mk.inj (Option.some.inj (hk'.symm.trans hk))
    have hrecorded := applies_records happlies
    have hnumber := bi.blockNumber.toNat_lt
    have hmore : daysOf (blocks ++ [bi]) ≤ bi.blockNumber.toNat := by
      rw [daysOf_concat]
      split <;> omega
    refine ⟨⟨_, _, hrecorded, hmore, hnumber⟩, ?_⟩
    obtain ⟨b, rfl, hprocessed⟩ := h.processed hround
    have hnext : UInt64.ofNat (daysOf (blocks ++ [bi])) =
        if bi.header.isStateBlock then UInt64.ofNat (daysOf blocks) + 1
        else UInt64.ofNat (daysOf blocks) := by
      rw [daysOf_concat]
      split
      · exact UInt64.ofNat_add _ _
      · rfl
    rw [h.datedTests_concat, hnext]
    exact hprocessed.holdsTests h.holds
  · rw [if_neg hr, List.append_nil, work_not_written hround hr]
    exact h

theorem Reached.kept {db : LevelDb} {blocks : List BlockInfo} (h : w.Reached db blocks) :
    Kept w db blocks := by
  induction h with
  | start => exact kept_start w
  | block _ hround ih => exact ih.block hround

end WorkerNodeTest

/-- What is told about the last results of a node. -/
def BestNodeTest.view (best : BestNodeTest) : UInt64 × Bool × List (Blob × UInt64 × FilePosition) :=
  (best.day, best.isMaxElement, best.tests.map BestNodeElement.result)

theorem BestOf.view_eq {l : List (Nat × Tested)} {best best' : BestNodeTest} (h : BestOf l best)
    (h' : BestOf l best') : best.view = best'.view := by
  unfold BestNodeTest.view
  by_cases hnil : l = []
  · obtain ⟨htests, hday, hmax⟩ := h.untested hnil
    obtain ⟨htests', hday', hmax'⟩ := h'.untested hnil
    rw [htests, hday, hmax, htests', hday', hmax']
  · obtain ⟨e, he⟩ := Option.ne_none_iff_exists'.mp (mt List.getLast?_eq_none_iff.mp hnil)
    obtain ⟨hday, hmax, hresults⟩ := h.last e he
    obtain ⟨hday', hmax', hresults'⟩ := h'.last e he
    rw [hmax, hresults, hmax', hresults', UInt64.toNat_inj.mp (hday.trans hday'.symm)]

/-- Databases with the same statistics. -/
structure SameStatistics (db db' : LevelDb) : Prop where
  rps : ∀ address day, db.findNodeStatRps address day = db'.findNodeStatRps address day
  nodes : ∀ day, (db.findAllTestedNodesForDay day).map AllTestedNodes.nodes =
    (db'.findAllTestedNodesForDay day).map AllTestedNodes.nodes
  best : ∀ address, (db.findNodeStatLastResults address).map BestNodeTest.view =
    (db'.findNodeStatLastResults address).map BestNodeTest.view

/-- The tests decide the statistics. -/
theorem HoldsTests.same {db db' : LevelDb} {day : UInt64} {l : List (Nat × Tested)}
    (h : HoldsTests db day l) (h' : HoldsTests db' day l) : SameStatistics db db' where
  rps := by
    intro address d
    by_cases hne : address = ∅
    · rw [hne, findNodeStatRps_empty, findNodeStatRps_empty]
    · rw [h.rps address hne, h'.rps address hne]
  nodes := by
    intro d
    obtain ⟨n, hn, hnames⟩ := h.nodes d
    obtain ⟨n', hn', hnames'⟩ := h'.nodes d
    rw [hn, hn']
    refine congrArg Except.ok (OrdMap.ext (fun address => Option.ext (fun u => ?_)))
    exact (hnames address).trans (hnames' address).symm
  best := by
    intro address
    by_cases hne : address = ∅
    · rw [hne, findNodeStatLastResults_eq, findNodeStatLastResults_eq, LevelDb.findNamed_empty rfl,
        LevelDb.findNamed_empty rfl]
    · obtain ⟨best, hread, hbest⟩ := h.best address hne
      obtain ⟨best', hread', hbest'⟩ := h'.best address hne
      rw [hread, hread']
      exact congrArg Except.ok (hbest.view_eq hbest')

namespace WorkerNodeTest

theorem Reached.next {w : WorkerNodeTest} {db : LevelDb} {blocks : List BlockInfo}
    (h : w.Reached db blocks) (bi : BlockInfo) (hwritten : ((w.on db).work bi).1 = .written ()) :
    w.Reached ((w.on db).work bi).2 (blocks ++ [bi]) := by
  have hround : w.Reached ((w.on db).work bi).2 (blocks ++ taken ((w.on db).work bi).1 bi) :=
    h.block Prod.mk.eta.symm
  rw [hwritten] at hround
  exact hround

end WorkerNodeTest

end TorrentNode
