import TorrentNode.Storage.Frames
import TorrentNode.Workers.NodeTest

/-!
# The days of the node tests

A state block ends a day. What the chain brings the node-test worker is a sequence of
tests and of ends of days, and the blocks are only a way of cutting it up. The worker
cuts a day at the blocks, collects the tests of a block, and puts them behind the
records of the day.
-/

namespace TorrentNode

/-- What the chain brings the node-test worker. -/
inductive NodeTestEvent where
  | test (data : Blob) (filePos : FilePosition)
  | stateBlock
  deriving DecidableEq

/-- The node tests of a block, and the end of the day behind those of a state block. -/
def BlockInfo.nodeTestEvents (bi : BlockInfo) : List NodeTestEvent :=
  (bi.txs.filter TransactionInfo.isIntStatusNodeTest).map (fun tx => .test tx.data tx.filePos) ++
    if bi.header.isStateBlock then [.stateBlock] else []

/-- What the statistics keep of a test. -/
structure Tested where
  serverAddress : Blob
  geo : Blob
  rps : UInt64
  txPos : FilePosition
  isForwardSort : Bool
  deriving DecidableEq

/-- What is kept of a test. -/
def Tested.result (t : Tested) : Blob × UInt64 × FilePosition := (t.geo, t.rps, t.txPos)

/-- What is kept of it, as it is stored. -/
def BestNodeElement.result (e : BestNodeElement) : Blob × UInt64 × FilePosition :=
  (e.geo, e.rps, e.txPos)

/-- The tests of one node. -/
def testsOf (address : Blob) (l : List (Nat × Tested)) : List (Nat × Tested) :=
  l.filter (fun e => e.2.serverAddress = address)

/-- The tests of one day. -/
def testsOn (day : Nat) (l : List (Nat × Tested)) : List (Nat × Tested) :=
  l.filter (fun e => e.1 = day)

theorem mem_testsOf {address : Blob} {l : List (Nat × Tested)} {e : Nat × Tested} :
    e ∈ testsOf address l ↔ e ∈ l ∧ e.2.serverAddress = address := by
  unfold testsOf
  rw [List.mem_filter, decide_eq_true_eq]

theorem testsOf_append (address : Blob) (l l' : List (Nat × Tested)) :
    testsOf address (l ++ l') = testsOf address l ++ testsOf address l' := List.filter_append ..

theorem testsOn_append (day : Nat) (l l' : List (Nat × Tested)) :
    testsOn day (l ++ l') = testsOn day l ++ testsOn day l' := List.filter_append ..

theorem testsOf_singleton (address : Blob) (e : Nat × Tested) :
    testsOf address [e] = if e.2.serverAddress = address then [e] else [] := by
  by_cases h : e.2.serverAddress = address
  · rw [if_pos h]
    exact List.filter_cons_of_pos (decide_eq_true h)
  · rw [if_neg h]
    exact List.filter_cons_of_neg (fun he => h (of_decide_eq_true he))

/-! ## The best results -/

/-- A record holds the results of the last day of these tests of a node. -/
structure BestOf (l : List (Nat × Tested)) (best : BestNodeTest) : Prop where
  untested : l = [] → best.tests = [] ∧ best.day = 0 ∧ best.isMaxElement = true
  upTo : ∀ e ∈ l, e.1 ≤ best.day.toNat
  last : ∀ e, l.getLast? = some e → best.day.toNat = e.1 ∧
    best.isMaxElement = e.2.isForwardSort ∧
    best.tests.map BestNodeElement.result = (testsOn e.1 l).map (fun e => e.2.result)

namespace BestOf

variable {l : List (Nat × Tested)} {best : BestNodeTest}

/-- There are results exactly where there was a test. -/
theorem tests_eq_nil (h : BestOf l best) : best.tests = [] ↔ l = [] := by
  constructor
  · intro hnil
    by_contra hne
    obtain ⟨e, he⟩ := Option.ne_none_iff_exists'.mp (mt List.getLast?_eq_none_iff.mp hne)
    have hresults := (h.last e he).2.2
    rw [hnil, List.map_nil, eq_comm, List.map_eq_nil_iff] at hresults
    have hmem : e ∈ testsOn e.1 l :=
      List.mem_filter.mpr ⟨List.mem_of_getLast? he, decide_eq_true rfl⟩
    rw [hresults] at hmem
    cases hmem
  · exact fun hnil => (h.untested hnil).1

/-- **One more test**, on the last day or on a later one. -/
theorem addElement (h : BestOf l best) {day : UInt64} (hday : ∀ e ∈ l, e.1 ≤ day.toNat) (t : Tested)
    {element : BestNodeElement} (helement : element.result = t.result) :
    BestOf (l ++ [(day.toNat, t)])
      { (if best.tests.isEmpty then BestNodeTest.new false else best).addElement element day with
        isMaxElement := t.isForwardSort } := by
  have hresults : ((if best.tests.isEmpty then BestNodeTest.new false else best).addElement element
      day).day = day ∧
      ((if best.tests.isEmpty then BestNodeTest.new false else best).addElement element day).tests.map
        BestNodeElement.result = (testsOn day.toNat (l ++ [(day.toNat, t)])).map (fun e => e.2.result) := by
    have hnew : testsOn day.toNat [(day.toNat, t)] = [(day.toNat, t)] :=
      List.filter_cons_of_pos (decide_eq_true rfl)
    rw [testsOn_append, hnew, List.map_append, List.map_singleton]
    -- The first test of the node, another one on the same day, or the first one of a later day.
    by_cases hnil : l = []
    · have htests := (h.untested hnil).1
      rw [if_pos (by rw [htests]; rfl), hnil]
      unfold BestNodeTest.addElement
      by_cases hzero : (BestNodeTest.new false).day ≠ day
      · rw [if_pos hzero]
        exact ⟨rfl, congrArg (fun r => [r]) helement⟩
      · rw [if_neg hzero]
        exact ⟨not_not.mp hzero, congrArg (fun r => [r]) helement⟩
    · obtain ⟨e, he⟩ := Option.ne_none_iff_exists'.mp (mt List.getLast?_eq_none_iff.mp hnil)
      obtain ⟨heday, -, hold⟩ := h.last e he
      have htests : best.tests ≠ [] := fun hnone => hnil (h.tests_eq_nil.mp hnone)
      rw [if_neg (by rwa [List.isEmpty_iff])]
      unfold BestNodeTest.addElement
      by_cases hsame : best.day = day
      · rw [if_neg (not_not.mpr hsame), ← hsame, heday, ← hold]
        refine ⟨rfl, ?_⟩
        rw [List.map_append, List.map_singleton, helement]
      · -- the day of the record is over, so nothing before is of this day
        have hlast := hday e (List.mem_of_getLast? he)
        have hlt : best.day.toNat < day.toNat := by
          have hne : best.day.toNat ≠ day.toNat := fun heq => hsame (UInt64.toNat_inj.mp heq)
          omega
        have hnone : testsOn day.toNat l = [] := by
          refine List.filter_eq_nil_iff.mpr (fun x hx => ?_)
          rw [decide_eq_true_eq]
          have := h.upTo x hx
          omega
        rw [if_pos hsame, hnone]
        exact ⟨rfl, congrArg (fun r => [r]) helement⟩
  refine ⟨fun hnil => by simp at hnil, ?_, ?_⟩
  · intro e he
    show e.1 ≤ (BestNodeTest.addElement _ element day).day.toNat
    rw [hresults.1]
    rcases List.mem_append.mp he with he | he
    · exact hday e he
    · rw [List.mem_singleton.mp he]
  · intro e he
    rw [List.getLast?_append, List.getLast?_singleton, Option.some_or] at he
    obtain rfl := Option.some.inj he
    exact ⟨congrArg UInt64.toNat hresults.1, rfl, hresults.2⟩

end BestOf

namespace WorkerNodeTest

variable {w : WorkerNodeTest}

/-- What a transaction tests; nothing where its data do not parse, or name no node. -/
def tested (w : WorkerNodeTest) (data : Blob) (filePos : FilePosition) : Option Tested :=
  match w.parseTestNodeTransaction { (default : TransactionInfo) with data } with
  | .ok (some r) =>
    if r.serverAddress.isEmpty then none
    else some { serverAddress := r.serverAddress, geo := r.geo, rps := r.rps, txPos := filePos,
                isForwardSort := r.isForwardSort }
  | _ => none

/-- The tests that count, with their days; `day` is that of the first ones. -/
def datedTests (w : WorkerNodeTest) : Nat → List NodeTestEvent → List (Nat × Tested)
  | _, [] => []
  | day, .stateBlock :: events => datedTests w (day + 1) events
  | day, .test data filePos :: events =>
    ((w.tested data filePos).map (fun t => (day, t))).toList ++ datedTests w day events

theorem datedTests_append : ∀ (events events' : List NodeTestEvent) (day : Nat),
    w.datedTests day (events ++ events') =
      w.datedTests day events ++ w.datedTests (day + events.count .stateBlock) events'
  | [], _, _ => rfl
  | .stateBlock :: events, events', day => by
      have ih := datedTests_append events events' (day + 1)
      rw [List.cons_append, List.count_cons_self, datedTests, datedTests, ih]
      congr 2
      omega
  | .test data filePos :: events, events', day => by
      have ih := datedTests_append events events' day
      rw [List.cons_append, datedTests, datedTests, ih, List.append_assoc,
        List.count_cons_of_ne (by simp)]

/-- No test is of a day that has not come. -/
theorem day_le_of_mem : ∀ {events : List NodeTestEvent} {day : Nat} {e : Nat × Tested},
    e ∈ w.datedTests day events → e.1 ≤ day + events.count .stateBlock
  | .stateBlock :: events, day, e, h => by
      have ih : e.1 ≤ day + 1 + events.count .stateBlock := day_le_of_mem h
      rw [List.count_cons_self]
      omega
  | .test data filePos :: events, day, e, h => by
      rw [List.count_cons_of_ne (by simp)]
      rcases List.mem_append.mp h with h | h
      · obtain ⟨t, -, rfl⟩ := Option.map_eq_some_iff.mp (Option.mem_toList.mp h)
        exact Nat.le_add_right _ _
      · exact day_le_of_mem h

/-- The tests of a block that count. -/
def testsIn (w : WorkerNodeTest) (txs : List TransactionInfo) : List Tested :=
  (txs.filter TransactionInfo.isIntStatusNodeTest).filterMap (fun tx => w.tested tx.data tx.filePos)

theorem datedTests_block (bi : BlockInfo) (day : Nat) :
    w.datedTests day bi.nodeTestEvents = (w.testsIn bi.txs).map (fun t => (day, t)) := by
  unfold BlockInfo.nodeTestEvents testsIn
  obtain ⟨txs, htxs⟩ : ∃ txs, bi.txs.filter TransactionInfo.isIntStatusNodeTest = txs := ⟨_, rfl⟩
  rw [htxs]
  have hend : ∀ day, w.datedTests day (if bi.header.isStateBlock then [.stateBlock] else []) = [] := by
    intro day
    split <;> rfl
  rw [datedTests_append, hend, List.append_nil]
  clear htxs
  induction txs with
  | nil => rfl
  | cons tx txs ih =>
      rw [List.map_cons, datedTests, ih]
      cases htested : w.tested tx.data tx.filePos with
      | none =>
          rw [List.filterMap_cons_none (f := fun tx : TransactionInfo => w.tested tx.data tx.filePos)
            htested]
          rfl
      | some t =>
          rw [List.filterMap_cons_some (f := fun tx : TransactionInfo => w.tested tx.data tx.filePos)
            htested]
          rfl

theorem count_block (bi : BlockInfo) :
    bi.nodeTestEvents.count .stateBlock = if bi.header.isStateBlock then 1 else 0 := by
  unfold BlockInfo.nodeTestEvents
  rw [List.count_append]
  have hnone : ((bi.txs.filter TransactionInfo.isIntStatusNodeTest).map
      (fun tx => NodeTestEvent.test tx.data tx.filePos)).count .stateBlock = 0 := by
    refine List.count_eq_zero.mpr (fun hmem => ?_)
    obtain ⟨_, -, h⟩ := List.mem_map.mp hmem
    cases h
  rw [hnone, Nat.zero_add]
  split <;> rfl

/-! ## The tests of a block -/

/-- Only the data decide what a transaction tests. -/
theorem parseTestNodeTransaction_eq (tx : TransactionInfo) :
    w.parseTestNodeTransaction tx =
      (fun r => r.map (fun r => { r with testerAddress := tx.fromAddress })) <$>
        w.parseTestNodeTransaction { (default : TransactionInfo) with data := tx.data } := by
  unfold parseTestNodeTransaction
  cases w.parseJson tx.data.val with
  | none => rfl
  | some doc =>
      dsimp only
      rw [map_bind]
      refine bind_congr (fun method => ?_)
      by_cases hmethod : method.bind Json.getString = some (ascii "mhAddNodeCheckResult".toList)
      · simp only [if_pos hmethod, map_bind, map_pure, Option.map_some]
      · simp only [if_neg hmethod, map_pure, Option.map_none]

theorem tested_eq_none {tx : TransactionInfo} (h : w.tested tx.data tx.filePos = none) :
    (∃ e, w.parseTestNodeTransaction tx = .error e) ∨ w.parseTestNodeTransaction tx = .ok none ∨
      ∃ r, w.parseTestNodeTransaction tx = .ok (some r) ∧ r.serverAddress = ∅ := by
  rw [parseTestNodeTransaction_eq tx]
  unfold tested at h
  cases hparse : w.parseTestNodeTransaction { (default : TransactionInfo) with data := tx.data } with
  | error e => exact Or.inl ⟨e, rfl⟩
  | ok parsed =>
      cases parsed with
      | none => exact Or.inr (Or.inl rfl)
      | some r =>
          rw [hparse] at h
          by_cases hempty : r.serverAddress.isEmpty = true
          · refine Or.inr (Or.inr ⟨_, rfl, ?_⟩)
            by_contra hne
            rw [Blob.isEmpty_eq_false.mpr hne] at hempty
            cases hempty
          · simp only [if_neg hempty] at h
            cases h

theorem tested_eq_some {tx : TransactionInfo} {t : Tested} (h : w.tested tx.data tx.filePos = some t) :
    t.serverAddress ≠ ∅ ∧ ∃ r, w.parseTestNodeTransaction tx = .ok (some r) ∧
      t = ⟨r.serverAddress, r.geo, r.rps, tx.filePos, r.isForwardSort⟩ := by
  rw [parseTestNodeTransaction_eq tx]
  unfold tested at h
  cases hparse : w.parseTestNodeTransaction { (default : TransactionInfo) with data := tx.data } with
  | error e =>
      rw [hparse] at h
      cases h
  | ok parsed =>
      rw [hparse] at h
      cases parsed with
      | none => cases h
      | some r =>
          by_cases hempty : r.serverAddress.isEmpty = true
          · simp only [if_pos hempty] at h
            cases h
          · simp only [if_neg hempty] at h
            obtain rfl := Option.some.inj h
            exact ⟨Blob.isEmpty_eq_false.mp (eq_false_of_ne_true hempty), _, rfl, rfl⟩

/-- The records of the database hold the results of these tests. -/
def HasBest (db : LevelDb) (l : List (Nat × Tested)) : Prop :=
  ∀ address, address ≠ ∅ →
    ∃ best, db.findNodeStatLastResults address = .ok best ∧ BestOf (testsOf address l) best

/-- What the local variables hold of the tests of today, those of the block so far. -/
structure Collected (before today : List (Nat × Tested)) (s : NodeTestState) : Prop where
  named : ∀ e ∈ today, e.2.serverAddress ≠ ∅
  nodesRps : ∀ address, s.nodesRps.find? address = none ↔ testsOf address today = []
  rps : ∀ address rps, s.nodesRps.find? address = some rps →
    rps.rps = (testsOf address today).map (fun e => e.2.rps)
  nodes : ∀ address, s.allNodesForDay.nodes.find? address = some () ↔ testsOf address today ≠ []
  lastNodesTests : ∀ address, s.lastNodesTests.find? address = none ↔ testsOf address today = []
  best : ∀ address best, s.lastNodesTests.find? address = some best →
    BestOf (testsOf address (before ++ today)) best
  batchStates : ∀ p, Apart p (ascii NODE_STAT_TRUST_PREFIX.toList) →
    Batch.new.Spares p s.batchStates

namespace Collected

variable {before today : List (Nat × Tested)} {s : NodeTestState}

theorem start (before : List (Nat × Tested)) : Collected before []
    { batchStates := Batch.new, allNodesForDay := ⟨∅, 0⟩, allNodes := ⟨∅⟩, nodesRps := ∅,
      lastNodesTests := ∅ } where
  named := fun e he => by cases he
  nodesRps := fun _ => iff_of_true rfl rfl
  rps := fun _ _ h => by cases h
  nodes := fun _ => iff_of_false (fun h => by cases h) (fun h => h rfl)
  lastNodesTests := fun _ => iff_of_true rfl rfl
  best := fun _ _ h => by cases h
  batchStates := fun p _ => Batch.Spares.refl p _

/-- The results so far are those of the block, or else of the database. -/
theorem findLastNodeTest (h : Collected before today s) (hdb : HasBest w.leveldbNodeTest before)
    {address : Blob} (hne : address ≠ ∅) :
    ∃ best, BestOf (testsOf address (before ++ today)) best ∧
      w.findLastNodeTest s address =
        .ok (if best.tests.isEmpty then BestNodeTest.new false else best) := by
  unfold WorkerNodeTest.findLastNodeTest
  cases hfind : s.lastNodesTests.find? address with
  | some best =>
      have hbest := h.best address best hfind
      refine ⟨best, hbest, ?_⟩
      have htoday : testsOf address today ≠ [] := by
        intro hnil
        rw [(h.lastNodesTests address).mpr hnil] at hfind
        cases hfind
      have htests : best.tests ≠ [] := by
        rw [ne_eq, hbest.tests_eq_nil, testsOf_append]
        exact fun hnil => htoday (List.append_eq_nil_iff.mp hnil).2
      rw [if_neg (by rwa [List.isEmpty_iff])]
      rfl
  | none =>
      obtain ⟨best, hread, hbest⟩ := hdb address hne
      refine ⟨best, ?_, ?_⟩
      · rw [testsOf_append, (h.lastNodesTests address).mp hfind, List.append_nil]
        exact hbest
      · simp only [hread]
        rfl

/-- What a test changes. -/
theorem processTestTransaction_eq {tx : TransactionInfo} {r : NodeTestResult} {day : UInt64}
    {bi : BlockInfo} {found : BestNodeTest} (hparse : w.parseTestNodeTransaction tx = .ok (some r))
    (hfind : w.findLastNodeTest s r.serverAddress = .ok found) :
    w.processTestTransaction tx day bi s = .ok
      { s with
        lastNodesTests := s.lastNodesTests.insert r.serverAddress
          { found.addElement ⟨bi.header.timestamp, r.geo, r.rps, tx.filePos⟩ day with
            isMaxElement := r.isForwardSort }
        nodesRps := s.nodesRps.insert r.serverAddress
          ⟨((s.nodesRps.find? r.serverAddress).getD ⟨[]⟩).rps ++ [r.rps]⟩
        allNodesForDay :=
          { s.allNodesForDay with nodes := s.allNodesForDay.nodes.insert r.serverAddress () } } := by
  unfold processTestTransaction tryTestTransaction
  rw [hparse]
  simp only [Bind.bind, Except.bind, hfind, Pure.pure, Except.pure]

/-- **One more test.** -/
theorem test (h : Collected before today s) (hdb : HasBest w.leveldbNodeTest before) {day : UInt64}
    (hday : ∀ e ∈ before ++ today, e.1 ≤ day.toNat) {tx : TransactionInfo} {bi : BlockInfo} {t : Tested}
    (ht : w.tested tx.data tx.filePos = some t) {s' : NodeTestState}
    (hstep : w.processTestTransaction tx day bi s = .ok s') :
    Collected before (today ++ [(day.toNat, t)]) s' := by
  obtain ⟨hne, r, hparse, ht⟩ := tested_eq_some ht
  have hr : r.serverAddress = t.serverAddress := by rw [ht]
  obtain ⟨best, hbest, hfind⟩ := h.findLastNodeTest hdb hne
  rw [← hr] at hfind
  rw [processTestTransaction_eq hparse hfind, hr] at hstep
  obtain rfl := Except.ok.inj hstep
  have hother : ∀ address, t.serverAddress ≠ address →
      testsOf address (today ++ [(day.toNat, t)]) = testsOf address today := by
    intro address ha
    rw [testsOf_append, testsOf_singleton, if_neg ha, List.append_nil]
  have hself : testsOf t.serverAddress (today ++ [(day.toNat, t)]) =
      testsOf t.serverAddress today ++ [(day.toNat, t)] := by
    rw [testsOf_append, testsOf_singleton, if_pos rfl]
  -- Each table takes the test under its node and keeps the others.
  refine ⟨?_, ?_, ?_, ?_, ?_, ?_, h.batchStates⟩
  · intro e he
    rcases List.mem_append.mp he with he | he
    · exact h.named e he
    · rw [List.mem_singleton.mp he]
      exact hne
  · intro address
    by_cases ha : t.serverAddress = address
    · subst ha
      rw [hself, OrdMap.find?_insert_self]
      simp
    · rw [hother address ha, OrdMap.find?_insert_ne (Ne.symm ha)]
      exact h.nodesRps address
  · intro address rps hrps
    by_cases ha : t.serverAddress = address
    · subst ha
      rw [OrdMap.find?_insert_self] at hrps
      obtain rfl := Option.some.inj hrps
      rw [hself, List.map_append, List.map_singleton]
      have hold : ((s.nodesRps.find? t.serverAddress).getD ⟨[]⟩).rps =
          (testsOf t.serverAddress today).map (fun e => e.2.rps) := by
        cases hfound : s.nodesRps.find? t.serverAddress with
        | none => rw [(h.nodesRps _).mp hfound]; rfl
        | some rps => exact h.rps _ _ hfound
      rw [hold, ht]
    · rw [OrdMap.find?_insert_ne (Ne.symm ha)] at hrps
      rw [hother address ha]
      exact h.rps address rps hrps
  · intro address
    by_cases ha : t.serverAddress = address
    · subst ha
      rw [hself, OrdMap.find?_insert_self]
      simp
    · rw [hother address ha, OrdMap.find?_insert_ne (Ne.symm ha)]
      exact h.nodes address
  · intro address
    by_cases ha : t.serverAddress = address
    · subst ha
      rw [hself, OrdMap.find?_insert_self]
      simp
    · rw [hother address ha, OrdMap.find?_insert_ne (Ne.symm ha)]
      exact h.lastNodesTests address
  · intro address best' hbest'
    rw [← List.append_assoc]
    by_cases ha : t.serverAddress = address
    · subst ha
      rw [OrdMap.find?_insert_self] at hbest'
      obtain rfl := Option.some.inj hbest'
      rw [testsOf_append, testsOf_singleton, if_pos rfl]
      have hforward : r.isForwardSort = t.isForwardSort := by rw [ht]
      rw [hforward]
      exact hbest.addElement (fun e he => hday e (mem_testsOf.mp he).1) t (by rw [ht]; rfl)
    · rw [OrdMap.find?_insert_ne (Ne.symm ha)] at hbest'
      rw [testsOf_append, testsOf_singleton, if_neg ha, List.append_nil]
      exact h.best address best' hbest'

/-- A transaction whose data do not parse counts for nothing. -/
theorem processTestTransaction_untested (h : Collected before today s) {tx : TransactionInfo}
    {day : UInt64} {bi : BlockInfo} (ht : w.tested tx.data tx.filePos = none) {s' : NodeTestState}
    (hstep : w.processTestTransaction tx day bi s = .ok s') : s' = s := by
  unfold processTestTransaction tryTestTransaction at hstep
  rcases tested_eq_none ht with ⟨e, hparse⟩ | hparse | ⟨r, hparse, hempty⟩
  · rw [hparse] at hstep
    cases e <;> cases hstep <;> rfl
  · rw [hparse] at hstep
    cases hstep
    rfl
  · -- a node without a name: the key of its record cannot be made
    have hnone : s.lastNodesTests.find? r.serverAddress = none := by
      rw [h.lastNodesTests, List.eq_nil_iff_forall_not_mem]
      intro e he
      obtain ⟨hmem, hname⟩ := mem_testsOf.mp he
      exact h.named e hmem (hname.trans hempty)
    have hfind : w.leveldbNodeTest.findNodeStatLastResults r.serverAddress =
        .error (.exception "Incorrect parameter") := by
      rw [hempty]
      exact LevelDb.findNamed_empty (p := NODE_STAT_RESULT_PREFIX) rfl
    rw [hparse] at hstep
    simp only [Bind.bind, Except.bind, WorkerNodeTest.findLastNodeTest, hnone, hfind] at hstep
    exact (Except.ok.inj hstep).symm

/-- A transaction of any kind. -/
theorem transaction (h : Collected before today s) (hdb : HasBest w.leveldbNodeTest before)
    {day : UInt64} (hday : ∀ e ∈ before ++ today, e.1 ≤ day.toNat) {bi : BlockInfo}
    {tx : TransactionInfo} {s' : NodeTestState} (hstep : w.processTransaction bi day s tx = .ok s') :
    Collected before (today ++ (w.testsIn [tx]).map (fun t => (day.toNat, t))) s' := by
  unfold processTransaction at hstep
  unfold testsIn
  -- A node test, a transaction of a state block, or a registration.
  by_cases htest : tx.isIntStatusNodeTest = true
  · rw [if_pos htest] at hstep
    rw [List.filter_cons_of_pos htest, List.filter_nil, List.filterMap_cons, List.filterMap_nil]
    cases ht : w.tested tx.data tx.filePos with
    | none =>
        rw [h.processTestTransaction_untested ht hstep, List.map_nil, List.append_nil]
        exact h
    | some t => exact h.test hdb hday ht hstep
  · rw [if_neg htest] at hstep
    rw [List.filter_cons_of_neg htest, List.filter_nil, List.filterMap_nil, List.map_nil,
      List.append_nil]
    by_cases hstate : bi.header.isStateBlock = true
    · rw [if_pos hstate] at hstep
      obtain ⟨batchStates, hbatch, hstep⟩ := bind_eq_ok.mp hstep
      obtain rfl := Except.ok.inj hstep
      refine { h with batchStates := fun p hp => (h.batchStates p hp).trans ?_ }
      unfold processStateBlock at hbatch
      split at hbatch
      · obtain rfl := Except.ok.inj hbatch
        exact Batch.Spares.refl p _
      · obtain ⟨trust, -, hbatch⟩ := bind_eq_ok.mp hbatch
        split at hbatch
        · obtain rfl := Except.ok.inj hbatch
          exact Batch.Spares.refl p _
        obtain ⟨hex, -, hbatch⟩ := bind_eq_ok.mp hbatch
        obtain ⟨address, -, hbatch⟩ := bind_eq_ok.mp hbatch
        exact Batch.Spares.addKey_makeKey hp hbatch
    · rw [if_neg hstate] at hstep
      obtain ⟨allNodes, -, hstep⟩ := bind_eq_ok.mp hstep
      obtain rfl := Except.ok.inj hstep
      exact { h with }

/-- **The transactions of a block.** -/
theorem transactions {day : UInt64} {bi : BlockInfo} (hdb : HasBest w.leveldbNodeTest before) :
    ∀ {txs : List TransactionInfo} {today : List (Nat × Tested)} {s s' : NodeTestState},
      Collected before today s → (∀ e ∈ before ++ today, e.1 ≤ day.toNat) →
      txs.foldlM (w.processTransaction bi day) s = .ok s' →
      Collected before (today ++ (w.testsIn txs).map (fun t => (day.toNat, t))) s'
  | [], today, s, s', h, _, hrun => by
      obtain rfl := Except.ok.inj hrun
      have hnil : w.testsIn [] = [] := rfl
      rw [hnil, List.map_nil, List.append_nil]
      exact h
  | tx :: txs, today, s, s', h, hday, hrun => by
      rw [List.foldlM_cons] at hrun
      obtain ⟨next, hstep, hrun⟩ := bind_eq_ok.mp hrun
      have hsplit : w.testsIn (tx :: txs) = w.testsIn [tx] ++ w.testsIn txs := by
        unfold testsIn
        rw [← List.filterMap_append, ← List.filter_append, List.singleton_append]
      rw [hsplit, List.map_append, ← List.append_assoc]
      refine transactions hdb (h.transaction hdb hday hstep) ?_ hrun
      intro e he
      rw [← List.append_assoc] at he
      rcases List.mem_append.mp he with he | he
      · exact hday e he
      · obtain ⟨t, -, rfl⟩ := List.mem_map.mp he
        exact le_refl _

end Collected

end WorkerNodeTest

end TorrentNode
