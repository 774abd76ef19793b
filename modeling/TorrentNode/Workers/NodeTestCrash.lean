import TorrentNode.Lib.Throws
import TorrentNode.Workers.NodeTestStatistics

/-!
# Data that end the program

The worker looks for members of whatever the data of a node test parse into, and of the
data of a state block too. A number or a list has no members, and asking for them is not
an exception that the worker could log. So the statistics are those of the tests as long
as no such data come along, and a block that has them is never worked off.
-/

namespace TorrentNode

open CursorReader

/-! ## What a handler sees -/

/-- Whatever the computation throws, a handler sees it. -/
abbrev Caught {α : Type} (x : Except Err α) : Prop := Throws (fun e => e ≠ .crash) x

theorem caught_check (cond : Bool) (msg : String) : Caught (check cond msg) := by
  cases cond
  · exact Throws.error (by simp)
  · exact Throws.ok ()

theorem caught_ofBytes (b : Bytes) : Caught (Blob.ofBytes b) := by
  unfold Blob.ofBytes
  split
  · exact Throws.ok _
  · exact Throws.error (by simp)

theorem caught_makeKey (args : List KeyPart) : Caught (makeKey args) := by
  refine Throws.foldlM (fun buffer part _ => ?_)
  cases part with
  | str s => exact (caught_check _ _).bind (fun _ _ => Throws.pure _)
  | chr c => exact Throws.pure _
  | int n => exact Throws.pure _
  | lit s => exact (caught_check _ _).bind (fun _ _ => Throws.pure _)

theorem caught_calcHexString (a : Address) : Caught a.calcHexString :=
  (caught_check _ _).bind (fun _ _ => Throws.pure _)

/-! ### Readers -/

/-- The same of a reader. -/
abbrev CaughtReader {α : Type} (r : Deserializer α) : Prop := ReaderThrows (fun e => e ≠ .crash) r

theorem caught_deserializeIntAt (w : Nat) : CaughtReader (deserializeIntAt w) :=
  ReaderThrows.input.bind (fun _ => ReaderThrows.position.bind (fun _ =>
    (ReaderThrows.moveTo _).bind (fun _ => ReaderThrows.pure _)))

theorem caught_deserializeInt (w : Nat) : CaughtReader (deserializeInt w) :=
  ReaderThrows.advancing (by simp) (caught_deserializeIntAt w)

theorem caught_deserializeUInt64 : CaughtReader deserializeUInt64 :=
  (caught_deserializeInt _).bind (fun _ => ReaderThrows.pure _)

theorem caught_deserializeStringAt : CaughtReader deserializeStringAt := by
  refine ReaderThrows.input.bind (fun raw => ReaderThrows.position.bind (fun fromPos =>
    (caught_deserializeIntAt _).bind (fun size => ReaderThrows.position.bind (fun begPos => ?_))))
  refine ReaderThrows.ite (ReaderThrows.pure _) (ReaderThrows.ite (ReaderThrows.fail (by simp)) ?_)
  cases hstr : Blob.ofBytes ((raw.drop begPos).take size) with
  | error e => exact ReaderThrows.fail (caught_ofBytes _ e hstr)
  | ok str => exact (ReaderThrows.moveTo _).bind (fun _ => ReaderThrows.pure _)

theorem caught_deserializeString : CaughtReader deserializeString :=
  ReaderThrows.advancing (by simp) caught_deserializeStringAt

theorem caught_deserializeFilePosition : CaughtReader FilePosition.deserialize :=
  ReaderThrows.advancing (by simp)
    ((ReaderThrows.advancing (by simp) caught_deserializeStringAt).bind (fun _ =>
      (ReaderThrows.advancing (by simp) (caught_deserializeIntAt _)).bind (fun _ =>
        ReaderThrows.pure _)))

theorem caught_bestNodeElement : CaughtReader BestNodeElement.deserialize :=
  caught_deserializeUInt64.bind (fun _ => caught_deserializeString.bind (fun _ =>
    caught_deserializeUInt64.bind (fun _ => caught_deserializeFilePosition.bind (fun _ =>
      ReaderThrows.pure _))))

theorem caught_deserializeOr {α : Type} {absent : α} {r : Deserializer α} (hr : CaughtReader r)
    (raw : Blob) : Caught (deserializeOr absent r raw) := by
  unfold deserializeOr
  split
  · exact Throws.ok _
  · exact (hr raw.val 0).map _

/-! ### The records of the worker -/

section Records

variable (db : LevelDb)

theorem caught_findNodeStatBlock : Caught db.findNodeStatBlock :=
  caught_deserializeOr (caught_deserializeString.bind (fun _ => caught_deserializeUInt64.bind
    (fun _ => caught_deserializeUInt64.bind (fun _ => ReaderThrows.pure _)))) _

theorem caught_findNodeStatDayNumber : Caught db.findNodeStatDayNumber :=
  caught_deserializeOr (caught_deserializeUInt64.bind (fun _ => ReaderThrows.pure _)) _

theorem caught_findNodeStatLastResults (address : Blob) :
    Caught (db.findNodeStatLastResults address) :=
  (caught_makeKey _).bind (fun _ _ => caught_deserializeOr ((caught_deserializeInt _).bind
    (fun n => (ReaderThrows.replicateM caught_bestNodeElement n).bind
      (fun _ => caught_deserializeUInt64.bind (fun _ => (caught_deserializeInt _).bind
        (fun _ => ReaderThrows.pure _))))) _)

theorem caught_findNodeStatRps (address : Blob) (day : UInt64) :
    Caught (db.findNodeStatRps address day) :=
  (caught_makeKey _).bind (fun _ _ => caught_deserializeOr ((caught_deserializeInt _).bind
    (fun n => (ReaderThrows.replicateM caught_deserializeUInt64 n).bind
      (fun _ => ReaderThrows.pure _))) _)

theorem caught_findAllTestedNodesForDay (day : UInt64) :
    Caught (db.findAllTestedNodesForDay day) :=
  (caught_makeKey _).bind (fun _ _ => caught_deserializeOr (caught_deserializeUInt64.bind
    (fun _ => (caught_deserializeInt _).bind
      (fun n => (ReaderThrows.replicateM caught_deserializeString n).bind
        (fun _ => ReaderThrows.pure _)))) _)

theorem caught_findAllNodes : Caught db.findAllNodes :=
  caught_deserializeOr ((caught_deserializeInt _).bind
    (fun n => (ReaderThrows.replicateM (caught_deserializeString.bind (fun _ =>
      caught_deserializeString.bind (fun _ => caught_deserializeString.bind
        (fun _ => ReaderThrows.pure _)))) n).bind (fun _ => ReaderThrows.pure _))) _

theorem caught_addKey (b : Batch) (key : Bytes) {serialized : Except Err Bytes} (isSave : Bool)
    (h : Caught serialized) : Caught (b.addKey key serialized isSave) :=
  h.bind (fun _ _ => (caught_ofBytes _).bind (fun _ _ => Throws.pure _))

theorem caught_serializeResults (t : BestNodeTest) : Caught t.serialize :=
  (Throws.mapM (fun e _ => ((caught_check _ _).bind (fun _ _ => Throws.pure _) :
    Caught e.txPos.serialize).bind (fun _ _ => Throws.pure _))).bind (fun _ _ => Throws.pure _)

theorem caught_serializeRecord (name : String) (m : WorkerBlockInfo) : Caught (m.serialize name) :=
  (caught_check _ _).bind (fun _ _ => (caught_check _ _).bind (fun _ _ => Throws.pure _))

end Records

/-! ## A round -/

namespace WorkerNodeTest

variable {w : WorkerNodeTest} {bi : BlockInfo} {day : UInt64}

/-- The accessors of the common library throw exceptions and do nothing worse. -/
structure LibraryThrows (w : WorkerNodeTest) : Prop where
  getObject : ∀ doc name, Caught (w.getObject doc name)
  getString : ∀ doc name, Caught (w.getString doc name)
  getOptString : ∀ doc name, Caught (w.getOptString doc name)

/-- Data whose members can be asked for: they do not parse, or parse into an object. -/
def Readable (w : WorkerNodeTest) (data : Blob) : Prop :=
  ∀ doc, w.parseJson data.val = some doc → doc.isObject = true

/-- The transactions whose data the worker looks into: the node tests, and all those of a state
block. Those of other blocks it looks into only between braces. -/
def BlockReadable (w : WorkerNodeTest) (bi : BlockInfo) : Prop :=
  ∀ tx ∈ bi.txs, tx.isIntStatusNodeTest = true ∨ bi.header.isStateBlock = true → w.Readable tx.data

theorem caught_stoull (str : Bytes) : Caught (TorrentNode.stoull str) :=
  Throws.ite (fun _ => Throws.error (by simp))
    (fun _ => Throws.ite (fun _ => Throws.error (by simp)) (fun _ => Throws.ok _))

theorem caught_calcRps (rpsStr latencyStr : Option Blob) : Caught (calcRps rpsStr latencyStr) := by
  cases rpsStr with
  | some str => exact caught_stoull _
  | none =>
      cases latencyStr with
      | some str => exact caught_stoull _
      | none => exact Throws.pure _

theorem Readable.member {tx : TransactionInfo} (h : w.Readable tx.data) {doc : Json}
    (hdoc : w.parseJson tx.data.val = some doc) (name : String) :
    doc.member name = .ok (doc.find? name) := Json.member_eq name (h doc hdoc)

theorem caught_parseTestNodeTransaction (hlib : w.LibraryThrows) {tx : TransactionInfo}
    (h : w.Readable tx.data) : Caught (w.parseTestNodeTransaction tx) := by
  unfold parseTestNodeTransaction
  cases hdoc : w.parseJson tx.data.val with
  | none => exact Throws.error (by simp)
  | some doc =>
      dsimp only
      rw [h.member hdoc]
      refine (Throws.ok _).bind (fun _ _ => Throws.ite (fun _ => ?_) (fun _ => Throws.pure _))
      refine (hlib.getObject _ _).bind (fun _ _ => ?_)
      refine (hlib.getString _ _).bind (fun _ _ => (hlib.getString _ _).bind (fun _ _ => ?_))
      refine (hlib.getString _ _).bind (fun _ _ => (hlib.getString _ _).bind (fun _ _ => ?_))
      refine (hlib.getOptString _ _).bind (fun _ _ => (hlib.getOptString _ _).bind (fun _ _ => ?_))
      refine (caught_calcRps _ _).bind (fun _ _ => ?_)
      exact (hlib.getString _ _).bind (fun _ _ => (hlib.getString _ _).bind
        (fun _ _ => Throws.pure _))

theorem caught_tryTestTransaction (hlib : w.LibraryThrows) {tx : TransactionInfo}
    (h : w.Readable tx.data) (s : NodeTestState) :
    Caught (w.tryTestTransaction tx day bi s) := by
  refine (caught_parseTestNodeTransaction hlib h).bind (fun r _ => ?_)
  cases r with
  | none => exact Throws.pure _
  | some r =>
      refine Throws.bind ?_ (fun _ _ => Throws.pure _)
      unfold findLastNodeTest
      split
      · exact Throws.pure _
      · exact (caught_findNodeStatLastResults _ _).bind (fun _ _ => Throws.pure _)

theorem caught_processTestTransaction (hlib : w.LibraryThrows) {tx : TransactionInfo}
    (h : w.Readable tx.data) (s : NodeTestState) :
    Caught (w.processTestTransaction tx day bi s) := by
  have htry : Caught (w.tryTestTransaction tx day bi s) := caught_tryTestTransaction hlib h s
  unfold processTestTransaction
  cases hx : w.tryTestTransaction tx day bi s with
  | ok s' => exact Throws.ok s'
  | error e => cases e <;> first | exact Throws.ok s | exact absurd rfl (htry _ hx)

theorem caught_processStateBlock {tx : TransactionInfo} (h : w.Readable tx.data) (b : Batch) :
    Caught (w.processStateBlock tx bi b) := by
  unfold processStateBlock
  cases hdoc : w.parseJson tx.data.val with
  | none => exact Throws.pure _
  | some doc =>
      dsimp only
      rw [h.member hdoc]
      refine (Throws.ok _).bind (fun trust _ => ?_)
      split
      · exact Throws.pure _
      · refine (caught_calcHexString _).bind (fun _ _ => (caught_ofBytes _).bind (fun _ _ => ?_))
        exact (caught_makeKey _).bind (fun _ _ => caught_addKey _ _ _ (Throws.pure _))

theorem caught_processRegisterTransaction (tx : TransactionInfo) (allNodes : AllNodes) :
    Caught (w.processRegisterTransaction tx allNodes) := by
  unfold processRegisterTransaction
  refine Throws.ite (fun _ => ?_) (fun _ => Throws.pure _)
  split
  · exact Throws.pure _
  · exact (caught_ofBytes _).bind (fun _ _ => (caught_ofBytes _).bind (fun _ _ =>
      (caught_ofBytes _).bind (fun _ _ => Throws.pure _)))

/-- **A transaction** that can be read does not end the program. -/
theorem caught_processTransaction (hlib : w.LibraryThrows) {tx : TransactionInfo}
    (h : tx.isIntStatusNodeTest = true ∨ bi.header.isStateBlock = true → w.Readable tx.data)
    (s : NodeTestState) : Caught (w.processTransaction bi day s tx) := by
  unfold processTransaction
  refine Throws.ite (fun htest => ?_) (fun _ => Throws.ite (fun hstate => ?_) (fun _ => ?_))
  · exact caught_processTestTransaction hlib (h (Or.inl htest)) s
  · exact (caught_processStateBlock (h (Or.inr hstate)) _).bind (fun _ _ => Throws.pure _)
  · exact (caught_processRegisterTransaction tx _).bind (fun _ _ => Throws.pure _)

theorem caught_saveTests (s : NodeTestState) : Caught (w.saveTests bi day s) := by
  rw [saveTests_eq]
  refine Throws.bind ?_ (fun b₁ _ => ?_)
  · exact Throws.ite (fun _ => caught_addKey _ _ _ (Throws.pure _)) (fun _ => Throws.pure _)
  refine Throws.bind (Throws.foldlM (fun b e _ => ?_)) (fun b₂ _ => ?_)
  · exact (caught_findNodeStatRps _ _ _).bind (fun _ _ => (caught_makeKey _).bind
      (fun _ _ => caught_addKey _ _ _ (Throws.pure _)))
  refine Throws.bind (Throws.foldlM (fun b e _ => ?_)) (fun b₃ _ => ?_)
  · exact (caught_makeKey _).bind (fun _ _ => caught_addKey _ _ _ (caught_serializeResults _))
  refine Throws.bind ?_ (fun b₄ _ => ?_)
  · refine Throws.ite (fun _ => Throws.pure _) (fun _ => ?_)
    exact (caught_findAllTestedNodesForDay _ _).bind (fun _ _ => (caught_makeKey _).bind
      (fun _ _ => caught_addKey _ _ _ (Throws.pure _)))
  · exact Throws.ite (fun _ => Throws.pure _) (fun _ => (caught_findAllNodes _).bind
      (fun _ _ => caught_addKey _ _ _ (Throws.pure _)))

theorem caught_processBlock (hlib : w.LibraryThrows) (h : w.BlockReadable bi) (n : UInt64) :
    Caught (w.processBlock bi n) :=
  (caught_findNodeStatDayNumber _).bind (fun _ _ =>
    (Throws.foldlM (fun s tx htx => caught_processTransaction hlib (h tx htx) s)).bind
      (fun s _ => (caught_saveTests s).bind
        (fun _ _ => caught_addKey _ _ _ (caught_serializeRecord _ _))))

/-- **A round** with a block that can be read does not end the program. -/
theorem work_caught (hlib : w.LibraryThrows) (h : w.BlockReadable bi) :
    (w.work bi).1 ≠ .failed .crash := by
  intro hcrash
  unfold work guardedRound at hcrash
  -- Each step of the round either throws something that is caught or goes on.
  cases hrecord : w.leveldbNodeTest.findNodeStatBlock with
  | error e =>
      rw [hrecord] at hcrash
      exact caught_findNodeStatBlock _ e hrecord (Outcome.failed.inj hcrash)
  | ok record =>
      cases hn : bi.header.blockNumber with
      | none =>
          simp only [hrecord, hn] at hcrash
          cases hcrash
      | some number =>
          simp only [hrecord, hn] at hcrash
          have hguards : Caught (guards record (UInt64.ofNat number) bi.header) :=
            Throws.ite (fun _ => Throws.ok _)
              (fun _ => (caught_check _ _).bind (fun _ _ => Throws.pure _))
          cases hguard : guards record (UInt64.ofNat number) bi.header with
          | error e =>
              rw [hguard] at hcrash
              exact hguards e hguard (Outcome.failed.inj hcrash)
          | ok fresh =>
              rw [hguard] at hcrash
              cases fresh with
              | false => cases hcrash
              | true =>
                  dsimp only at hcrash
                  cases hblock : w.processBlock bi (UInt64.ofNat number) with
                  | error e =>
                      rw [hblock] at hcrash
                      exact caught_processBlock hlib h _ e hblock (Outcome.failed.inj hcrash)
                  | ok b =>
                      rw [hblock] at hcrash
                      cases hcrash

/-! ### A block that is worked off -/

/-- The data of a transaction that is worked off could be read. -/
theorem readable_processTransaction {tx : TransactionInfo} {s s' : NodeTestState}
    (h : w.processTransaction bi day s tx = .ok s')
    (hlooked : tx.isIntStatusNodeTest = true ∨ bi.header.isStateBlock = true) :
    w.Readable tx.data := by
  intro doc hdoc
  by_contra hno
  have hmember : ∀ name, doc.member name = .error .crash := fun name => if_neg hno
  unfold processTransaction at h
  by_cases htest : tx.isIntStatusNodeTest = true
  · rw [if_pos htest] at h
    unfold processTestTransaction tryTestTransaction parseTestNodeTransaction at h
    simp only [hdoc, hmember] at h
    cases h
  · rw [if_neg htest, if_pos (hlooked.resolve_left htest)] at h
    unfold processStateBlock at h
    simp only [hdoc, hmember] at h
    cases h

theorem readable_of_foldlM : ∀ {txs : List TransactionInfo} {s s' : NodeTestState},
    txs.foldlM (w.processTransaction bi day) s = .ok s' → ∀ tx ∈ txs,
      tx.isIntStatusNodeTest = true ∨ bi.header.isStateBlock = true → w.Readable tx.data
  | [], _, _, _, _, htx => by cases htx
  | tx :: txs, s, s', h, tx', htx => by
      rw [List.foldlM_cons] at h
      obtain ⟨next, hstep, h⟩ := bind_eq_ok.mp h
      rcases List.mem_cons.mp htx with rfl | htx
      · exact readable_processTransaction hstep
      · exact readable_of_foldlM h tx' htx

theorem BlockReadable.of_processBlock {n : UInt64} {b : Batch} (h : w.processBlock bi n = .ok b) :
    w.BlockReadable bi := by
  obtain ⟨day, -, h⟩ := bind_eq_ok.mp h
  obtain ⟨s, htxs, -⟩ := bind_eq_ok.mp h
  exact readable_of_foldlM htxs

/-- A block that was written could be read. -/
theorem Reached.readable {db : LevelDb} {blocks : List BlockInfo} (h : w.Reached db blocks) :
    ∀ bi ∈ blocks, w.BlockReadable bi := by
  induction h with
  | start => exact fun _ hbi => by cases hbi
  | @block db db' blocks bi r _ hround ih =>
      intro bi' hbi'
      rcases List.mem_append.mp hbi' with hbi' | hbi'
      · exact ih bi' hbi'
      · by_cases hr : r = .written ()
        · subst hr
          obtain rfl := List.mem_singleton.mp hbi'
          obtain ⟨-, -, -, -, b, hblock, -⟩ := work_written hround
          exact @BlockReadable.of_processBlock (w.on db) bi' _ _ hblock
        · rw [taken, if_neg hr] at hbi'
          cases hbi'

/-- **The statistics of the node tests do not depend on the blocks**, as long as the data of each
can be read. After any rounds they are those of the tests that the blocks brought, each on the day
that the state blocks before it make; so blocks that bring the same tests between the same state
blocks leave the same statistics. Only a block with data that parse into something else than an
object ends the program, and such a block is never worked off. -/
theorem statistics_of_tests (w : WorkerNodeTest) (hlib : w.LibraryThrows) :
    (∀ db blocks, w.Reached db blocks →
      HoldsTests db (UInt64.ofNat (daysOf blocks)) (w.datedTests 0 (eventsOf blocks)) ∧
      (∀ bi ∈ blocks, w.BlockReadable bi) ∧
      ∀ bi, w.BlockReadable bi → ((w.on db).work bi).1 ≠ .failed .crash) ∧
    ∀ db db' blocks blocks', w.Reached db blocks → w.Reached db' blocks' →
      eventsOf blocks = eventsOf blocks' → SameStatistics db db' := by
  refine ⟨fun db blocks h => ⟨h.kept.holds, h.readable, fun bi hbi => ?_⟩, ?_⟩
  · exact @work_caught (w.on db) bi ⟨hlib.getObject, hlib.getString, hlib.getOptString⟩ hbi
  · intro db db' blocks blocks' h h' hevents
    have hholds := h.kept.holds
    unfold daysOf at hholds
    rw [hevents] at hholds
    exact hholds.same h'.kept.holds

/-- A member of a JSON text, `"name":"value"`. -/
def testMember (name value : String) : Bytes :=
  34 :: ascii name.toList ++ [34, 58, 34] ++ ascii value.toList ++ [34]

/-- The text of a test of a node: an object with the method and an object of parameters. -/
def testText (address rps : String) : Bytes :=
  123 :: testMember "method" "mhAddNodeCheckResult" ++ [44, 34] ++ ascii "params".toList ++
    [34, 58, 123] ++ testMember "type" "t" ++ 44 :: testMember "ver" "1" ++
    44 :: testMember "address" address ++ 44 :: testMember "host" "h" ++
    44 :: testMember "rps" rps ++ 44 :: testMember "geo" "g" ++
    44 :: testMember "success" "true" ++ [125, 125]

/-- What it is parsed into. -/
def testDoc (address rps : String) : Json :=
  let text (name value : String) : Bytes × Json := (ascii name.toList, .ofAscii value.toList)
  .object [text "method" "mhAddNodeCheckResult", (ascii "params".toList, .object
    [text "type" "t", text "ver" "1", text "address" address, text "host" "h", text "rps" rps,
      text "geo" "g", text "success" "true"])]

/-- A worker with a parser for the text of the node `a`. -/
def testWorker : WorkerNodeTest where
  leveldbNodeTest := ∅
  parseJson data := if data = testText "a" "5" then some (testDoc "a" "5") else none
  getObject doc name := match doc.find? name with
    | some (.object members) => .ok (.object members)
    | _ => .error (.exception "Incorrect json")
  getString doc name := match (doc.find? name).bind Json.getString with
    | some text => Blob.ofBytes text
    | none => .error (.exception "Incorrect json")
  getOptString doc name := match (doc.find? name).bind Json.getString with
    | some text => (Blob.ofBytes text).map some
    | none => .ok none

/-- A test in a transaction at this place of a file. -/
def testTransaction (pos : UInt64) : TransactionInfo :=
  { (default : TransactionInfo) with
    data := ⟨testText "a" "5", by decide +kernel⟩, intStatus := some TransactionInfo.TX_STATE_TECH_NODE_STAT
    filePos := ⟨pos, Blob.replicate 1 102 Blob.byte_fits⟩ }

/-- A block at a height with tests at these places. -/
def testBlock (blockType : UInt64) (number : Nat) (places : List UInt64) : BlockInfo :=
  { header :=
      { (default : BlockHeader) with
        blockType, blockNumber := some number
        hash := Blob.replicate 32 (UInt8.ofNat number) Blob.hash_fits
        prevHash := Blob.replicate 32 (UInt8.ofNat (number - 1)) Blob.hash_fits }
    txs := places.map testTransaction }

/-- The database after these blocks. -/
def after (w : WorkerNodeTest) (blocks : List BlockInfo) : LevelDb :=
  blocks.foldl (fun db bi => ((w.on db).work bi).2) ∅

theorem testWorker_throws : testWorker.LibraryThrows where
  getObject doc name := by
    unfold testWorker
    dsimp only
    split
    · exact Throws.ok _
    · exact Throws.error (by simp)
  getString doc name := by
    unfold testWorker
    dsimp only
    split
    · exact caught_ofBytes _
    · exact Throws.error (by simp)
  getOptString doc name := by
    unfold testWorker
    dsimp only
    split
    · exact (caught_ofBytes _).map _
    · exact Throws.ok _

/-- Two tests in a state block, and in two blocks. -/
def groupedTests : List BlockInfo := [testBlock BLOCK_TYPE_STATE 1 [10, 20]]

/-- The same two tests in two blocks. -/
def spreadTests : List BlockInfo :=
  [testBlock BLOCK_TYPE_COMMON 1 [10], testBlock BLOCK_TYPE_STATE 2 [20]]

theorem statistics_of_tests_two :
    HoldsTests (testWorker.after groupedTests) 1 (testWorker.datedTests 0 (eventsOf groupedTests)) ∧
      ((testWorker.on (testWorker.after groupedTests)).work (testBlock BLOCK_TYPE_COMMON 2 [])).1 ≠
        .failed .crash ∧
      SameStatistics (testWorker.after groupedTests) (testWorker.after spreadTests) ∧
      (testWorker.after spreadTests).findNodeStatRps (Blob.replicate 1 97 Blob.byte_fits) 0 =
        .ok ⟨[6, 6]⟩ := by
  have hgrouped := (Reached.start (w := testWorker)).next (testBlock BLOCK_TYPE_STATE 1 [10, 20])
    (by decide +kernel)
  have hspread := (Reached.start (w := testWorker)).next (testBlock BLOCK_TYPE_COMMON 1 [10])
    (by decide +kernel)
  have hspread := hspread.next (testBlock BLOCK_TYPE_STATE 2 [20]) (by decide +kernel)
  obtain ⟨hholds, -, hcaught⟩ := (statistics_of_tests testWorker testWorker_throws).1 _ _ hgrouped
  refine ⟨hholds, hcaught (testBlock BLOCK_TYPE_COMMON 2 []) (fun tx htx => by cases htx),
    (statistics_of_tests testWorker testWorker_throws).2 _ _ _ _ hgrouped hspread rfl, ?_⟩
  decide +kernel

/-! ## A number for data -/

/-- The same worker, whose parser knows the text `5` too. -/
def numberWorker : WorkerNodeTest :=
  { testWorker with
    parseJson := fun data => if data = [53] then some (.int64 5) else testWorker.parseJson data }

/-- A node test whose data are that number. -/
def numberTransaction : TransactionInfo :=
  { testTransaction 30 with data := Blob.replicate 1 53 Blob.byte_fits }

/-- A block with these places of tests, and the number behind them. -/
def numberBlock (number : Nat) (places : List UInt64) : BlockInfo :=
  { testBlock BLOCK_TYPE_COMMON number places with
    txs := places.map testTransaction ++ [numberTransaction] }

/-- **Node tests in one block or in two leave different statistics** where the data of one are a
number: the block with the number is lost, and what stands before it in the block with it. -/
theorem statistics_of_number :
    ¬ ∀ (w : WorkerNodeTest), w.LibraryThrows → ∀ blocks blocks' : List BlockInfo,
      eventsOf blocks = eventsOf blocks' → SameStatistics (w.after blocks) (w.after blocks') := by
  intro h
  have hsame := (h numberWorker
    ⟨testWorker_throws.getObject, testWorker_throws.getString, testWorker_throws.getOptString⟩
    [numberBlock 1 [10]] [testBlock BLOCK_TYPE_COMMON 1 [10], numberBlock 2 []] rfl).rps
      (Blob.replicate 1 97 Blob.byte_fits) 0
  have hlost : (numberWorker.after [numberBlock 1 [10]]).findNodeStatRps
      (Blob.replicate 1 97 Blob.byte_fits) 0 = .ok ⟨[]⟩ := by decide +kernel
  have hkept : (numberWorker.after [testBlock BLOCK_TYPE_COMMON 1 [10], numberBlock 2 []]).findNodeStatRps
      (Blob.replicate 1 97 Blob.byte_fits) 0 = .ok ⟨[6]⟩ := by decide +kernel
  rw [hlost, hkept] at hsame
  cases hsame

end WorkerNodeTest

end TorrentNode
