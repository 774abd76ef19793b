import TorrentNode.Storage.LevelDb
import TorrentNode.Structs.BlockInfo
import TorrentNode.Structs.Json
import TorrentNode.Structs.NodeTests
import TorrentNode.Workers.Common

/-!
# The node-test worker (`WorkerNodeTest`)

It collects the checks that nodes run on each other. Everything it does to a
block stays in local variables until the batch is written.
-/

namespace TorrentNode

/-- The last block that the worker has worked off. -/
def NODE_STAT_BLOCK_NUMBER_PREFIX : String := "ns_"

/-- The last tests of a node. -/
def NODE_STAT_RESULT_PREFIX : String := "nr2_"

/-- How far a node is trusted. -/
def NODE_STAT_TRUST_PREFIX : String := "nt_"

/-- The day. -/
def NODE_STAT_DAY_NUMBER : String := "nsdn"

/-- What stands before a day. -/
def NODES_TESTED_STATS_ALL_DAY_POSTFIX : Char := '!'

/-- What stands between a node and a day. -/
def NODE_STAT_RPS_POSTFIX : Char := '!'

/-- The nodes that were tested on a day. -/
def NODES_TESTED_STATS_ALL_DAY : String := "nsta_"

/-- The nodes that were registered. -/
def NODES_STATS_ALL : String := "nsaa2_"

/-- The results of a node on a day. -/
def NODE_STAT_RPS_PREFIX : String := "nrps_"

namespace Batch

/-- The last tests of a node. -/
def addNodeTestLastResults (b : Batch) (address : Blob) (result : BestNodeTest) :
    Except Err Batch := do
  let key ← makeKey [.lit NODE_STAT_RESULT_PREFIX, .str address]
  b.addKey key result.serialize false

/-- How far a node is trusted. -/
def addNodeTestTrust (b : Batch) (address : Blob) (result : NodeTestTrust) :
    Except Err Batch := do
  let key ← makeKey [.lit NODE_STAT_TRUST_PREFIX, .str address]
  b.addKey key result.serialize false

/-- The day. -/
def addNodeTestDayNumber (b : Batch) (result : NodeTestDayNumber) : Except Err Batch :=
  b.addKey (ascii NODE_STAT_DAY_NUMBER.toList) result.serialize false

/-- The nodes that were tested on a day; the key has the day negated. -/
def addAllTestedNodesForDay (b : Batch) (result : AllTestedNodes) (dayNumber : UInt64) :
    Except Err Batch := do
  let key ← makeKey
    [.lit NODES_TESTED_STATS_ALL_DAY, .chr NODES_TESTED_STATS_ALL_DAY_POSTFIX, .int (-dayNumber)]
  b.addKey key result.serialize false

/-- The results of a node on a day, likewise. -/
def addNodeTestRpsForDay (b : Batch) (address : Blob) (result : NodeRps) (dayNumber : UInt64) :
    Except Err Batch := do
  let key ← makeKey
    [.lit NODE_STAT_RPS_PREFIX, .str address, .chr NODE_STAT_RPS_POSTFIX, .int (-dayNumber)]
  b.addKey key result.serialize false

/-- The nodes that were registered. -/
def addAllNodes (b : Batch) (value : AllNodes) : Except Err Batch :=
  b.addKey (ascii NODES_STATS_ALL.toList) value.serialize false

/-- The last block that was worked off. -/
def addNodeStatBlock (b : Batch) (value : WorkerBlockInfo) : Except Err Batch :=
  b.addKey (ascii NODE_STAT_BLOCK_NUMBER_PREFIX.toList) (value.serialize "NodeStatBlockInfo") false

end Batch

namespace LevelDb

/-- The last block that was worked off. -/
def findNodeStatBlock (db : LevelDb) : Except Err WorkerBlockInfo :=
  db.findOneValueWithoutCheckValue WorkerBlockInfo.deserialize
    (ascii NODE_STAT_BLOCK_NUMBER_PREFIX.toList)

/-- The last tests of a node. -/
def findNodeStatLastResults (db : LevelDb) (address : Blob) : Except Err BestNodeTest := do
  let key ← makeKey [.lit NODE_STAT_RESULT_PREFIX, .str address]
  db.findOneValueWithoutCheckValue BestNodeTest.deserialize key

/-- The results of a node on a day. -/
def findNodeStatRps (db : LevelDb) (address : Blob) (dayNumber : UInt64) :
    Except Err NodeRps := do
  let key ← makeKey
    [.lit NODE_STAT_RPS_PREFIX, .str address, .chr NODE_STAT_RPS_POSTFIX, .int (-dayNumber)]
  db.findOneValueWithoutCheckValue NodeRps.deserialize key

/-- The day. -/
def findNodeStatDayNumber (db : LevelDb) : Except Err NodeTestDayNumber :=
  db.findOneValueWithoutCheckValue NodeTestDayNumber.deserialize (ascii NODE_STAT_DAY_NUMBER.toList)

/-- The nodes that were tested on a day. -/
def findAllTestedNodesForDay (db : LevelDb) (day : UInt64) : Except Err AllTestedNodes := do
  let key ← makeKey
    [.lit NODES_TESTED_STATS_ALL_DAY, .chr NODES_TESTED_STATS_ALL_DAY_POSTFIX, .int (-day)]
  db.findOneValueWithoutCheckValue AllTestedNodes.deserialize key

/-- The nodes that were registered. -/
def findAllNodes (db : LevelDb) : Except Err AllNodes :=
  db.findOneValueWithoutCheckValue AllNodes.deserialize (ascii NODES_STATS_ALL.toList)

end LevelDb

/-- What `WorkerNodeTest` reads while it works on a block. -/
structure WorkerNodeTest where
  leveldbNodeTest : LevelDb
  /-- `rapidjson::Document::Parse` on a buffer with its size. -/
  parseJson : Bytes → Option Json
  /-- `get<JsonObject>` of the common library. -/
  getObject : Json → String → Except Err Json
  /-- `get<std::string>` of the common library. -/
  getString : Json → String → Except Err Blob
  /-- `getOpt<std::string>` of the common library. -/
  getOptString : Json → String → Except Err (Option Blob)

/-- The local variables of `work`. -/
structure NodeTestState where
  batchStates : Batch
  allNodesForDay : AllTestedNodes
  allNodes : AllNodes
  nodesRps : OrdMap Blob NodeRps
  lastNodesTests : OrdMap Blob BestNodeTest
  deriving DecidableEq

/-- `std::stoull`, base ten. -/
def stoull (str : Bytes) : Except Err UInt64 :=
  let isSpace (c : UInt8) : Bool := c == 32 || (9 ≤ c && c ≤ 13)
  let isDigit (c : UInt8) : Bool := 48 ≤ c && c ≤ 57
  let str := str.dropWhile isSpace
  let negative := str.head? == some 45
  let digits := (if negative || str.head? == some 43 then str.tail else str).takeWhile isDigit
  let n := digits.foldl (fun n c => n * 10 + (c.toNat - 48)) 0
  if digits.isEmpty then .error (.std "invalid_argument")
  else if 2 ^ 64 ≤ n then .error (.std "out_of_range")
  else .ok (if negative then 0 - UInt64.ofNat n else UInt64.ofNat n)

namespace WorkerNodeTest

/-- The requests per second of a check, by its fields `rps` and `latency`. -/
def calcRps (rpsStr latencyStr : Option Blob) : Except Err UInt64 :=
  match rpsStr, latencyStr with
  | some str, _ => stoull str.val
  | none, some str => stoull str.val
  | none, none => pure 0

/-- The test that a transaction tells of, if its method is that of a test. -/
def parseTestNodeTransaction (w : WorkerNodeTest) (tx : TransactionInfo) :
    Except Err (Option NodeTestResult) :=
  match w.parseJson tx.data.val with
  | none => .error (.exception ("rapidjson parse error. Data: " ++ text tx.data.val))
  | some doc => do
    let method ← doc.member "method"
    if method.bind Json.getString = some (ascii "mhAddNodeCheckResult".toList) then do
      let paramsJson ← w.getObject doc "params"
      let typeNode ← w.getString paramsJson "type"
      let _ ← w.getString paramsJson "ver"
      let serverAddress ← w.getString paramsJson "address"
      let ip ← w.getString paramsJson "host"
      let latencyStr ← w.getOptString paramsJson "latency"
      let rpsStr ← w.getOptString paramsJson "rps"
      let rps ← calcRps rpsStr latencyStr
      let geo ← w.getString paramsJson "geo"
      let success ← w.getString paramsJson "success"
      let success := success.val == ascii "true".toList
      pure (some { serverAddress, testerAddress := tx.fromAddress, typeNode, result := tx.data, ip,
                   geo, rps := if success then rps + 1 else 0, success,
                   isForwardSort := rpsStr.isSome })
    else pure none

/-- The tests of a node so far: those of the block, else those of the database. -/
def findLastNodeTest (w : WorkerNodeTest) (s : NodeTestState) (serverAddress : Blob) :
    Except Err BestNodeTest :=
  match s.lastNodesTests.find? serverAddress with
  | some found => pure found
  | none => do
    let lastNodeTest ← w.leveldbNodeTest.findNodeStatLastResults serverAddress
    pure (if lastNodeTest.tests.isEmpty then BestNodeTest.new false else lastNodeTest)

/-- `processTestTransaction` inside its `try`. -/
def tryTestTransaction (w : WorkerNodeTest) (tx : TransactionInfo) (currDay : UInt64)
    (bi : BlockInfo) (s : NodeTestState) : Except Err NodeTestState := do
  let nodeTestResult ← w.parseTestNodeTransaction tx
  match nodeTestResult with
  | none => pure s
  | some r => do
    let found ← w.findLastNodeTest s r.serverAddress
    let found := found.addElement
      { timestamp := bi.header.timestamp, geo := r.geo, rps := r.rps, txPos := tx.filePos } currDay
    let rps := ((s.nodesRps.find? r.serverAddress).getD ⟨[]⟩).rps ++ [r.rps]
    pure { s with
      lastNodesTests :=
        s.lastNodesTests.insert r.serverAddress { found with isMaxElement := r.isForwardSort }
      nodesRps := s.nodesRps.insert r.serverAddress { rps }
      allNodesForDay :=
        { s.allNodesForDay with nodes := s.allNodesForDay.nodes.insert r.serverAddress () } }

/-- `processTestTransaction`: an exception is logged and leaves no trace. -/
def processTestTransaction (w : WorkerNodeTest) (tx : TransactionInfo) (currDay : UInt64)
    (bi : BlockInfo) (s : NodeTestState) : Except Err NodeTestState :=
  match w.tryTestTransaction tx currDay bi s with
  | .ok s' => .ok s'
  | .error .crash => .error .crash
  | .error _ => .ok s

/-- What a transaction of a state block says about trust. -/
def processStateBlock (w : WorkerNodeTest) (tx : TransactionInfo) (bi : BlockInfo)
    (batchStates : Batch) : Except Err Batch :=
  match w.parseJson tx.data.val with
  | none => pure batchStates
  | some doc => do
    match (← doc.member "trust").bind Json.getInt with
    | none => pure batchStates
    | some trust => do
      let hex ← tx.toAddress.calcHexString
      let serverAddress ← Blob.ofBytes hex
      batchStates.addNodeTestTrust serverAddress
        { trustJson := tx.data, timestamp := bi.header.timestamp, trust }

/-- The node that a registration names; both its methods do the same. What starts with a brace is
an object. -/
def registeredNode (doc : Json) : Option (Bytes × Bytes × Bytes) := do
  let method ← (doc.find? "method").bind Json.getString
  guard (method = ascii "mh-noderegistration".toList ∨ method = ascii "mhRegisterNode".toList)
  let params ← doc.find? "params"
  guard params.isObject
  let host ← (params.find? "host").bind Json.getString
  let name ← (params.find? "name").bind Json.getString
  pure (host, name, ((params.find? "type").bind Json.getString).getD [])

/-- The node that a transaction registers, if its data look like an object. -/
def processRegisterTransaction (w : WorkerNodeTest) (tx : TransactionInfo) (allNodes : AllNodes) :
    Except Err AllNodes :=
  if tx.data.val.head? = some 123 ∧ tx.data.val.getLast? = some 125 then
    match (w.parseJson tx.data.val).bind registeredNode with
    | none => pure allNodes
    | some (host, name, type) => do
      let host ← Blob.ofBytes host
      let name ← Blob.ofBytes name
      let type ← Blob.ofBytes type
      pure { nodes := allNodes.nodes.insert host { name, type } }
  else pure allNodes

/-- A round of the loop over the transactions. -/
def processTransaction (w : WorkerNodeTest) (bi : BlockInfo) (currDay : UInt64)
    (s : NodeTestState) (tx : TransactionInfo) : Except Err NodeTestState :=
  if tx.isIntStatusNodeTest then w.processTestTransaction tx currDay bi s
  else if bi.header.isStateBlock then do
    let batchStates ← w.processStateBlock tx bi s.batchStates
    pure { s with batchStates }
  else do
    let allNodes ← w.processRegisterTransaction tx s.allNodes
    pure { s with allNodes }

/-- The records that `work` makes of its local variables. -/
def saveTests (w : WorkerNodeTest) (bi : BlockInfo) (currDay : UInt64) (s : NodeTestState) :
    Except Err Batch := do
  let b := s.batchStates
  let b ← if bi.header.isStateBlock then b.addNodeTestDayNumber ⟨currDay + 1⟩ else pure b
  let b ← s.nodesRps.entries.foldlM (fun (b : Batch) (e : Blob × NodeRps) => do
    let oldNodeRps ← w.leveldbNodeTest.findNodeStatRps e.1 currDay
    b.addNodeTestRpsForDay e.1 { rps := oldNodeRps.rps ++ e.2.rps } currDay) b
  let b ← s.lastNodesTests.entries.foldlM (fun (b : Batch) (e : Blob × BestNodeTest) =>
    b.addNodeTestLastResults e.1 e.2) b
  let b ← if s.allNodesForDay.nodes.entries.isEmpty then pure b else do
    let allNodesForDayOld ← w.leveldbNodeTest.findAllTestedNodesForDay currDay
    b.addAllTestedNodesForDay { allNodesForDayOld.plus s.allNodesForDay with day := currDay } currDay
  if s.allNodes.nodes.entries.isEmpty then pure b else do
    let allNodesOld ← w.leveldbNodeTest.findAllNodes
    b.addAllNodes (allNodesOld.plus s.allNodes)

/-- `work` from the guards up to `addBatch`. -/
def processBlock (w : WorkerNodeTest) (bi : BlockInfo) (blockNumber : UInt64) :
    Except Err Batch := do
  let day ← w.leveldbNodeTest.findNodeStatDayNumber
  let s ← bi.txs.foldlM (w.processTransaction bi day.dayNumber)
    { batchStates := Batch.new, allNodesForDay := ⟨∅, 0⟩, allNodes := ⟨∅⟩, nodesRps := ∅,
      lastNodesTests := ∅ }
  let batchStates ← w.saveTests bi day.dayNumber s
  batchStates.addNodeStatBlock ⟨blockNumber, bi.header.hash, 0⟩

/-- A round of `work` with the block it took from its queue: how it ended and its database. -/
def work (w : WorkerNodeTest) (bi : BlockInfo) : Outcome Unit × LevelDb :=
  guardedRound w.leveldbNodeTest.findNodeStatBlock bi w.leveldbNodeTest (fun blockNumber =>
    match w.processBlock bi blockNumber with
    | .error e => (.failed e, w.leveldbNodeTest)
    | .ok batchStates => (.written (), addBatch batchStates w.leveldbNodeTest))

end WorkerNodeTest

end TorrentNode
