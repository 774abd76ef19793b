import TorrentNode.Lib.Effect
import TorrentNode.Storage.ScriptRecords
import TorrentNode.Structs.BlockInfo
import TorrentNode.Workers.Common

/-!
# The script worker (`WorkerScript`)

Contract states live in a database of their own and are written with the block
as one batch. Statuses of transactions go straight into the database of the main
worker and into the shared cache, so they stay when an exception ends the block.
-/

namespace TorrentNode

/-- What `WorkerScript` reads while it works on a block. -/
structure WorkerScript where
  leveldbV8 : LevelDb
  modules : Modules
  server : V8Server

/-- What `WorkerScript` writes outside its batch. -/
structure ScriptMemory where
  leveldb : LevelDb
  txsStatusCache : StatusCache
  deriving DecidableEq

/-- The memory, and the batch of the block. -/
structure ScriptState where
  memory : ScriptMemory
  batchStates : Batch
  deriving DecidableEq

/-- A program of the script worker. -/
abbrev ScriptM (α : Type) : Type := Effect Err ScriptState α

namespace WorkerScript

open Effect

/-- A call on the batch. -/
def onBatch (f : Batch → Except Err Batch) : ScriptM Unit :=
  tryUpdate (fun s => (f s.batchStates).map (fun batchStates => { s with batchStates }))

theorem onBatch_ok {f : Batch → Except Err Batch} {s s' : ScriptState} {u : Unit} :
    (onBatch f).exec s = (.ok u, s') →
      f s.batchStates = .ok s'.batchStates ∧ s'.memory = s.memory := by
  intro h
  have hmap := exec_tryUpdate_ok.mp h
  obtain ⟨b, hb, rfl⟩ := map_eq_ok.mp hmap
  exact ⟨hb, rfl⟩

/-- The lambda `v8StateToTxStatus`: whether it is a server error and whether a script error. -/
def v8StateToTxStatus (state : V8State) : Except Err (Bool × Bool) := do
  check (state.errorType != .userError) ("User error " ++ text state.errorMessage.val)
  pure (state.errorType == .serverError, state.errorType == .scriptError)

/-- The lambda `findV8StateF`: the state of a contract, and whether it is from the batch. -/
def findV8StateF (w : WorkerScript) (batchStates : Batch) (address : Address) :
    Except Err (Bool × V8State) := do
  let name ← address.getBinaryString
  let findV8State ← batchStates.findV8State name
  match findV8State with
  | some prevV8State => pure (true, prevV8State)
  | none => do
    let prevV8State ← w.leveldbV8.findV8State name
    pure (false, prevV8State)

/-- The transactions that are passed over: their contract was written by this block or later. -/
def isAlreadySaved (found : Bool × V8State) (blockNumber : UInt64) : Bool :=
  !found.2.state.isEmpty && decide (blockNumber ≤ found.2.blockNumber) && !found.1

/-- Put the outcome of a request into the batch. -/
def saveDetails (contract : Address) (details lastError : Blob) : ScriptM Unit := do
  let name ← lift contract.toBdString
  onBatch (fun b => b.addV8Details name { details, lastError })

/-- Keeps what a contract stands at. -/
def saveState (contract : Address) (state : V8State) : ScriptM Unit := do
  let name ← lift contract.toBdString
  onBatch (fun b => b.addV8State name state)

/-- A status of the kind that the worker gives. -/
def v8Status (status : Bool × Bool) (contract : Address) : TransactionStatus.Kind :=
  .v8Status status.1 status.2 contract

/-- The state that a `compile` transaction asks the server for. -/
def compileState (w : WorkerScript) (blockNumber : UInt64) (tx : TransactionInfo)
    (scriptInfo : ScriptInfo) : Except Err V8State := do
  let answer ← w.server.requestCompileTransaction scriptInfo.txRaw tx.fromAddress tx.pubKey tx.sign
  let compileState := { answer with
    blockNumber, address := if answer.errorType = .ok then answer.address else tx.toAddress }
  let isEmpty ← compileState.address.isEmpty
  check (!isEmpty) "Empty calculated contract address"
  -- the two addresses need not be the same, but both have to be set
  let _ ← compileState.address.eq tx.toAddress
  pure compileState

/-- The branch of a `compile`; `none` when the transaction is passed over. -/
def processCompile (w : WorkerScript) (blockNumber : UInt64) (tx : TransactionInfo)
    (scriptInfo : ScriptInfo) : ScriptM (Option TransactionStatus.Kind) := do
  let compileState ← lift (w.compileState blockNumber tx scriptInfo)
  let status ← lift (v8StateToTxStatus compileState)
  let batchStates ← read (fun s => s.batchStates)
  let found ← lift (w.findV8StateF batchStates compileState.address)
  if isAlreadySaved found blockNumber then pure none
  else if !found.2.state.isEmpty then do
    let lastError ← lift (Blob.ofBytes (ascii "status exist on tx".toList))
    saveDetails compileState.address found.2.details lastError
    pure (some (v8Status (status.1, true) compileState.address))
  else if compileState.errorType ≠ .ok then do
    saveDetails compileState.address found.2.details compileState.errorMessage
    pure (some (v8Status status compileState.address))
  else do
    saveState compileState.address compileState
    saveDetails compileState.address compileState.details ∅
    let name ← lift compileState.address.toBdString
    onBatch (fun b => b.addV8Code name { code := tx.data })
    pure (some (v8Status status compileState.address))

/-- A state with an error of the script. -/
def scriptError (blockNumber : UInt64) (msg : String) (contract : Address) : Except Err V8State := do
  let hex ← contract.calcHexString
  let errorMessage ← Blob.ofBytes (ascii msg.toList ++ hex)
  pure { V8State.new blockNumber with errorMessage, errorType := .scriptError }

/-- The state that a `run` or `pay` transaction leads to. -/
def runState (w : WorkerScript) (blockNumber : UInt64) (prevState : V8State)
    (tx : TransactionInfo) (scriptInfo : ScriptInfo) : Except Err V8State :=
  if !prevState.state.isEmpty then do
    let answer ←
      w.server.requestRunTransaction prevState scriptInfo.txRaw tx.fromAddress tx.pubKey tx.sign
    pure { answer with blockNumber }
  else scriptError blockNumber "Not found compile transaction on address " tx.toAddress

/-- The branch of a `run` and of a `pay`. -/
def processRun (w : WorkerScript) (blockNumber : UInt64) (tx : TransactionInfo)
    (scriptInfo : ScriptInfo) : ScriptM (Option TransactionStatus.Kind) := do
  let batchStates ← read (fun s => s.batchStates)
  let found ← lift (w.findV8StateF batchStates tx.toAddress)
  if isAlreadySaved found blockNumber then pure none
  else do
    let runState ← lift (w.runState blockNumber found.2 tx scriptInfo)
    let status ← lift (v8StateToTxStatus runState)
    if runState.errorType ≠ .ok then
      saveDetails tx.toAddress found.2.details runState.errorMessage
    else do
      saveState tx.toAddress runState
      saveDetails tx.toAddress runState.details ∅
    pure (some (v8Status status tx.toAddress))

/-- The branch of an `unknown` script. -/
def processUnknown (w : WorkerScript) (blockNumber : UInt64) (tx : TransactionInfo) :
    ScriptM (Option TransactionStatus.Kind) := do
  let runState ← lift (scriptError blockNumber "Not found body contract on address " tx.toAddress)
  let status ← lift (v8StateToTxStatus runState)
  let batchStates ← read (fun s => s.batchStates)
  let found ← lift (w.findV8StateF batchStates tx.toAddress)
  if isAlreadySaved found blockNumber then pure none
  else do
    saveDetails tx.toAddress found.2.details runState.errorMessage
    pure (some (v8Status status tx.toAddress))

/-- The lambda `toLeveldb`. -/
def toLeveldb (w : WorkerScript) (address : Address) (tx : TransactionInfo)
    (status : TransactionStatus) : ScriptM Unit := do
  let isInitialWallet ← lift address.isInitialWallet
  if isInitialWallet then pure ()
  else do
    let addrString ← lift address.toBdString
    if w.modules.addrTxs then
      tryUpdate (fun s => (s.memory.leveldb.saveAddressStatus
        (makeAddressStatusKey addrString tx.hash) status).map (fun leveldb =>
          { s with memory := { s.memory with leveldb } }))
    else pure ()

/-- The status under the addresses of its transaction. -/
def saveAddressStatuses (w : WorkerScript) (tx : TransactionInfo) (txStatus : TransactionStatus) :
    ScriptM Unit := do
  w.toLeveldb tx.fromAddress tx txStatus
  let same ← lift (tx.fromAddress.eq tx.toAddress)
  if !same then w.toLeveldb tx.toAddress tx txStatus else pure ()

/-- The status under the hash of its transaction, in the cache first. -/
def saveTransactionStatus (w : WorkerScript) (blockNumber : UInt64) (txStatus : TransactionStatus) :
    ScriptM Unit :=
  if w.modules.txs then do
    update (fun s => { s with memory := { s.memory with
      txsStatusCache := s.memory.txsStatusCache.addValue txStatus.transaction blockNumber txStatus } })
    tryUpdate (fun s =>
      (s.memory.leveldb.saveTransactionStatus txStatus.transaction txStatus).map (fun leveldb =>
        { s with memory := { s.memory with leveldb } }))
  else pure ()

/-- `!status.isScriptError && !status.isServerError`. -/
def isSuccess : TransactionStatus.Kind → Bool
  | .v8Status isServerError isScriptError _ => !isScriptError && !isServerError
  | _ => false

/-- What follows the three branches. -/
def saveStatus (w : WorkerScript) (blockNumber : UInt64) (tx : TransactionInfo)
    (status : TransactionStatus.Kind) : ScriptM Unit := do
  let txStatus :=
    { TransactionStatus.new tx.hash tx.blockNumber with status, isSuccess := isSuccess status }
  w.saveAddressStatuses tx txStatus
  w.saveTransactionStatus blockNumber txStatus

/-- The three branches. -/
def processScript (w : WorkerScript) (blockNumber : UInt64) (tx : TransactionInfo)
    (scriptInfo : ScriptInfo) : ScriptM (Option TransactionStatus.Kind) :=
  match scriptInfo.type with
  | .compile => w.processCompile blockNumber tx scriptInfo
  | .run => w.processRun blockNumber tx scriptInfo
  | .pay => w.processRun blockNumber tx scriptInfo
  | .unknown => w.processUnknown blockNumber tx

/-- A round of the loop over the transactions. -/
def processTransaction (w : WorkerScript) (blockNumber : UInt64) (tx : TransactionInfo) :
    ScriptM Unit := do
  match tx.scriptInfo with
  | none => pure ()
  | some scriptInfo => do
    let status ← w.processScript blockNumber tx scriptInfo
    match status with
    | none => pure ()
    | some status => w.saveStatus blockNumber tx status

/-- The loop, which only simple blocks have. -/
def processTransactions (w : WorkerScript) (bi : BlockInfo) (blockNumber : UInt64) : ScriptM Unit :=
  if bi.header.isSimpleBlock then each (w.processTransaction blockNumber) bi.txs else pure ()

/-- `work` from the guards up to `addBatch`. -/
def processBlock (w : WorkerScript) (bi : BlockInfo) (blockNumber : UInt64) : ScriptM Unit := do
  w.processTransactions bi blockNumber
  onBatch (fun b => b.addScriptBlock ⟨blockNumber, bi.header.hash, 0⟩)

/-- A round of `work` with the block it took from its queue: how it ended, its database and
what it wrote elsewhere. -/
def work (w : WorkerScript) (memory : ScriptMemory) (bi : BlockInfo) :
    Outcome Unit × LevelDb × ScriptMemory :=
  guardedRound w.leveldbV8.findScriptBlock bi (w.leveldbV8, memory) (fun blockNumber =>
    match (w.processBlock bi blockNumber).exec { memory, batchStates := Batch.new } with
    | (.error e, s) => (.failed e, w.leveldbV8, s.memory)
    | (.ok _, s) => (.written (), addBatch s.batchStates w.leveldbV8, s.memory))

end WorkerScript

end TorrentNode
