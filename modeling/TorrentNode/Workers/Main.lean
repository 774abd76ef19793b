import TorrentNode.Lib.Effect
import TorrentNode.Storage.MainRecords
import TorrentNode.Structs.BlockInfo
import TorrentNode.Structs.Json
import TorrentNode.Workers.Common

/-!
# The main worker (`WorkerMain`)

A block is worked through into local variables, a batch among them, that are
gone when an exception ends the work. The counter, the cache of statuses and the
last transactions belong to the worker and keep what was done to them.
-/

namespace TorrentNode

/-- What `WorkerMain` reads while it works on a block. -/
structure WorkerMain where
  leveldb : LevelDb
  modules : Modules
  validateState : Bool
  maxCountElementsTxsCache : UInt64
  /-- `rapidjson::Document::Parse`, on a string without its terminator. -/
  parseJson : Bytes → Option Json
  /-- `fromHex` of the common library. -/
  fromHex : Bytes → Except Err Bytes

/-- What outlives a block. -/
structure MainMemory where
  /-- `Counter<false>`: its `size_t` is this modulo `2 ^ 64`. -/
  countVal : Int
  txsStatusCache : StatusCache
  lastTxs : List TransactionInfo
  deriving DecidableEq

/-- The memory, and the local variables of `worker`. -/
structure MainState where
  memory : MainMemory
  batch : Batch
  /-- `DelegateTransactionsCache`: keys in the batch by pair, the last one first. -/
  delegateCache : OrdMap Blob (List Bytes)
  balances : OrdMap Blob BalanceInfo
  commonBalance : CommonBalance
  deriving DecidableEq

/-- A program of the main worker. -/
abbrev MainM (α : Type) : Type := Effect Err MainState α

/-- `Address("0x00…00")` of 25 bytes. -/
def ZERO_ADDRESS : Address := Address.ofBlob (Blob.replicate 25 0 Blob.address_fits)

namespace WorkerMain

open Effect

/-- Do something to the batch. -/
def onBatch (f : Batch → Except Err Batch) : MainM Unit :=
  tryUpdate (fun s => (f s.batch).map (fun batch => { s with batch }))

/-- `Counter<false>::get()`. -/
def getCountVal : MainM UInt64 := do
  let v ← read (fun s => s.memory.countVal)
  update (fun s => { s with memory := { s.memory with countVal := s.memory.countVal - 1 } })
  pure (UInt64.ofInt v)

/-! ## Delegations -/

/-- Push a key on the stack of a pair. -/
def pushDelegate (pair : Blob) (key : Bytes) : MainM Unit :=
  update (fun s => { s with
    delegateCache := s.delegateCache.insert pair (key :: (s.delegateCache.find? pair).getD []) })

/-- Take the top of the stack of a pair. -/
def popDelegate (pair : Blob) : MainM Unit :=
  update (fun s => { s with
    delegateCache := s.delegateCache.insert pair ((s.delegateCache.find? pair).getD []).tail })

/-- Take back the delegation that this block put under `delegateKeyS`. -/
def takeFromBatch (delegateKey : Blob) (delegateKeyS : Bytes) : MainM DelegateState := do
  popDelegate delegateKey
  let batch ← read (fun s => s.batch)
  let foundValue ← lift (batch.findDelegateKey delegateKeyS)
  match foundValue with
  | none => lift (.error (.exception "Incorrect batch delegate"))
  | some value => do
    lift (check (!value.hash.isEmpty) "Incorrect batch delegate")
    onBatch (fun b => .ok (b.removeDelegateKey delegateKeyS))
    pure value

/-- Take back the first delegation of the database that this block has not taken back yet. -/
def takeFromLeveldb (w : WorkerMain) (delegateKey : Blob) : MainM DelegateState := do
  let batch ← read (fun s => s.batch)
  let (key, value) ← lift (w.leveldb.findDelegateKey delegateKey batch.getDeletedDelegate)
  if key.isEmpty then pure default
  else do
    lift (check (!value.hash.isEmpty) "Incorrect delegated value")
    onBatch (fun b => .ok (b.removeDelegateKey key))
    pure value

/-- The delegation that an undelegation takes back; a default one when there is none. -/
def takeDelegate (w : WorkerMain) (delegateKey : Blob) : MainM DelegateState := do
  let stack ← read (fun s => (s.delegateCache.find? delegateKey).getD [])
  match stack with
  | delegateKeyS :: _ => takeFromBatch delegateKey delegateKeyS
  | [] => w.takeFromLeveldb delegateKey

/-- A successful delegation: a record under the next number, on top of the stack of the pair. -/
def putDelegate (delegateKey : Blob) (value : UInt64) (hash : Blob) : MainM Unit := do
  let counter ← getCountVal
  let resultKey ← tryModify (fun s =>
    (s.batch.addDelegateKey delegateKey ⟨value, hash⟩ counter).map
      (fun r => (r.1, { s with batch := r.2 })))
  pushDelegate delegateKey resultKey

/-- What comes of a delegation: it stands, or it takes back the last one that stood. -/
def calcTransactionStatusDelegate (w : WorkerMain) (tx : TransactionInfo) (blockNumber : UInt64) :
    MainM TransactionStatus := do
  match tx.delegate with
  | none => lift (.error (.exception "Is not delegate transaction"))
  | some info => do
    let keyFrom ← lift tx.fromAddress.getBinaryString
    let keyTo ← lift tx.toAddress.getBinaryString
    let delegateKey ← lift (makeKeyDelegatePair keyFrom keyTo)
    let txStatus := TransactionStatus.new tx.hash blockNumber
    if info.isDelegate then
      if tx.isIntStatusNotSuccess then pure { txStatus with isSuccess := false, status := .delegate }
      else do
        putDelegate delegateKey info.value tx.hash
        pure { txStatus with isSuccess := true, status := .delegate }
    else do
      let dState ← w.takeDelegate delegateKey
      pure { txStatus with isSuccess := true, status := .unDelegate dState.value dState.hash }

/-- What comes of a transaction that is a delegation. -/
def getInstantDelegateStatus (w : WorkerMain) (tx : TransactionInfo) (blockNumber : UInt64) :
    MainM (Option TransactionStatus) := do
  if tx.delegate.isSome then do
    lift (check tx.intStatus.isSome "delegate status not seted")
    let status ← w.calcTransactionStatusDelegate tx blockNumber
    pure (some status)
  else pure none

/-- The delegations of an address, each with the address that it is to. -/
def getDelegateStates (leveldb : LevelDb) (fromAddress : Address) :
    Except Err (List (Address × DelegateState)) := do
  let address ← fromAddress.getBinaryString
  let result ← leveldb.findAllDelegatedPairKeys address
  result.mapM (fun element => do
    let secondAddress ← getSecondOnKeyDelegatePair address element.1
    check (!secondAddress.isEmpty) "Delegate pair address empty"
    let state ← DelegateState.deserialize element.2
    pure (Address.ofBlob secondAddress, state))

/-! ## Records of a transaction -/

/-- Keeps what came of a transaction, in the batch and in the cache. -/
def saveTransactionStatus (txStatus : TransactionStatus) (attributeTxStatusCache : UInt64) :
    MainM Unit := do
  onBatch (fun b => b.addTransactionStatus txStatus.transaction txStatus)
  update (fun s => { s with memory := { s.memory with
    txsStatusCache :=
      s.memory.txsStatusCache.addValue txStatus.transaction attributeTxStatusCache txStatus } })

/-- Keeps the place of a transaction. -/
def saveTransaction (tx : TransactionInfo) : MainM Unit :=
  onBatch (fun b => b.addTransaction tx.hash tx)

/-- `saveAddressTransaction` and `saveAddressTokenTransaction`, which differ in the record. -/
def saveUnderAddress (add : Batch → Blob → AddressInfo → UInt64 → Except Err Batch)
    (tx : TransactionInfo) (address : Address) : MainM Unit := do
  let addrInfo :=
    AddressInfo.new tx.filePos.pos tx.filePos.fileNameRelative tx.blockNumber tx.blockIndex
  let name ← lift address.toBdString
  let counter ← getCountVal
  onBatch (fun b => add b name addrInfo counter)

/-- Keeps a transaction for an address. -/
def saveAddressTransaction : TransactionInfo → Address → MainM Unit :=
  saveUnderAddress Batch.addAddress

/-- Keeps a transaction for an address whose tokens it moves. -/
def saveAddressTokenTransaction : TransactionInfo → Address → MainM Unit :=
  saveUnderAddress Batch.addAddressToken

/-- Keeps what came of a transaction for an address. -/
def saveAddressStatus (status : TransactionStatus) (address : Address) : MainM Unit := do
  let name ← lift address.toBdString
  onBatch (fun b => b.addAddressStatus (makeAddressStatusKey name status.transaction) status)

/-! ## Balances -/

/-- Change the balance that a block gives an address. -/
def onBalance (address : Address) (f : BalanceInfo → Except Err BalanceInfo) : MainM Unit := do
  let name ← lift address.toBdString
  tryUpdate (fun s => (f ((s.balances.find? name).getD default)).map (fun b =>
    { s with balances := s.balances.insert name b }))

/-- Updates the balance of an address by a transaction. -/
def saveAddressBalance (tx : TransactionInfo) (address : Address) (isForging : Bool) : MainM Unit :=
  onBalance address (fun b =>
    b.plusWithoutDelegate tx address (!tx.isIntStatusNoBalance) isForging)

/-- The value that a delegation takes off the balance a second time, for an undelegation. -/
def undelegateValue (info : DelegateInfo) (status : TransactionStatus) :
    Except Err (Option UInt64) :=
  if info.isDelegate then .ok none
  else match status.status with
    | .unDelegate value _ => .ok (some value)
    | _ => .error (.exception "Transaction status incorrect")

/-- Updates the balance of an address by a delegation. -/
def saveAddressBalanceDelegate (tx : TransactionInfo) (status : TransactionStatus)
    (address : Address) : MainM Unit := do
  match tx.delegate with
  | none => lift (.error (.exception "Transaction not delegate"))
  | some info => do
    let undelegateValue ← lift (undelegateValue info status)
    onBalance address (fun b => b.plusWithDelegate tx address undelegateValue status.isSuccess)

/-- Updates the balances of those who get a new token. -/
def saveAddressBalanceCreateToken (tx : TransactionInfo) : MainM Unit := do
  match tx.tokenInfo with
  | some (.create _ owner _ value _ _ _ beginDistribution) => do
    each (fun (d : Address × UInt64) => onBalance d.1 (fun b =>
      b.addTokens tx d.2 (!tx.isIntStatusNotSuccess))) beginDistribution
    let rest := beginDistribution.foldl (fun rest d => rest - d.2) value
    onBalance owner (fun b => b.addTokens tx rest (!tx.isIntStatusNotSuccess))
  | _ => pure ()

/-- Updates the balance of the one who gets more of a token. -/
def saveAddressBalanceAddToken (tx : TransactionInfo) : MainM Unit := do
  match tx.tokenInfo with
  | some (.addTokens toAddress value) =>
    onBalance toAddress (fun b => b.addTokens tx value (!tx.isIntStatusNotSuccess))
  | _ => pure ()

/-- Updates the balances of both sides when tokens move. -/
def saveAddressBalanceMoveToken (tx : TransactionInfo) : MainM Unit := do
  match tx.tokenInfo with
  | some (.moveTokens toAddress value) => do
    onBalance toAddress (fun b =>
      b.moveTokens tx toAddress toAddress value (!tx.isIntStatusNotSuccess))
    let same ← lift (toAddress.eq tx.fromAddress)
    if !same then
      onBalance tx.fromAddress (fun b =>
        b.moveTokens tx tx.fromAddress toAddress value (!tx.isIntStatusNotSuccess))
    else pure ()
  | _ => pure ()

/-- Updates the balance of the one whose tokens are gone. -/
def saveAddressBalanceBurnToken (tx : TransactionInfo) : MainM Unit := do
  match tx.tokenInfo with
  | some (.burnTokens value) =>
    onBalance tx.fromAddress (fun b =>
      b.moveTokens tx tx.fromAddress ZERO_ADDRESS value (!tx.isIntStatusNotSuccess))
  | _ => pure ()

/-! ## Tokens -/

/-- The record of a token, out of the batch if it is there. -/
def takeToken (w : WorkerMain) (name : Blob) : MainM Token := do
  let batch ← read (fun s => s.batch)
  let tokenStr1 ← lift (batch.findToken name)
  match tokenStr1 with
  | some tokenInfo => do
    onBatch (fun b => b.removeToken name)
    pure tokenInfo
  | none => lift (w.leveldb.findToken name)

/-- What an operation makes of a token; of one that is not there nothing. -/
def processTokenOperation (w : WorkerMain) (token : Address) (process : Token → Token) :
    MainM Unit := do
  let name ← lift token.toBdString
  let tokenInfo ← w.takeToken name
  if tokenInfo.type.isEmpty then pure ()
  else onBatch (fun b => b.addToken name (process tokenInfo))

/-- What the operations of `changeTokenOwner`, `changeTokenEmission` and `changeTokenValue` do to
the record; `none` for the other kinds. -/
def tokenChange : TokenInfo → Option (Token → Token)
  | .changeOwner newOwner => some (fun t => { t with owner := newOwner })
  | .changeEmission newEmission => some (fun t => { t with emission := newEmission })
  | .addTokens _ value => some (fun t => { t with allValue := t.allValue + value })
  | .burnTokens value => some (fun t => { t with allValue := t.allValue - value })
  | _ => none

/-- `changeTokenOwner`, `changeTokenEmission` and `changeTokenValue`. -/
def changeToken (w : WorkerMain) (tx : TransactionInfo) (info : TokenInfo) : MainM Unit := do
  if tx.isIntStatusNotSuccess then pure ()
  else match tokenChange info with
    | none => pure ()
    | some process => w.processTokenOperation tx.toAddress process

/-- The record that a `Create` makes. -/
def createdToken (tx : TransactionInfo) (type : Blob) (owner : Address) (decimals : UInt32)
    (value : UInt64) (symbol name : Blob) (emission : Bool) : Token :=
  { type, allValue := value, beginValue := value, decimals, emission, name, owner, symbol,
    txHash := tx.hash }

/-- The part of `worker` about token operations, for a successful one. -/
def saveToken (w : WorkerMain) (tx : TransactionInfo) (info : TokenInfo) : MainM Unit := do
  match info with
  | .create type owner decimals value symbol name emission beginDistribution => do
    let address ← lift tx.toAddress.toBdString
    onBatch (fun b =>
      b.addToken address (createdToken tx type owner decimals value symbol name emission))
    saveAddressTokenTransaction tx owner
    each (fun (d : Address × UInt64) => saveAddressTokenTransaction tx d.1) beginDistribution
  | .changeOwner newOwner => do
    w.changeToken tx info
    saveAddressTokenTransaction tx tx.fromAddress
    saveAddressTokenTransaction tx newOwner
  | .changeEmission _ => do
    w.changeToken tx info
    saveAddressTokenTransaction tx tx.fromAddress
  | .addTokens toAddress _ => do
    w.changeToken tx info
    saveAddressTokenTransaction tx toAddress
  | .moveTokens toAddress _ => do
    saveAddressTokenTransaction tx tx.fromAddress
    let same ← lift (tx.fromAddress.eq toAddress)
    if !same then saveAddressTokenTransaction tx toAddress else pure ()
  | .burnTokens _ => do
    w.changeToken tx info
    saveAddressTokenTransaction tx tx.fromAddress

/-! ## A block -/

/-- The part of the lambda `toLeveldb` for `MODULE_ADDR_TXS`. -/
def saveHistory (w : WorkerMain) (address : Address) (tx : TransactionInfo)
    (statusDelegate : Option TransactionStatus) : MainM Unit :=
  if w.modules.addrTxs then do
    saveAddressTransaction tx address
    match statusDelegate with
    | some status => saveAddressStatus status address
    | none => pure ()
  else pure ()

/-- The part of the lambda `toLeveldb` for `MODULE_BALANCE`. -/
def saveBalance (w : WorkerMain) (isForging : Bool) (address : Address) (tx : TransactionInfo)
    (statusDelegate : Option TransactionStatus) : MainM Unit :=
  if w.modules.balance then do
    saveAddressBalance tx address isForging
    match tx.delegate, statusDelegate with
    | some _, some status => saveAddressBalanceDelegate tx status address
    | _, _ => pure ()
  else pure ()

/-- The lambda `toLeveldb` of `worker`. -/
def toLeveldb (w : WorkerMain) (isForging : Bool) (address : Address) (tx : TransactionInfo)
    (statusDelegate : Option TransactionStatus) : MainM Unit := do
  let isInitialWallet ← lift address.isInitialWallet
  if isInitialWallet || tx.isIntStatusNodeTest then pure ()
  else do
    w.saveHistory address tx statusDelegate
    w.saveBalance isForging address tx statusDelegate

/-- `toLeveldb` for the two addresses of a transaction. -/
def toLeveldbBoth (w : WorkerMain) (isForging : Bool) (tx : TransactionInfo)
    (statusDelegate : Option TransactionStatus) : MainM Unit := do
  w.toLeveldb isForging tx.fromAddress tx statusDelegate
  let same ← lift (tx.fromAddress.eq tx.toAddress)
  if !same then w.toLeveldb isForging tx.toAddress tx statusDelegate else pure ()

/-- Keeps what came of a delegation, if it was one. -/
def saveDelegateStatus (blockNumber : UInt64) (txStatusDelegate : Option TransactionStatus) :
    MainM Unit :=
  match txStatusDelegate with
  | some status => saveTransactionStatus status blockNumber
  | none => pure ()

/-- The tokens of a transaction, for a successful one. -/
def saveTokenInfo (w : WorkerMain) (tx : TransactionInfo) : MainM Unit :=
  match tx.tokenInfo with
  | some info => if tx.isIntStatusNotSuccess then pure () else w.saveToken tx info
  | none => pure ()

/-- What `worker` does with a transaction for `MODULE_TXS`. -/
def saveTxs (w : WorkerMain) (blockNumber : UInt64) (tx : TransactionInfo)
    (txStatusDelegate : Option TransactionStatus) : MainM Unit :=
  if w.modules.txs then do
    saveTransaction tx
    saveDelegateStatus blockNumber txStatusDelegate
    w.saveTokenInfo tx
  else pure ()

/-- The token part of the balances; each of the four looks at its own kind of operation. -/
def saveTokenBalances (w : WorkerMain) (tx : TransactionInfo) : MainM Unit :=
  if w.modules.balance then do
    saveAddressBalanceCreateToken tx
    saveAddressBalanceAddToken tx
    saveAddressBalanceMoveToken tx
    saveAddressBalanceBurnToken tx
  else pure ()

/-- The records of a transaction; returns the status of a delegation. -/
def saveRecords (w : WorkerMain) (header : BlockHeader) (blockNumber : UInt64)
    (tx : TransactionInfo) : MainM (Option TransactionStatus) :=
  if w.modules.balance || w.modules.txs || w.modules.addrTxs then do
    let txStatusDelegate ← w.getInstantDelegateStatus tx blockNumber
    w.toLeveldbBoth header.isForgingBlock tx txStatusDelegate
    w.saveTxs blockNumber tx txStatusDelegate
    w.saveTokenBalances tx
    pure txStatusDelegate
  else pure none

/-- The money that a transaction brings into the system. -/
def addCommonBalance (w : WorkerMain) (header : BlockHeader) (blockNumber : UInt64)
    (updateCommonBalance : Bool) (tx : TransactionInfo) : MainM Unit :=
  if w.modules.block && updateCommonBalance then do
    let isInitialWallet ← lift tx.fromAddress.isInitialWallet
    if isInitialWallet || header.isForgingBlock then
      update (fun s => { s with
        commonBalance := { money := s.commonBalance.money + tx.value, blockNumber } })
    else pure ()
  else pure ()

/-- A round of the loop over the transactions; returns the status of a delegation. -/
def processTransaction (w : WorkerMain) (header : BlockHeader) (blockNumber : UInt64)
    (updateCommonBalance : Bool) (tx : TransactionInfo) : MainM (Option TransactionStatus) := do
  let txStatusDelegate ← w.saveRecords header blockNumber tx
  w.addCommonBalance header blockNumber updateCommonBalance tx
  pure txStatusDelegate

/-- The loop, with the statuses it computes. -/
def processTransactions (w : WorkerMain) (header : BlockHeader) (blockNumber : UInt64)
    (updateCommonBalance : Bool) : List TransactionInfo → MainM (List (Option TransactionStatus))
  | [] => pure []
  | tx :: txs => do
    let status ← w.processTransaction header blockNumber updateCommonBalance tx
    let statuses ← w.processTransactions header blockNumber updateCommonBalance txs
    pure (status :: statuses)

/-- What a block forged of each kind. -/
def makeForgingSums (blockNumber : UInt64) (txs : List TransactionInfo) : ForgingSums :=
  let zero := TransactionInfo.getForgingIntStatuses.foldl
    (fun (m : OrdMap UInt64 UInt64) status => m.insert status 0) ∅
  { blockNumber
    sums := txs.foldl (fun m tx =>
      match tx.intStatus with
      | some status =>
        if tx.isIntStatusForging then m.insert status ((m.find? status).getD 0 + tx.value) else m
      | none => m) zero }

/-- `std::to_string` of an `int64_t` given by its bits. -/
def toSignedString (bits : UInt64) : String := toString bits.toBitVec.toInt

/-- The text in front of an address in the messages of `validateStateBlock`. -/
def incorrectState (what : String) (address : Address) : String :=
  "Incorrect state " ++ what ++ " value in address 0x" ++ toHex address.address.val

/-- One element of `delegate_to`: `Address(addressJson)` and the value. -/
def parseDelegateTo (w : WorkerMain) (address : Address) (j : Json) :
    Except Err (Blob × UInt64) := do
  let incorrect := incorrectState "delegate" address
  check j.isObject incorrect
  match (j.find? "a").bind Json.getString with
  | none => .error (.exception incorrect)
  | some addressJson =>
    match (j.find? "v").bind Json.getInt64 with
    | none => .error (.exception incorrect)
    | some valueJson => do
      check (!addressJson.isEmpty) "Empty address"
      check (addressJson.take 2 == ascii ['0', 'x'])
        ("Incorrect address " ++ text addressJson)
      let bytes ← w.fromHex addressJson
      let blob ← Blob.ofBytes bytes
      pure (blob, valueJson)

/-- The check of one entry of a state block. -/
def validateStateTx (w : WorkerMain) (tx : TransactionInfo) : Except Err Unit := do
  let address := tx.toAddress
  let isZero ← address.eq ZERO_ADDRESS
  if isZero then pure ()
  else do
    let name ← address.toBdString
    let balance ← w.leveldb.findBalance name
    let delegateStates ← getDelegateStates w.leveldb address
    -- sorted downwards here and read from the end below
    let delegateStates := delegateStates.mergeSort (fun a b => b.1.address ≤ a.1.address)
    check (balance.calcBalanceWithoutDelegate == tx.value)
      (incorrectState "balance" address ++ " " ++
        toSignedString balance.calcBalanceWithoutDelegate ++ " " ++ toSignedString tx.value)
    match w.parseJson (tx.data.val.takeWhile (fun c => c ≠ 0)) with
    | none => pure ()
    | some doc =>
      match (← doc.member "delegate_to").bind Json.getArray with
      | none => pure ()
      | some delegated => do
        let incorrect := incorrectState "delegate" address
        check (delegateStates.length == delegated.length) incorrect
        let delegateStates2 ← delegated.mapM (w.parseDelegateTo address)
        let delegateStates2 := delegateStates2.mergeSort (fun a b => a.1 ≤ b.1)
        (delegateStates.reverse.zip delegateStates2).forM (fun (d, d2) => do
          check (d2.1 == d.1.address)
            (incorrect ++ " 0x" ++ toHex d.1.address.val ++ " 0x" ++ toHex d2.1.val)
          check (d.2.value == d2.2) incorrect)

/-- Checks the balances that a state block tells, if that is asked for. -/
def validateStateBlock (w : WorkerMain) (bi : BlockInfo) : Except Err Unit :=
  if !w.validateState then .ok () else bi.txs.forM w.validateStateTx

/-- The merge of one balance of the block into the stored one. -/
def mergeBalance (w : WorkerMain) (blockNumber : UInt64) (e : Blob × BalanceInfo) : MainM Unit := do
  let oldBalance ← lift (w.leveldb.findBalance e.1)
  if oldBalance.blockNumber < blockNumber then
    onBatch (fun b => b.addBalance e.1 (oldBalance.add e.2))
  else pure ()

/-- The transactions of a block, or the check of a state block. -/
def processKind (w : WorkerMain) (bi : BlockInfo) (blockNumber : UInt64)
    (updateCommonBalance : Bool) : MainM (List (Option TransactionStatus)) :=
  if bi.header.isForgingBlock || bi.header.isSimpleBlock then
    w.processTransactions bi.header blockNumber updateCommonBalance bi.txs
  else if bi.header.isStateBlock then do
    lift (w.validateStateBlock bi)
    pure []
  else pure []

/-- Keeps what was forged, with what had been before. -/
def saveForgingSums (w : WorkerMain) (bi : BlockInfo) (blockNumber : UInt64) : MainM Unit :=
  if bi.header.isForgingBlock then do
    let oldForgingSums ← lift w.leveldb.findForgingSumsAll
    onBatch (fun b => b.addAllForgedSums ((makeForgingSums blockNumber bi.txs).add oldForgingSums))
  else pure ()

/-- Merges the balances of the block with those that are stored. -/
def saveBalances (w : WorkerMain) (blockNumber : UInt64) : MainM Unit :=
  if w.modules.balance then do
    let balances ← read (fun s => s.balances.entries)
    each (w.mergeBalance blockNumber) balances
  else pure ()

/-- Keeps the money that there is. -/
def saveCommonBalance (w : WorkerMain) : MainM Unit :=
  if w.modules.block then do
    let commonBalance ← read (fun s => s.commonBalance)
    onBatch (fun b => b.addCommonBalance commonBalance)
  else pure ()

/-- What `worker` puts into the batch for a block, but for the record of the block itself;
returns the statuses of the delegations. -/
def processContent (w : WorkerMain) (bi : BlockInfo) (blockNumber : UInt64) :
    MainM (List (Option TransactionStatus)) := do
  let commonBalance ← lift w.leveldb.findCommonBalance
  update (fun s => { s with commonBalance })
  let statuses ←
    w.processKind bi blockNumber (decide (commonBalance.blockNumber < blockNumber))
  w.saveForgingSums bi blockNumber
  w.saveBalances blockNumber
  w.saveCommonBalance
  pure statuses

/-- `batch.addMainBlock(...)`, the last thing before the batch is written. -/
def saveMainBlock (bi : BlockInfo) (blockNumber : UInt64) : MainM Unit := do
  let countVal ← read (fun s => s.memory.countVal)
  onBatch (fun b => b.addMainBlock ⟨blockNumber, bi.header.hash, UInt64.ofInt countVal⟩)

/-- `worker` from the guards up to `addBatch`. -/
def processBlock (w : WorkerMain) (bi : BlockInfo) (blockNumber : UInt64) :
    MainM (List (Option TransactionStatus)) := do
  let statuses ← w.processContent bi blockNumber
  saveMainBlock bi blockNumber
  pure statuses

/-- The local variables of `worker` at the start of a block. -/
def blockStart (memory : MainMemory) : MainState :=
  { memory, batch := Batch.new, delegateCache := ∅, balances := ∅, commonBalance := default }

/-- What `worker` does to its memory once the batch is written. -/
def remember (w : WorkerMain) (memory : MainMemory) (bi : BlockInfo) (blockNumber : UInt64) :
    MainMemory :=
  { memory with
    txsStatusCache := memory.txsStatusCache.remove (blockNumber - w.maxCountElementsTxsCache)
    lastTxs := (bi.txs.take 100 ++ memory.lastTxs).take 100 }

/-- A round of `worker` with the block it took from its queue: how it ended, with the statuses of
the delegations, its database and its memory. -/
def worker (w : WorkerMain) (memory : MainMemory) (bi : BlockInfo) :
    Outcome (List (Option TransactionStatus)) × LevelDb × MainMemory :=
  match bi.header.blockNumber with
  | none => (.failed (.std "bad_optional_access"), w.leveldb, memory)
  | some number =>
    let blockNumber := UInt64.ofNat number
    match w.leveldb.findMainBlock.bind (fun oldMetadata => guards oldMetadata blockNumber bi.header)
      with
    | .error e => (.failed e, w.leveldb, memory)
    | .ok false => (.skipped, w.leveldb, memory)
    | .ok true =>
      match (w.processBlock bi blockNumber).exec (blockStart memory) with
      | (.error e, s) => (.failed e, w.leveldb, s.memory)
      | (.ok statuses, s) =>
        (.written statuses, addBatch s.batch w.leveldb, w.remember s.memory bi blockNumber)

/-- The constructor: the counter goes on below where the record says it stood. -/
def startMemory (oldMetadata : WorkerBlockInfo) : MainMemory :=
  { countVal := (oldMetadata.countVal - 1).toNat
    txsStatusCache := { map := ∅, attributes := ∅ }
    lastTxs := [] }

end WorkerMain

end TorrentNode
