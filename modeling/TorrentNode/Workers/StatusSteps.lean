import TorrentNode.Lib.SideLog
import TorrentNode.Workers.Main
import TorrentNode.Workers.Script
import TorrentNode.Workers.StatusWindow

/-!
# The workers as runs over the status cache

Neither worker reads the cache that both fill. So a round of a worker comes to a list of
statuses that it puts there under the number of its block, the same list whatever the
other worker does in between, and these are the steps of `StatusWindow`.
-/

namespace TorrentNode

/-- A status into the cache, for a block. -/
def StatusCache.enter (n : UInt64) (c : StatusCache) (status : TransactionStatus) : StatusCache :=
  c.addValue status.transaction n status

namespace WorkerMain

open Effect SideLog

/-- The cache in the state of the main worker. -/
def statusLog (n : UInt64) : SideLog MainState StatusCache TransactionStatus where
  put c s := { s with memory := { s.memory with txsStatusCache := c } }
  enter := StatusCache.enter n

variable {w : WorkerMain} {tx : TransactionInfo} {n : UInt64}

theorem logs_onBatch {f : Batch → Except Err Batch} : (statusLog n).Logs (onBatch f) := by
  refine logs_tryUpdate (fun c s => ?_)
  show (f s.batch).map _ = ((f s.batch).map _).map _
  cases f s.batch with
  | error e => rfl
  | ok b => rfl

theorem logs_getCountVal : (statusLog n).Logs getCountVal :=
  logs_bind (logs_read (fun _ _ => rfl)) (fun _ => logs_bind (logs_update (fun _ _ => rfl))
    (fun _ => logs_pure _))

theorem logs_putDelegate {pair hash : Blob} {value : UInt64} :
    (statusLog n).Logs (putDelegate pair value hash) := by
  refine logs_bind logs_getCountVal (fun counter => logs_bind (logs_tryModify (fun c s => ?_))
    (fun _ => logs_update (fun _ _ => rfl)))
  show (s.batch.addDelegateKey pair ⟨value, hash⟩ counter).map _ = (Except.map _ _).map _
  cases s.batch.addDelegateKey pair ⟨value, hash⟩ counter with
  | error e => rfl
  | ok r => rfl

theorem logs_takeDelegate {pair : Blob} : (statusLog n).Logs (w.takeDelegate pair) := by
  refine logs_bind (logs_read (fun _ _ => rfl)) (fun stack => ?_)
  cases stack with
  | nil =>
      refine logs_bind (logs_read (fun _ _ => rfl)) (fun _ => logs_bind (logs_lift _)
        (fun found => ?_))
      exact logs_ite (logs_pure _) (logs_bind (logs_lift _) (fun _ =>
        logs_bind logs_onBatch (fun _ => logs_pure _)))
  | cons key rest =>
      refine logs_bind (logs_update (fun _ _ => rfl)) (fun _ => logs_bind
        (logs_read (fun _ _ => rfl)) (fun _ => logs_bind (logs_lift _) (fun found => ?_)))
      cases found with
      | none => exact logs_lift _
      | some value => exact logs_bind (logs_lift _) (fun _ =>
          logs_bind logs_onBatch (fun _ => logs_pure _))

theorem logs_delegateStatus : (statusLog n).Logs (w.getInstantDelegateStatus tx n) := by
  refine logs_ite (logs_bind (logs_lift _) (fun _ => logs_bind ?_ (fun _ => logs_pure _)))
    (logs_pure _)
  unfold calcTransactionStatusDelegate
  cases tx.delegate with
  | none => exact logs_lift _
  | some info =>
      refine logs_bind (logs_lift _) (fun _ => logs_bind (logs_lift _) (fun _ =>
        logs_bind (logs_lift _) (fun _ => logs_ite (logs_ite (logs_pure _) ?_) ?_)))
      · exact logs_bind logs_putDelegate (fun _ => logs_pure _)
      · exact logs_bind logs_takeDelegate (fun _ => logs_pure _)

/-! ## Records of a transaction -/

theorem logs_saveUnderAddress {add : Batch → Blob → AddressInfo → UInt64 → Except Err Batch}
    {address : Address} : (statusLog n).Logs (saveUnderAddress add tx address) :=
  logs_bind (logs_lift _) (fun _ => logs_bind logs_getCountVal (fun _ => logs_onBatch))

theorem logs_saveHistory {address : Address} {status : Option TransactionStatus} :
    (statusLog n).Logs (w.saveHistory address tx status) := by
  refine logs_ite (logs_bind logs_saveUnderAddress (fun _ => ?_)) (logs_pure _)
  cases status with
  | none => exact logs_pure _
  | some status => exact logs_bind (logs_lift _) (fun _ => logs_onBatch)

theorem logs_onBalance {address : Address} {f : BalanceInfo → Except Err BalanceInfo} :
    (statusLog n).Logs (onBalance address f) := by
  refine logs_bind (logs_lift _) (fun name => logs_tryUpdate (fun c s => ?_))
  show (f ((s.balances.find? name).getD default)).map _ = (Except.map _ _).map _
  cases f ((s.balances.find? name).getD default) with
  | error e => rfl
  | ok b => rfl

theorem logs_saveBalance {isForging : Bool} {address : Address}
    {status : Option TransactionStatus} :
    (statusLog n).Logs (w.saveBalance isForging address tx status) := by
  refine logs_ite (logs_bind logs_onBalance (fun _ => ?_)) (logs_pure _)
  cases hinfo : tx.delegate with
  | none => exact logs_pure _
  | some info =>
      cases status with
      | none => exact logs_pure _
      | some status =>
          show (statusLog n).Logs (saveAddressBalanceDelegate tx status address)
          unfold saveAddressBalanceDelegate
          rw [hinfo]
          exact logs_bind (logs_lift _) (fun _ => logs_onBalance)

theorem logs_toLeveldb {isForging : Bool} {address : Address}
    {status : Option TransactionStatus} :
    (statusLog n).Logs (w.toLeveldb isForging address tx status) :=
  logs_bind (logs_lift _) (fun _ => logs_ite (logs_pure _)
    (logs_bind logs_saveHistory (fun _ => logs_saveBalance)))

theorem logs_toLeveldbBoth {isForging : Bool} {status : Option TransactionStatus} :
    (statusLog n).Logs (w.toLeveldbBoth isForging tx status) :=
  logs_bind logs_toLeveldb (fun _ => logs_bind (logs_lift _) (fun _ =>
    logs_ite logs_toLeveldb (logs_pure _)))

/-- The one place where the main worker uses the cache before its block is written. -/
theorem logs_saveDelegateStatus {status : Option TransactionStatus} :
    (statusLog n).Logs (saveDelegateStatus n status) := by
  cases status with
  | none => exact logs_pure _
  | some status => exact logs_bind logs_onBatch (fun _ =>
      logs_enter (r := status) (fun _ _ => rfl))

theorem logs_changeToken {info : TokenInfo} : (statusLog n).Logs (w.changeToken tx info) := by
  unfold changeToken
  refine logs_ite (logs_pure _) ?_
  cases tokenChange info with
  | none => exact logs_pure _
  | some process =>
      refine logs_bind (logs_lift _) (fun _ => logs_bind ?_ (fun _ =>
        logs_ite (logs_pure _) logs_onBatch))
      refine logs_bind (logs_read (fun _ _ => rfl)) (fun _ => logs_bind (logs_lift _)
        (fun found => ?_))
      cases found with
      | none => exact logs_lift _
      | some token => exact logs_bind logs_onBatch (fun _ => logs_pure _)

theorem logs_saveToken {info : TokenInfo} : (statusLog n).Logs (w.saveToken tx info) := by
  cases info with
  | create => exact logs_bind (logs_lift _) (fun _ => logs_bind logs_onBatch (fun _ =>
      logs_bind logs_saveUnderAddress (fun _ => logs_each (fun _ => logs_saveUnderAddress) _)))
  | changeOwner => exact logs_bind logs_changeToken (fun _ =>
      logs_bind logs_saveUnderAddress (fun _ => logs_saveUnderAddress))
  | moveTokens => exact logs_bind logs_saveUnderAddress (fun _ => logs_bind (logs_lift _)
      (fun _ => logs_ite logs_saveUnderAddress (logs_pure _)))
  | _ => exact logs_bind logs_changeToken (fun _ => logs_saveUnderAddress)

theorem logs_saveTxs {status : Option TransactionStatus} :
    (statusLog n).Logs (w.saveTxs n tx status) := by
  refine logs_ite (logs_bind logs_onBatch (fun _ => logs_bind logs_saveDelegateStatus
    (fun _ => ?_))) (logs_pure _)
  unfold saveTokenInfo
  cases tx.tokenInfo with
  | none => exact logs_pure _
  | some info => exact logs_ite (logs_pure _) logs_saveToken

theorem logs_saveTokenBalances : (statusLog n).Logs (w.saveTokenBalances tx) := by
  unfold saveTokenBalances saveAddressBalanceCreateToken saveAddressBalanceAddToken
    saveAddressBalanceMoveToken saveAddressBalanceBurnToken
  refine logs_ite (logs_bind ?_ (fun _ => logs_bind ?_ (fun _ => logs_bind ?_ (fun _ => ?_))))
    (logs_pure _)
  · split
    · exact logs_bind (logs_each (fun _ => logs_onBalance) _) (fun _ => logs_onBalance)
    · exact logs_pure _
  · split
    · exact logs_onBalance
    · exact logs_pure _
  · split
    · exact logs_bind logs_onBalance (fun _ => logs_bind (logs_lift _) (fun _ =>
        logs_ite logs_onBalance (logs_pure _)))
    · exact logs_pure _
  · split
    · exact logs_onBalance
    · exact logs_pure _

/-! ## A block -/

theorem logs_processTransaction {header : BlockHeader} {updateCommonBalance : Bool} :
    (statusLog n).Logs (w.processTransaction header n updateCommonBalance tx) := by
  refine logs_bind ?_ (fun _ => logs_bind ?_ (fun _ => logs_pure _))
  · exact logs_ite (logs_bind logs_delegateStatus (fun _ => logs_bind logs_toLeveldbBoth (fun _ =>
      logs_bind logs_saveTxs (fun _ => logs_bind logs_saveTokenBalances (fun _ =>
        logs_pure _))))) (logs_pure _)
  · exact logs_ite (logs_bind (logs_lift _) (fun _ =>
      logs_ite (logs_update (fun _ _ => rfl)) (logs_pure _))) (logs_pure _)

theorem logs_processTransactions {header : BlockHeader} {updateCommonBalance : Bool} :
    ∀ txs : List TransactionInfo,
      (statusLog n).Logs (w.processTransactions header n updateCommonBalance txs)
  | [] => logs_pure _
  | _ :: txs => logs_bind logs_processTransaction (fun _ =>
      logs_bind (logs_processTransactions txs) (fun _ => logs_pure _))

theorem logs_processKind {bi : BlockInfo} {updateCommonBalance : Bool} :
    (statusLog n).Logs (w.processKind bi n updateCommonBalance) :=
  logs_ite (logs_processTransactions _) (logs_ite
    (logs_bind (logs_lift _) (fun _ => logs_pure _)) (logs_pure _))

theorem logs_mergeBalance {e : Blob × BalanceInfo} : (statusLog n).Logs (w.mergeBalance n e) :=
  logs_bind (logs_lift _) (fun _ => logs_ite logs_onBatch (logs_pure _))

/-- **The work of the main worker on a block only enters statuses into the cache.** -/
theorem logs_processBlock {bi : BlockInfo} : (statusLog n).Logs (w.processBlock bi n) := by
  refine logs_bind ?_ (fun _ => logs_bind (logs_bind (logs_read (fun _ _ => rfl))
    (fun _ => logs_onBatch)) (fun _ => logs_pure _))
  refine logs_bind (logs_lift _) (fun _ => logs_bind (logs_update (fun _ _ => rfl)) (fun _ =>
    logs_bind logs_processKind (fun _ => logs_bind ?_ (fun _ => logs_bind ?_ (fun _ =>
      logs_bind ?_ (fun _ => logs_pure _))))))
  · exact logs_ite (logs_bind (logs_lift _) (fun _ => logs_onBatch)) (logs_pure _)
  · exact logs_ite (logs_bind (logs_read (fun _ _ => rfl)) (fun _ =>
      logs_each (fun _ => logs_mergeBalance) _)) (logs_pure _)
  · exact logs_ite (logs_bind (logs_read (fun _ _ => rfl)) (fun _ => logs_onBatch)) (logs_pure _)

open StatusWindow in
theorem cache_run_saves {m : UInt64} (log : List TransactionStatus) :
    ∀ s : StatusWindow.State,
      (run m s (log.map .mainSaves)).mainBlock = s.mainBlock ∧
      (run m s (log.map .mainSaves)).cache =
        (statusLog (UInt64.ofNat (s.mainBlock + 1))).entered s.cache log := by
  induction log with
  | nil => exact fun _ => ⟨rfl, rfl⟩
  | cons status log ih => exact fun s => ih (step m s (.mainSaves status))

/-- What a round of the main worker comes to: its statuses, and the end of its block if it was
written. -/
def actions {α : Type} : Outcome α → List TransactionStatus → List StatusWindow.Action
  | .written _, log => log.map .mainSaves ++ [.mainEnds]
  | _, log => log.map .mainSaves

/-- **A round of the main worker is a run of its own steps, the same from any cache.** -/
theorem worker_eq_run (memory : MainMemory) (bi : BlockInfo) {number : Nat}
    (hnumber : bi.header.blockNumber = some number) :
    ∃ log : List TransactionStatus, ∀ s : StatusWindow.State, s.mainBlock + 1 = number →
      w.worker { memory with txsStatusCache := s.cache } bi =
        ((w.worker memory bi).1, (w.worker memory bi).2.1,
          { (w.worker memory bi).2.2 with
            txsStatusCache := (StatusWindow.run w.maxCountElementsTxsCache s
              (actions (w.worker memory bi).1 log)).cache }) := by
  unfold worker
  rw [hnumber]
  dsimp only
  cases w.leveldb.findMainBlock.bind (fun oldMetadata =>
      guards oldMetadata (UInt64.ofNat number) bi.header) with
  | error e => exact ⟨[], fun s _ => rfl⟩
  | ok go =>
      -- A block that the guards skip takes no step.
      cases go with
      | false => exact ⟨[], fun s _ => rfl⟩
      | true =>
          have hlogs : (statusLog (UInt64.ofNat number)).Logs
              (w.processBlock bi (UInt64.ofNat number)) := logs_processBlock
          obtain ⟨log, hlog⟩ := hlogs (blockStart memory)
          refine ⟨log, fun s hs => ?_⟩
          have hstart : blockStart { memory with txsStatusCache := s.cache } =
              (statusLog (UInt64.ofNat number)).put s.cache (blockStart memory) := rfl
          have hsaves := cache_run_saves (m := w.maxCountElementsTxsCache) log s
          dsimp only
          rw [hstart, hlog s.cache]
          rcases (w.processBlock bi (UInt64.ofNat number)).exec (blockStart memory) with ⟨r, t⟩
          -- Its statuses are saved one by one; only a block that ends moves the window.
          cases r with
          | error e =>
              dsimp only [actions]
              rw [hsaves.2, hs]
              rfl
          | ok statuses =>
              dsimp only [actions]
              unfold StatusWindow.run
              rw [List.foldl_append, List.foldl_cons, List.foldl_nil]
              have hends : ∀ t : StatusWindow.State,
                  (StatusWindow.step w.maxCountElementsTxsCache t .mainEnds).cache =
                    t.cache.remove (StatusWindow.leaving w.maxCountElementsTxsCache
                      (t.mainBlock + 1)) := fun _ => rfl
              rw [hends]
              unfold StatusWindow.run at hsaves
              rw [hsaves.1, hsaves.2, hs]
              rfl

end WorkerMain

namespace WorkerScript

open Effect SideLog

/-- The cache in the state of the script worker. -/
def statusLog (n : UInt64) : SideLog ScriptState StatusCache TransactionStatus where
  put c s := { s with memory := { s.memory with txsStatusCache := c } }
  enter := StatusCache.enter n

variable {w : WorkerScript} {tx : TransactionInfo} {n : UInt64}

theorem logs_onBatch {f : Batch → Except Err Batch} : (statusLog n).Logs (onBatch f) := by
  refine logs_tryUpdate (fun c s => ?_)
  show (f s.batchStates).map _ = ((f s.batchStates).map _).map _
  cases f s.batchStates with
  | error e => rfl
  | ok b => rfl

theorem logs_saveDetails {contract : Address} {details lastError : Blob} :
    (statusLog n).Logs (saveDetails contract details lastError) :=
  logs_bind (logs_lift _) (fun _ => logs_onBatch)

theorem logs_saveState {contract : Address} {state : V8State} :
    (statusLog n).Logs (saveState contract state) :=
  logs_bind (logs_lift _) (fun _ => logs_onBatch)

theorem logs_processCompile {scriptInfo : ScriptInfo} :
    (statusLog n).Logs (w.processCompile n tx scriptInfo) := by
  refine logs_bind (logs_lift _) (fun _ => logs_bind (logs_lift _) (fun _ => logs_bind
    (logs_read (fun _ _ => rfl)) (fun _ => logs_bind (logs_lift _) (fun _ =>
      logs_ite (logs_pure _) (logs_ite ?_ (logs_ite ?_ ?_))))))
  · exact logs_bind (logs_lift _) (fun _ => logs_bind logs_saveDetails (fun _ => logs_pure _))
  · exact logs_bind logs_saveDetails (fun _ => logs_pure _)
  · exact logs_bind logs_saveState (fun _ => logs_bind logs_saveDetails (fun _ =>
      logs_bind (logs_lift _) (fun _ => logs_bind logs_onBatch (fun _ => logs_pure _))))

theorem logs_processRun {scriptInfo : ScriptInfo} :
    (statusLog n).Logs (w.processRun n tx scriptInfo) := by
  refine logs_bind (logs_read (fun _ _ => rfl)) (fun _ => logs_bind (logs_lift _) (fun _ =>
    logs_ite (logs_pure _) (logs_bind (logs_lift _) (fun _ => logs_bind (logs_lift _)
      (fun _ => ?_)))))
  exact logs_ite (logs_bind logs_saveDetails (fun _ => logs_pure _))
    (logs_bind logs_saveState (fun _ => logs_bind logs_saveDetails (fun _ => logs_pure _)))

theorem logs_processUnknown : (statusLog n).Logs (w.processUnknown n tx) :=
  logs_bind (logs_lift _) (fun _ => logs_bind (logs_lift _) (fun _ => logs_bind
    (logs_read (fun _ _ => rfl)) (fun _ => logs_bind (logs_lift _) (fun _ =>
      logs_ite (logs_pure _) (logs_bind logs_saveDetails (fun _ => logs_pure _))))))

theorem logs_processScript {scriptInfo : ScriptInfo} :
    (statusLog n).Logs (w.processScript n tx scriptInfo) := by
  unfold processScript
  cases scriptInfo.type with
  | compile => exact logs_processCompile
  | run => exact logs_processRun
  | pay => exact logs_processRun
  | unknown => exact logs_processUnknown

theorem logs_toLeveldb {address : Address} {status : TransactionStatus} :
    (statusLog n).Logs (w.toLeveldb address tx status) := by
  refine logs_bind (logs_lift _) (fun _ => logs_ite (logs_pure _) (logs_bind (logs_lift _)
    (fun name => logs_ite (logs_tryUpdate (fun c s => ?_)) (logs_pure _))))
  show (s.memory.leveldb.saveAddressStatus (makeAddressStatusKey name tx.hash) status).map _ =
    (Except.map _ _).map _
  cases s.memory.leveldb.saveAddressStatus (makeAddressStatusKey name tx.hash) status with
  | error e => rfl
  | ok db => rfl

/-- The one place where the script worker uses the cache. -/
theorem logs_saveTransactionStatus {status : TransactionStatus} :
    (statusLog n).Logs (w.saveTransactionStatus n status) := by
  refine logs_ite (logs_bind (logs_enter (r := status) (fun _ _ => rfl)) (fun _ =>
    logs_tryUpdate (fun c s => ?_))) (logs_pure _)
  show (s.memory.leveldb.saveTransactionStatus status.transaction status).map _ =
    (Except.map _ _).map _
  cases s.memory.leveldb.saveTransactionStatus status.transaction status with
  | error e => rfl
  | ok db => rfl

theorem logs_processTransaction : (statusLog n).Logs (w.processTransaction n tx) := by
  unfold processTransaction
  cases tx.scriptInfo with
  | none => exact logs_pure _
  | some scriptInfo =>
      refine logs_bind logs_processScript (fun status => ?_)
      cases status with
      | none => exact logs_pure _
      | some status => exact logs_bind (logs_bind logs_toLeveldb (fun _ => logs_bind (logs_lift _)
          (fun _ => logs_ite logs_toLeveldb (logs_pure _)))) (fun _ => logs_saveTransactionStatus)

/-- **The work of the script worker on a block only enters statuses into the cache.** -/
theorem logs_processBlock {bi : BlockInfo} : (statusLog n).Logs (w.processBlock bi n) :=
  logs_bind (logs_ite (logs_each (fun _ => logs_processTransaction) _) (logs_pure _))
    (fun _ => logs_onBatch)

open StatusWindow in
theorem cache_run_saves {m : UInt64} (log : List TransactionStatus) :
    ∀ s : StatusWindow.State,
      (run m s (log.map .scriptSaves)).cache =
        (statusLog (UInt64.ofNat (s.scriptBlock + 1))).entered s.cache log := by
  induction log with
  | nil => exact fun _ => rfl
  | cons status log ih => exact fun s => ih (step m s (.scriptSaves status))

/-- What a round of the script worker comes to. -/
def actions {α : Type} : Outcome α → List TransactionStatus → List StatusWindow.Action
  | .written _, log => log.map .scriptSaves ++ [.scriptEnds]
  | _, log => log.map .scriptSaves

theorem cache_run_actions {α : Type} {m : UInt64} {s : StatusWindow.State} (o : Outcome α)
    (log : List TransactionStatus) :
    (StatusWindow.run m s (actions o log)).cache =
      (statusLog (UInt64.ofNat (s.scriptBlock + 1))).entered s.cache log := by
  rw [← cache_run_saves (m := m)]
  cases o with
  | written a =>
      unfold actions StatusWindow.run
      rw [List.foldl_append]
      rfl
  | _ => rfl

/-- **A round of the script worker is a run of its own steps, the same from any cache.** -/
theorem work_eq_run (m : UInt64) (memory : ScriptMemory) (bi : BlockInfo) {number : Nat}
    (hnumber : bi.header.blockNumber = some number) :
    ∃ log : List TransactionStatus, ∀ s : StatusWindow.State, s.scriptBlock + 1 = number →
      w.work { memory with txsStatusCache := s.cache } bi =
        ((w.work memory bi).1, (w.work memory bi).2.1,
          { (w.work memory bi).2.2 with
            txsStatusCache :=
              (StatusWindow.run m s (actions (w.work memory bi).1 log)).cache }) := by
  unfold work guardedRound
  cases w.leveldbV8.findScriptBlock with
  | error e => exact ⟨[], fun s _ => rfl⟩
  | ok lastScriptBlock =>
      rw [hnumber]
      dsimp only
      cases guards lastScriptBlock (UInt64.ofNat number) bi.header with
      | error e => exact ⟨[], fun s _ => rfl⟩
      | ok go =>
          -- A block that the guards skip takes no step.
          cases go with
          | false => exact ⟨[], fun s _ => rfl⟩
          | true =>
              have hlogs : (statusLog (UInt64.ofNat number)).Logs
                  (w.processBlock bi (UInt64.ofNat number)) := logs_processBlock
              obtain ⟨log, hlog⟩ := hlogs ⟨memory, Batch.new⟩
              refine ⟨log, fun s hs => ?_⟩
              have hstart : ScriptState.mk { memory with txsStatusCache := s.cache } Batch.new =
                (statusLog (UInt64.ofNat number)).put s.cache ⟨memory, Batch.new⟩ := rfl
              rw [cache_run_actions, hs]
              dsimp only
              rw [hstart, hlog s.cache]
              rcases (w.processBlock bi (UInt64.ofNat number)).exec
                ⟨memory, Batch.new⟩ with ⟨r, t⟩
              cases r with
              | error e => rfl
              | ok u => rfl

end WorkerScript

end TorrentNode
