import TorrentNode.Structs.BalanceOps
import TorrentNode.Workers.Frames

/-!
# The balances of a block

The main worker works the transactions of a block into a map of balances, one
operation after the other, and merges the map into the stored balances. Each address
sees its own operations only, and for these the cut into blocks makes no difference.
-/

namespace TorrentNode

/-- A transaction with all that decides what it does to balances. -/
structure AddressTx where
  tx : TransactionInfo
  /-- The status of its delegation. -/
  status : Option TransactionStatus
  /-- Whether it is one of a forging block. -/
  isForging : Bool

/-- An address and what is done to its balance. -/
abbrev BalanceCall : Type := Address × BalanceOp

namespace AddressTx

variable (t : AddressTx)

/-- The call of `saveAddressBalanceDelegate`. -/
def delegateCalls (address : Address) : List BalanceCall :=
  match t.tx.delegate, t.status with
  | some info, some status =>
    match WorkerMain.undelegateValue info status with
    | .ok value => [(address, .plusWithDelegate t.tx address value status.isSuccess)]
    | .error _ => []
  | _, _ => []

/-- The calls of `saveBalance`. -/
def transferCalls (address : Address) : List BalanceCall :=
  if address.isInitialW || t.tx.isIntStatusNodeTest then []
  else (address, .plusWithoutDelegate t.tx address (!t.tx.isIntStatusNoBalance) t.isForging) ::
    t.delegateCalls address

/-! Each of the four functions about tokens looks at its own kind of operation. -/

/-- The block does not say that it failed. -/
def isOkStatus : Bool := !t.tx.isIntStatusNotSuccess

/-- The updates when a token is made: the distribution, and the rest for the owner. -/
def createTokenCalls : List BalanceCall :=
  match t.tx.tokenInfo with
  | some (.create _ owner _ value _ _ _ beginDistribution) =>
    beginDistribution.map (fun d => (d.1, .addTokens t.tx d.2 t.isOkStatus)) ++
      [(owner,
        .addTokens t.tx (beginDistribution.foldl (fun rest d => rest - d.2) value) t.isOkStatus)]
  | _ => []

/-- The update when there is more of a token. -/
def addTokenCalls : List BalanceCall :=
  match t.tx.tokenInfo with
  | some (.addTokens toAddress value) => [(toAddress, .addTokens t.tx value t.isOkStatus)]
  | _ => []

/-- The updates when tokens move, one if they move to where they are. -/
def moveTokenCalls : List BalanceCall :=
  match t.tx.tokenInfo with
  | some (.moveTokens toAddress value) =>
    (toAddress, .moveTokens t.tx toAddress toAddress value t.isOkStatus) ::
      if toAddress.address == t.tx.fromAddress.address then []
      else [(t.tx.fromAddress, .moveTokens t.tx t.tx.fromAddress toAddress value t.isOkStatus)]
  | _ => []

/-- The update when tokens are gone. -/
def burnTokenCalls : List BalanceCall :=
  match t.tx.tokenInfo with
  | some (.burnTokens value) =>
    [(t.tx.fromAddress, .moveTokens t.tx t.tx.fromAddress ZERO_ADDRESS value t.isOkStatus)]
  | _ => []

/-- The updates for what a transaction does to a token. -/
def tokenCalls : List BalanceCall :=
  t.createTokenCalls ++ (t.addTokenCalls ++ (t.moveTokenCalls ++ t.burnTokenCalls))

/-- All of them, in the order in which the worker makes them. -/
def calls : List BalanceCall :=
  t.transferCalls t.tx.fromAddress ++
    ((if t.tx.fromAddress.address == t.tx.toAddress.address then []
      else t.transferCalls t.tx.toAddress) ++ t.tokenCalls)

end AddressTx

namespace WorkerMain

open Effect

/-- A call on the map of the balances. -/
def call (balances : OrdMap Blob BalanceInfo) (c : BalanceCall) :
    Except Err (OrdMap Blob BalanceInfo) := do
  let name ← c.1.toBdString
  let b ← ((balances.find? name).getD default).apply c.2
  pure (balances.insert name b)

/-! ## What leaves the balances alone -/

/-- The balances are as they were. -/
def SameBalances (s s' : MainState) : Prop := s'.balances = s.balances

instance : Frame SameBalances where
  refl _ := rfl
  trans h h' := Eq.trans h' h

section Quiet

variable {w : WorkerMain} {tx : TransactionInfo} {n : UInt64}

theorem same_onBatch {f : Batch → Except Err Batch} : Keeps SameBalances (onBatch f) := by
  refine keeps_tryUpdate (fun s s' h => ?_)
  obtain ⟨b, _, rfl⟩ := map_eq_ok.mp h
  rfl

theorem same_getCountVal : Keeps SameBalances getCountVal :=
  keeps_bind (keeps_read _) (fun _ => keeps_bind (keeps_update (fun _ => rfl))
    (fun _ => keeps_pure _))

theorem same_putDelegate {pair hash : Blob} {value : UInt64} :
    Keeps SameBalances (putDelegate pair value hash) := by
  refine keeps_bind same_getCountVal (fun _ => keeps_bind (keeps_tryModify ?_)
    (fun _ => keeps_update (fun _ => rfl)))
  intro s key s' h
  obtain ⟨r, _, hr⟩ := map_eq_ok.mp h
  cases hr
  rfl

theorem same_takeDelegate {pair : Blob} : Keeps SameBalances (w.takeDelegate pair) := by
  refine keeps_bind (keeps_read _) (fun stack => ?_)
  cases stack with
  | nil =>
      refine keeps_bind (keeps_read _) (fun _ => keeps_bind (keeps_lift _) (fun found => ?_))
      exact keeps_ite (keeps_pure _) (keeps_bind (keeps_lift _) (fun _ =>
        keeps_bind same_onBatch (fun _ => keeps_pure _)))
  | cons key rest =>
      refine keeps_bind (keeps_update (fun _ => rfl)) (fun _ => keeps_bind (keeps_read _)
        (fun _ => keeps_bind (keeps_lift _) (fun found => ?_)))
      cases found with
      | none => exact keeps_lift _
      | some value => exact keeps_bind (keeps_lift _) (fun _ =>
          keeps_bind same_onBatch (fun _ => keeps_pure _))

theorem same_delegateStatus : Keeps SameBalances (w.getInstantDelegateStatus tx n) := by
  refine keeps_ite (keeps_bind (keeps_lift _) (fun _ => keeps_bind ?_ (fun _ => keeps_pure _)))
    (keeps_pure _)
  unfold calcTransactionStatusDelegate
  cases tx.delegate with
  | none => exact keeps_lift _
  | some info =>
      refine keeps_bind (keeps_lift _) (fun _ => keeps_bind (keeps_lift _) (fun _ =>
        keeps_bind (keeps_lift _) (fun _ => keeps_ite (keeps_ite (keeps_pure _) ?_) ?_)))
      · exact keeps_bind same_putDelegate (fun _ => keeps_pure _)
      · exact keeps_bind same_takeDelegate (fun _ => keeps_pure _)

theorem same_saveUnderAddress {add : Batch → Blob → AddressInfo → UInt64 → Except Err Batch}
    {address : Address} : Keeps SameBalances (saveUnderAddress add tx address) :=
  keeps_bind (keeps_lift _) (fun _ => keeps_bind same_getCountVal (fun _ => same_onBatch))

theorem same_saveHistory {address : Address} {status : Option TransactionStatus} :
    Keeps SameBalances (w.saveHistory address tx status) := by
  refine keeps_ite (keeps_bind same_saveUnderAddress (fun _ => ?_)) (keeps_pure _)
  cases status with
  | none => exact keeps_pure _
  | some status => exact keeps_bind (keeps_lift _) (fun _ => same_onBatch)

theorem same_changeToken {info : TokenInfo} : Keeps SameBalances (w.changeToken tx info) := by
  unfold changeToken
  refine keeps_ite (keeps_pure _) ?_
  cases tokenChange info with
  | none => exact keeps_pure _
  | some process =>
      refine keeps_bind (keeps_lift _) (fun _ => keeps_bind ?_ (fun _ =>
        keeps_ite (keeps_pure _) same_onBatch))
      refine keeps_bind (keeps_read _) (fun _ => keeps_bind (keeps_lift _) (fun found => ?_))
      cases found with
      | none => exact keeps_lift _
      | some token => exact keeps_bind same_onBatch (fun _ => keeps_pure _)

theorem same_saveToken {info : TokenInfo} : Keeps SameBalances (w.saveToken tx info) := by
  cases info with
  | create => exact keeps_bind (keeps_lift _) (fun _ => keeps_bind same_onBatch (fun _ =>
      keeps_bind same_saveUnderAddress (fun _ => keeps_each (fun _ => same_saveUnderAddress) _)))
  | changeOwner => exact keeps_bind same_changeToken (fun _ =>
      keeps_bind same_saveUnderAddress (fun _ => same_saveUnderAddress))
  | moveTokens => exact keeps_bind same_saveUnderAddress (fun _ => keeps_bind (keeps_lift _)
      (fun _ => keeps_ite same_saveUnderAddress (keeps_pure _)))
  | _ => exact keeps_bind same_changeToken (fun _ => same_saveUnderAddress)

theorem same_saveTxs {status : Option TransactionStatus} :
    Keeps SameBalances (w.saveTxs n tx status) := by
  refine keeps_ite (keeps_bind same_onBatch (fun _ => keeps_bind ?_ (fun _ => ?_))) (keeps_pure _)
  · cases status with
    | none => exact keeps_pure _
    | some status => exact keeps_bind same_onBatch (fun _ => keeps_update (fun _ => rfl))
  · unfold saveTokenInfo
    cases tx.tokenInfo with
    | none => exact keeps_pure _
    | some info => exact keeps_ite (keeps_pure _) same_saveToken

theorem same_addCommonBalance {header : BlockHeader} {updateCommonBalance : Bool} :
    Keeps SameBalances (w.addCommonBalance header n updateCommonBalance tx) :=
  keeps_ite (keeps_bind (keeps_lift _) (fun _ =>
    keeps_ite (keeps_update (fun _ => rfl)) (keeps_pure _))) (keeps_pure _)

end Quiet

/-! ## What the worker makes of them -/

/-- A run that did to the balances what these calls do. -/
def Makes (cs : List BalanceCall) (s s' : MainState) : Prop :=
  cs.foldlM call s.balances = .ok s'.balances

theorem Makes.nothing {s s' : MainState} (h : SameBalances s s') : Makes [] s s' :=
  congrArg Except.ok (Eq.symm h)

theorem Makes.append {cs ds : List BalanceCall} {s t u : MainState} (hcs : Makes cs s t)
    (hds : Makes ds t u) : Makes (cs ++ ds) s u := by
  unfold Makes
  rw [List.foldlM_append, hcs]
  exact hds

theorem makes_onBalance {address : Address} (op : BalanceOp) {s s' : MainState}
    (h : (onBalance address (fun b => b.apply op)).exec s = (.ok (), s')) :
    Makes [(address, op)] s s' := by
  obtain ⟨name, hname, h⟩ := exec_lift_bind_ok.mp h
  have h := exec_tryUpdate_ok.mp h
  obtain ⟨b, hb, rfl⟩ := map_eq_ok.mp h
  have hcall : call s.balances (address, op) = .ok (s.balances.insert name b) := by
    unfold call
    rw [hname]
    exact congrArg (· >>= fun b => pure (s.balances.insert name b)) hb
  unfold Makes
  rw [List.foldlM_cons, hcall]
  rfl

section Runs

variable {w : WorkerMain} {tx : TransactionInfo} {n : UInt64} {s s' : MainState}

theorem makes_saveBalance {isForging : Bool} {address : Address}
    {status : Option TransactionStatus} (hon : w.modules.balance = true)
    (hwallet : (address.isInitialW || tx.isIntStatusNodeTest) = false)
    (h : (w.saveBalance isForging address tx status).exec s = (.ok (), s')) :
    Makes (AddressTx.transferCalls ⟨tx, status, isForging⟩ address) s s' := by
  unfold saveBalance at h
  rw [if_pos hon] at h
  obtain ⟨_, t, htransfer, h⟩ := exec_bind_ok.mp h
  have hfirst := makes_onBalance (.plusWithoutDelegate tx address (!tx.isIntStatusNoBalance)
    isForging) htransfer
  have hcalls : AddressTx.transferCalls ⟨tx, status, isForging⟩ address =
      [(address, .plusWithoutDelegate tx address (!tx.isIntStatusNoBalance) isForging)] ++
        AddressTx.delegateCalls ⟨tx, status, isForging⟩ address := by
    unfold AddressTx.transferCalls
    rw [hwallet]
    rfl
  rw [hcalls]
  -- The transfer is booked first, and then the delegation, if there is a status for it.
  refine hfirst.append ?_
  unfold AddressTx.delegateCalls
  cases hinfo : tx.delegate with
  | none =>
      rw [hinfo] at h
      exact .nothing (Keeps.of_exec h (keeps_pure _))
  | some info =>
      rw [hinfo] at h
      cases status with
      | none => exact .nothing (Keeps.of_exec h (keeps_pure _))
      | some status =>
          have h : (saveAddressBalanceDelegate tx status address).exec t = (.ok (), s') := h
          unfold saveAddressBalanceDelegate at h
          rw [hinfo] at h
          obtain ⟨value, hvalue, h⟩ := exec_lift_bind_ok.mp h
          simp only [hvalue]
          exact makes_onBalance (.plusWithDelegate tx address value status.isSuccess) h

theorem makes_toLeveldb {isForging : Bool} {address : Address} {status : Option TransactionStatus}
    (hon : w.modules.balance = true)
    (h : (w.toLeveldb isForging address tx status).exec s = (.ok (), s')) :
    Makes (AddressTx.transferCalls ⟨tx, status, isForging⟩ address) s s' := by
  obtain ⟨isInitialWallet, hwallet, h⟩ := exec_lift_bind_ok.mp h
  obtain ⟨_, hwallet⟩ := check_bind_eq_ok.mp hwallet
  cases hwallet
  cases hskip : address.isInitialW || tx.isIntStatusNodeTest with
  | true =>
      rw [if_pos hskip] at h
      unfold AddressTx.transferCalls
      rw [if_pos hskip]
      exact .nothing (Keeps.of_exec h (keeps_pure _))
  | false =>
      rw [hskip] at h
      obtain ⟨_, t, hhistory, h⟩ := exec_bind_ok.mp h
      have hsame : SameBalances s t := Keeps.of_exec hhistory same_saveHistory
      exact (Makes.nothing hsame).append (makes_saveBalance hon hskip h)

theorem makes_toLeveldbBoth {isForging : Bool} {status : Option TransactionStatus}
    (hon : w.modules.balance = true)
    (h : (w.toLeveldbBoth isForging tx status).exec s = (.ok (), s')) :
    Makes (AddressTx.transferCalls ⟨tx, status, isForging⟩ tx.fromAddress ++
      if tx.fromAddress.address == tx.toAddress.address then []
      else AddressTx.transferCalls ⟨tx, status, isForging⟩ tx.toAddress) s s' := by
  obtain ⟨_, t, hfrom, h⟩ := exec_bind_ok.mp h
  obtain ⟨same, hsame, h⟩ := exec_lift_bind_ok.mp h
  obtain ⟨_, hsame⟩ := check_bind_eq_ok.mp hsame
  obtain ⟨_, hsame⟩ := check_bind_eq_ok.mp hsame
  cases hsame
  refine (makes_toLeveldb hon hfrom).append ?_
  cases heq : tx.fromAddress.address == tx.toAddress.address with
  | true =>
      rw [heq] at h
      exact .nothing (Keeps.of_exec h (keeps_pure _))
  | false =>
      rw [heq] at h
      exact makes_toLeveldb hon h

theorem makes_quiet {u : Unit} (h : (pure () : MainM Unit).exec s = (.ok u, s')) : Makes [] s s' :=
  .nothing (Keeps.of_exec h (keeps_pure ()))

theorem makes_saveAddressBalanceCreateToken {t : AddressTx}
    (h : (saveAddressBalanceCreateToken t.tx).exec s = (.ok (), s')) :
    Makes t.createTokenCalls s s' := by
  unfold saveAddressBalanceCreateToken at h
  unfold AddressTx.createTokenCalls
  cases hinfo : t.tx.tokenInfo with
  | none =>
      rw [hinfo] at h
      exact makes_quiet h
  | some info =>
      rw [hinfo] at h
      cases info with
      | create type owner decimals value symbol name emission beginDistribution =>
          obtain ⟨_, u, hdistribution, h⟩ := exec_bind_ok.mp h
          have hmakes : Makes (beginDistribution.map (fun d =>
              (d.1, .addTokens t.tx d.2 t.isOkStatus))) s u := by
            have hnone : Makes (List.map (fun d : Address × UInt64 =>
                (d.1, BalanceOp.addTokens t.tx d.2 t.isOkStatus)) []) s s :=
              .nothing (Frame.refl s)
            refine exec_each_ok (I := fun done u => Makes (done.map (fun d =>
              (d.1, .addTokens t.tx d.2 t.isOkStatus))) s u) ?_ hnone hdistribution
            intro done d u u' hdone hd
            rw [List.map_append]
            exact hdone.append (makes_onBalance (.addTokens t.tx d.2 t.isOkStatus) hd)
          exact hmakes.append (makes_onBalance (.addTokens t.tx _ t.isOkStatus) h)
      | _ => exact makes_quiet h

theorem makes_saveAddressBalanceAddToken {t : AddressTx}
    (h : (saveAddressBalanceAddToken t.tx).exec s = (.ok (), s')) :
    Makes t.addTokenCalls s s' := by
  unfold saveAddressBalanceAddToken at h
  unfold AddressTx.addTokenCalls
  cases hinfo : t.tx.tokenInfo with
  | none =>
      rw [hinfo] at h
      exact makes_quiet h
  | some info =>
      rw [hinfo] at h
      cases info with
      | addTokens toAddress value =>
          exact makes_onBalance (.addTokens t.tx value t.isOkStatus) h
      | _ => exact makes_quiet h

theorem makes_saveAddressBalanceMoveToken {t : AddressTx}
    (h : (saveAddressBalanceMoveToken t.tx).exec s = (.ok (), s')) :
    Makes t.moveTokenCalls s s' := by
  unfold saveAddressBalanceMoveToken at h
  unfold AddressTx.moveTokenCalls
  cases hinfo : t.tx.tokenInfo with
  | none =>
      rw [hinfo] at h
      exact makes_quiet h
  | some info =>
      rw [hinfo] at h
      cases info with
      | moveTokens toAddress value =>
          obtain ⟨_, u, hto, h⟩ := exec_bind_ok.mp h
          obtain ⟨same, hsame, h⟩ := exec_lift_bind_ok.mp h
          obtain ⟨_, hsame⟩ := check_bind_eq_ok.mp hsame
          obtain ⟨_, hsame⟩ := check_bind_eq_ok.mp hsame
          cases hsame
          have hfirst := makes_onBalance
            (.moveTokens t.tx toAddress toAddress value t.isOkStatus) hto
          suffices hrest : Makes (if toAddress.address == t.tx.fromAddress.address then [] else
              [(t.tx.fromAddress,
                .moveTokens t.tx t.tx.fromAddress toAddress value t.isOkStatus)]) u s' from
            hfirst.append hrest
          cases heq : toAddress.address == t.tx.fromAddress.address with
          | true =>
              rw [heq] at h
              exact makes_quiet h
          | false =>
              rw [heq] at h
              exact makes_onBalance
                (.moveTokens t.tx t.tx.fromAddress toAddress value t.isOkStatus) h
      | _ => exact makes_quiet h

theorem makes_saveAddressBalanceBurnToken {t : AddressTx}
    (h : (saveAddressBalanceBurnToken t.tx).exec s = (.ok (), s')) :
    Makes t.burnTokenCalls s s' := by
  unfold saveAddressBalanceBurnToken at h
  unfold AddressTx.burnTokenCalls
  cases hinfo : t.tx.tokenInfo with
  | none =>
      rw [hinfo] at h
      exact makes_quiet h
  | some info =>
      rw [hinfo] at h
      cases info with
      | burnTokens value =>
          exact makes_onBalance
            (.moveTokens t.tx t.tx.fromAddress ZERO_ADDRESS value t.isOkStatus) h
      | _ => exact makes_quiet h

theorem makes_saveTokenBalances {t : AddressTx} (hon : w.modules.balance = true)
    (h : (w.saveTokenBalances t.tx).exec s = (.ok (), s')) : Makes t.tokenCalls s s' := by
  unfold saveTokenBalances at h
  rw [if_pos hon] at h
  obtain ⟨_, t₁, hcreate, h⟩ := exec_bind_ok.mp h
  obtain ⟨_, t₂, hadd, h⟩ := exec_bind_ok.mp h
  obtain ⟨_, t₃, hmove, hburn⟩ := exec_bind_ok.mp h
  exact (makes_saveAddressBalanceCreateToken hcreate).append
    ((makes_saveAddressBalanceAddToken hadd).append
      ((makes_saveAddressBalanceMoveToken hmove).append (makes_saveAddressBalanceBurnToken hburn)))

/-- **What a transaction does to the balances.** -/
theorem makes_processTransaction {header : BlockHeader} {updateCommonBalance : Bool}
    {status : Option TransactionStatus} (hon : w.modules.balance = true)
    (h : (w.processTransaction header n updateCommonBalance tx).exec s = (.ok status, s')) :
    Makes (AddressTx.calls ⟨tx, status, header.isForgingBlock⟩) s s' := by
  obtain ⟨status', t, hrecords, h⟩ := exec_bind_ok.mp h
  obtain ⟨_, t', hcommon, h⟩ := exec_bind_ok.mp h
  obtain ⟨rfl, rfl⟩ := exec_pure_ok.mp h
  unfold saveRecords at hrecords
  rw [if_pos (by rw [hon]; rfl)] at hrecords
  obtain ⟨status'', t₁, hstatus, hrecords⟩ := exec_bind_ok.mp hrecords
  obtain ⟨_, t₂, hboth, hrecords⟩ := exec_bind_ok.mp hrecords
  obtain ⟨_, t₃, htxs, hrecords⟩ := exec_bind_ok.mp hrecords
  obtain ⟨_, t₄, htokens, hrecords⟩ := exec_bind_ok.mp hrecords
  obtain ⟨rfl, rfl⟩ := exec_pure_ok.mp hrecords
  have hbefore : SameBalances s t₁ := Keeps.of_exec hstatus same_delegateStatus
  have hbetween : SameBalances t₂ t₃ := Keeps.of_exec htxs same_saveTxs
  have hafter : SameBalances t₄ t' := Keeps.of_exec hcommon same_addCommonBalance
  have htoken := makes_saveTokenBalances (t := ⟨tx, status'', header.isForgingBlock⟩) hon htokens
  have hall := (Makes.nothing hbefore).append ((makes_toLeveldbBoth hon hboth).append
    ((Makes.nothing hbetween).append (htoken.append (.nothing hafter))))
  rw [List.nil_append, List.nil_append, List.append_nil, List.append_assoc] at hall
  exact hall

/-- The transactions of a block with the statuses the worker computed for them. -/
def addressTxs (header : BlockHeader) (txs : List TransactionInfo)
    (statuses : List (Option TransactionStatus)) : List AddressTx :=
  List.zipWith (fun tx status => ⟨tx, status, header.isForgingBlock⟩) txs statuses

/-- **What a block does to the balances.** -/
theorem makes_processTransactions {header : BlockHeader} {updateCommonBalance : Bool}
    (hon : w.modules.balance = true) :
    ∀ {txs : List TransactionInfo} {statuses : List (Option TransactionStatus)} {s s' : MainState},
      (w.processTransactions header n updateCommonBalance txs).exec s = (.ok statuses, s') →
      Makes ((addressTxs header txs statuses).flatMap AddressTx.calls) s s'
  | [], statuses, s, s', h => by
      obtain ⟨rfl, rfl⟩ := exec_pure_ok.mp h
      exact .nothing (Frame.refl s)
  | tx :: txs, statuses, s, s', h => by
      obtain ⟨status, t, htx, h⟩ := exec_bind_ok.mp h
      obtain ⟨rest, t', htxs, h⟩ := exec_bind_ok.mp h
      obtain ⟨rfl, rfl⟩ := exec_pure_ok.mp h
      exact (makes_processTransaction hon htx).append (makes_processTransactions hon htxs)

end Runs

/-! ## The balance of one address -/

/-- The operations among the calls that concern one name. -/
def opsOn (name : Blob) (cs : List BalanceCall) : List BalanceOp :=
  (cs.filter (fun c => c.1.toBdString.toOption == some name)).map Prod.snd

/-- The calls work each balance on its own. -/
theorem apply_opsOn (name : Blob) : ∀ {cs : List BalanceCall} {m m' : OrdMap Blob BalanceInfo},
    cs.foldlM call m = .ok m' →
    (opsOn name cs).foldlM BalanceInfo.apply ((m.find? name).getD default) =
      .ok ((m'.find? name).getD default)
  | [], m, m', h => by
      cases h
      rfl
  | c :: cs, m, m', h => by
      rw [List.foldlM_cons] at h
      obtain ⟨m₁, hcall, h⟩ := bind_eq_ok.mp h
      obtain ⟨name', hname, hcall⟩ := bind_eq_ok.mp hcall
      obtain ⟨b, hb, hcall⟩ := bind_eq_ok.mp hcall
      cases hcall
      have ih := apply_opsOn name h
      unfold opsOn at ih ⊢
      rw [List.filter_cons, hname]
      by_cases hsame : name' = name
      · subst hsame
        rw [OrdMap.find?_insert_self] at ih
        rw [if_pos (by exact beq_self_eq_true _), List.map_cons, List.foldlM_cons, hb]
        exact ih
      · rw [OrdMap.find?_insert_ne (Ne.symm hsame)] at ih
        rw [if_neg (by simpa [Except.toOption, Subtype.ext_iff] using hsame)]
        exact ih

/-- All that a transaction does to the balance under a name. -/
def applyTx (name : Blob) (b : BalanceInfo) (t : AddressTx) : Except Err BalanceInfo :=
  (opsOn name t.calls).foldlM BalanceInfo.apply b

theorem foldlM_applyTx (name : Blob) : ∀ {txs : List AddressTx} {b : BalanceInfo},
    txs.foldlM (applyTx name) b =
      (opsOn name (txs.flatMap AddressTx.calls)).foldlM BalanceInfo.apply b
  | [], b => rfl
  | t :: txs, b => by
      have hops : opsOn name (t.calls ++ txs.flatMap AddressTx.calls) =
          opsOn name t.calls ++ opsOn name (txs.flatMap AddressTx.calls) := by
        unfold opsOn
        rw [List.filter_append, List.map_append]
      rw [List.foldlM_cons, List.flatMap_cons, hops, List.foldlM_append]
      exact bind_congr (fun c => foldlM_applyTx name)

/-- **The balance that a block gives a name** is that of its own operations. -/
theorem balance_processTransactions {w : WorkerMain} {header : BlockHeader} {n : UInt64}
    {updateCommonBalance : Bool} {txs : List TransactionInfo}
    {statuses : List (Option TransactionStatus)} {s s' : MainState} (name : Blob)
    (hon : w.modules.balance = true)
    (h : (w.processTransactions header n updateCommonBalance txs).exec s = (.ok statuses, s')) :
    (addressTxs header txs statuses).foldlM (applyTx name) ((s.balances.find? name).getD default) =
      .ok ((s'.balances.find? name).getD default) := by
  rw [foldlM_applyTx]
  exact apply_opsOn name (makes_processTransactions hon h)

/-! ## Blocks -/

/-- The transactions one by one, on one balance. -/
def inOneRun (name : Blob) (txs : List AddressTx) : Except Err BalanceInfo :=
  txs.foldlM (applyTx name) default

/-- The balance of each block from scratch, merged in order. -/
def mergedBlocks (name : Blob) (blocks : List (List AddressTx)) : Except Err BalanceInfo :=
  blocks.foldlM (fun stored block => (inOneRun name block).map stored.add) default

theorem tx_of_mem_transferCalls {t : AddressTx} {address : Address} {c : BalanceCall}
    (h : c ∈ t.transferCalls address) : c.2.tx = t.tx := by
  unfold AddressTx.transferCalls at h
  split at h
  · cases h
  · rcases List.mem_cons.mp h with rfl | h
    · rfl
    · unfold AddressTx.delegateCalls at h
      split at h
      · split at h
        · rw [List.mem_singleton.mp h]
          rfl
        · cases h
      · cases h

theorem tx_of_mem_tokenCalls {t : AddressTx} {c : BalanceCall} (h : c ∈ t.tokenCalls) :
    c.2.tx = t.tx := by
  unfold AddressTx.tokenCalls AddressTx.createTokenCalls AddressTx.addTokenCalls
    AddressTx.moveTokenCalls AddressTx.burnTokenCalls at h
  cases hinfo : t.tx.tokenInfo with
  | none => simp [hinfo] at h
  | some info =>
      cases info with
      | create type owner decimals value symbol name emission beginDistribution =>
          simp only [hinfo, List.append_nil, List.mem_append, List.mem_map,
            List.mem_singleton] at h
          rcases h with ⟨d, _, rfl⟩ | rfl <;> rfl
      | moveTokens toAddress value =>
          simp only [hinfo, List.append_nil, List.nil_append, List.mem_cons] at h
          rcases h with rfl | h
          · rfl
          · split at h
            · cases h
            · rw [List.mem_singleton.mp h]
              rfl
      | addTokens toAddress value =>
          simp only [hinfo, List.append_nil, List.nil_append, List.mem_singleton] at h
          rw [h]
          rfl
      | burnTokens value =>
          simp only [hinfo, List.nil_append, List.mem_singleton] at h
          rw [h]
          rfl
      | _ => simp [hinfo] at h

/-- Every operation is one of its transaction. -/
theorem tx_of_mem_calls {t : AddressTx} {c : BalanceCall} (h : c ∈ t.calls) : c.2.tx = t.tx := by
  unfold AddressTx.calls at h
  rcases List.mem_append.mp h with h | h
  · exact tx_of_mem_transferCalls h
  · rcases List.mem_append.mp h with h | h
    · split at h
      · cases h
      · exact tx_of_mem_transferCalls h
    · exact tx_of_mem_tokenCalls h

/-- The operations of a run, with the blocks they are of. -/
theorem pairwise_ops (name : Blob) {txs : List AddressTx}
    (hsorted : txs.Pairwise (fun t u => t.tx.blockNumber ≤ u.tx.blockNumber)) :
    (opsOn name (txs.flatMap AddressTx.calls)).Pairwise
      (fun op op' => op.tx.blockNumber ≤ op'.tx.blockNumber) := by
  have hcalls : (txs.flatMap AddressTx.calls).Pairwise
      (fun c c' => c.2.tx.blockNumber ≤ c'.2.tx.blockNumber) := by
    rw [List.pairwise_flatMap]
    refine ⟨fun t _ => List.pairwise_of_forall_mem_list (fun c hc c' hc' => ?_), ?_⟩
    · rw [tx_of_mem_calls hc, tx_of_mem_calls hc']
    · exact hsorted.imp (fun hle c hc c' hc' => by rwa [tx_of_mem_calls hc, tx_of_mem_calls hc'])
  exact List.pairwise_map.mpr (hcalls.filter _)

theorem mergedBlocks_eq (name : Blob) : ∀ (blocks : List (List AddressTx)) (stored : BalanceInfo),
    blocks.foldlM (fun stored block => (inOneRun name block).map stored.add) stored =
      BalanceInfo.fold.inBlocks stored
        (blocks.map (fun block => opsOn name (block.flatMap AddressTx.calls)))
  | [], stored => rfl
  | block :: blocks, stored => by
      unfold BlockFold.inBlocks
      rw [List.foldlM_cons, List.map_cons, List.foldlM_cons, inOneRun, foldlM_applyTx]
      exact bind_congr (fun merged => mergedBlocks_eq name blocks merged)

theorem flatten_ops (name : Blob) : ∀ blocks : List (List AddressTx),
    (blocks.map (fun block => opsOn name (block.flatMap AddressTx.calls))).flatten =
      opsOn name (blocks.flatten.flatMap AddressTx.calls)
  | [] => rfl
  | block :: blocks => by
      rw [List.map_cons, List.flatten_cons, flatten_ops name blocks, List.flatten_cons,
        List.flatMap_append]
      unfold opsOn
      rw [List.filter_append, List.map_append]

/-- **Merging the balances of the blocks shows the same as one run over all their transactions.** -/
theorem sums_mergedBlocks (name : Blob) {blocks : List (List AddressTx)}
    (hsorted : blocks.flatten.Pairwise (fun t u => t.tx.blockNumber ≤ u.tx.blockNumber)) :
    (mergedBlocks name blocks).map BalanceInfo.sums =
      (inOneRun name blocks.flatten).map BalanceInfo.sums := by
  unfold mergedBlocks
  rw [mergedBlocks_eq, inOneRun, foldlM_applyTx, ← flatten_ops]
  refine BlockFold.obs_inBlocks_eq (d := BalanceInfo.fold) ?_
  rw [flatten_ops]
  exact pairwise_ops name hsorted

/-- Two holders of a token and what a transaction between them looks like. -/
def holderTx (blockNumber value : UInt64) : TransactionInfo :=
  { (default : TransactionInfo) with
    blockNumber, value, sizeRawTx := 100
    fromAddress := Address.ofBlob (Blob.replicate 25 1 Blob.address_fits)
    toAddress := Address.ofBlob (Blob.replicate 25 2 Blob.address_fits) }

/-- A payment and a delegation, nothing, and tokens that are gone. -/
def holderBlocks : List (List AddressTx) :=
  [[⟨holderTx 1 7, none, true⟩,
    ⟨{ holderTx 1 0 with delegate := some { value := 5, isDelegate := true } },
      some { TransactionStatus.new ∅ 1 with isSuccess := true, status := .delegate }, false⟩],
   [], [⟨{ holderTx 2 3 with tokenInfo := some (.burnTokens 9) }, none, false⟩]]

theorem sums_mergedBlocks_holder :
    (mergedBlocks (Blob.replicate 25 1 Blob.address_fits) holderBlocks).map BalanceInfo.sums =
      (inOneRun (Blob.replicate 25 1 Blob.address_fits) holderBlocks.flatten).map BalanceInfo.sums :=
  sums_mergedBlocks _ (by decide)

end WorkerMain

end TorrentNode
