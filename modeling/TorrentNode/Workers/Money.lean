import TorrentNode.Workers.Accounts

/-!
# The money there is

The worker keeps two books. The common balance counts the money that comes into the
system, from the initial wallet or in forging blocks; the balances of the addresses
count it as it goes around. Both are kept under conditions of their own, and what the
one has and the other lacks is fees and the transactions that only one of them counts.
-/

namespace TorrentNode

namespace AddressTx

variable (t : AddressTx)

/-- The balances of the addresses take the transaction in. -/
def isBooked : Bool := !(t.tx.isIntStatusNodeTest || t.tx.isIntStatusNoBalance)

/-- The sender is the one that all money comes from. -/
def isFromInitial : Bool := t.tx.fromAddress.isInitialW

/-- The value arrives at an address that has a balance. -/
def isCredited : Bool :=
  !(if t.tx.fromAddress.address == t.tx.toAddress.address then t.tx.fromAddress
    else t.tx.toAddress).isInitialW

/-- What the transaction adds to all balances together. -/
def booked : UInt64 :=
  if t.isBooked then
    (if t.isCredited then t.tx.value else 0) -
      (if t.isFromInitial then 0 else t.tx.value + BalanceInfo.fee t.tx)
  else 0

/-- What it adds to the common balance. -/
def brought : UInt64 := if t.isFromInitial || t.isForging then t.tx.value else 0

/-- The fee that a balance was charged. -/
def charged : UInt64 := if t.isBooked && !t.isFromInitial then BalanceInfo.fee t.tx else 0

/-- What the common balance counts and no balance of an address does, and what left the balances
for the initial wallet. -/
def unbacked : UInt64 :=
  if t.isBooked then
    (if t.isCredited then 0 else t.tx.value) +
      (if t.isForging && !t.isFromInitial then t.tx.value else 0)
  else t.brought

theorem booked_eq : t.booked = t.brought - t.charged - t.unbacked := by
  unfold booked charged unbacked brought
  cases t.isBooked <;> cases t.isCredited <;> cases t.isFromInitial <;> cases t.isForging <;>
    simp <;> grind

end AddressTx

namespace BalanceView

/-- What `calcBalanceWithoutDelegate` gives. -/
def worth : BalanceView UInt64 := accounts.part BalanceInfo.worth

theorem worth_sums (b : BalanceInfo) : worth.view b.sums = b.calcBalanceWithoutDelegate := by
  rw [BalanceInfo.calcBalanceWithoutDelegate_eq, ← BalanceInfo.ledger_sums]
  rfl

/-- A transfer, at one of its two addresses. -/
theorem worth_transfer (tx : TransactionInfo) (isFrom isTo changeBalance : Bool) :
    BalanceInfo.worth (BalanceInfo.transfer tx isFrom isTo changeBalance) =
      if changeBalance then
        (if isTo then tx.value else 0) - (if isFrom then tx.value + BalanceInfo.fee tx else 0)
      else 0 :=
  add_zero _

theorem worth_delegateCalls (t : AddressTx) (address : Address) :
    worth.ofCalls (t.delegateCalls address) = 0 := by
  unfold AddressTx.delegateCalls
  cases hinfo : t.tx.delegate with
  | none => rfl
  | some info =>
      cases t.status with
      | none => rfl
      | some status =>
          simp only
          split
          · rename_i value _
            have hentry : (BalanceOp.plusWithDelegate t.tx address value status.isSuccess).entry =
                BalanceInfo.delegation info (value.getD 0)
                  (t.tx.fromAddress.address == address.address)
                  (t.tx.toAddress.address == address.address) status.isSuccess := by
              simp only [BalanceOp.entry, hinfo]
            show BalanceInfo.worth
              (BalanceOp.plusWithDelegate t.tx address value status.isSuccess).entry + 0 = 0
            rw [hentry, BalanceInfo.worth_delegation, add_zero]
          · rfl

theorem worth_transferCalls (t : AddressTx) (address : Address) :
    worth.ofCalls (t.transferCalls address) =
      if t.isBooked && !address.isInitialW then
        (if t.tx.toAddress.address == address.address then t.tx.value else 0) -
          (if t.tx.fromAddress.address == address.address then t.tx.value + BalanceInfo.fee t.tx
            else 0)
      else 0 := by
  unfold AddressTx.transferCalls AddressTx.isBooked
  cases hskip : address.isInitialW || t.tx.isIntStatusNodeTest with
  | true =>
      have hnot : ¬((!(t.tx.isIntStatusNodeTest || t.tx.isIntStatusNoBalance) &&
          !address.isInitialW) = true) := by
        revert hskip
        cases address.isInitialW <;> cases t.tx.isIntStatusNodeTest <;> simp
      rw [if_pos rfl, if_neg hnot]
      rfl
  | false =>
      obtain ⟨hinitial, htest⟩ := Bool.or_eq_false_iff.mp hskip
      have hcalls : worth.ofCalls ((address, BalanceOp.plusWithoutDelegate t.tx address
          (!t.tx.isIntStatusNoBalance) t.isForging) :: t.delegateCalls address) =
          BalanceInfo.worth (BalanceInfo.transfer t.tx
            (t.tx.fromAddress.address == address.address)
            (t.tx.toAddress.address == address.address) (!t.tx.isIntStatusNoBalance)) +
          worth.ofCalls (t.delegateCalls address) := List.sum_cons
      rw [hinitial, htest]
      simp only [Bool.false_eq_true, if_false, Bool.false_or, Bool.not_false, Bool.and_true]
      rw [hcalls, worth_delegateCalls, add_zero, worth_transfer]

theorem worth_tokenCalls (t : AddressTx) : worth.ofCalls t.tokenCalls = 0 := by
  refine List.sum_eq_zero (fun x hx => ?_)
  obtain ⟨c, hc, rfl⟩ := List.mem_map.mp hx
  show BalanceInfo.worth c.2.entry = 0
  rw [entry_of_mem_tokenCalls hc, map_zero]

/-- **What a transaction adds to all balances together.** -/
theorem worth_calls (t : AddressTx) : worth.ofCalls t.calls = t.booked := by
  have hcomm : (t.tx.toAddress.address == t.tx.fromAddress.address) =
      (t.tx.fromAddress.address == t.tx.toAddress.address) := BEq.comm
  unfold AddressTx.calls AddressTx.booked AddressTx.isCredited AddressTx.isFromInitial
  rw [ofCalls_append, ofCalls_append, worth_tokenCalls, add_zero, worth_transferCalls, hcomm,
    beq_self_eq_true]
  cases hsame : t.tx.fromAddress.address == t.tx.toAddress.address with
  | true =>
      have hnone : worth.ofCalls [] = 0 := rfl
      simp only [if_true, hnone, add_zero]
      cases t.isBooked <;> cases t.tx.fromAddress.isInitialW <;> simp
  | false =>
      simp only [Bool.false_eq_true, if_false, if_true]
      rw [worth_transferCalls, hsame, beq_self_eq_true]
      cases t.isBooked <;> cases t.tx.fromAddress.isInitialW <;>
        cases t.tx.toAddress.isInitialW <;> simp

end BalanceView

namespace WorkerMain

open Effect

/-! ## The common balance -/

/-- The common balance stays. -/
def SameCommon (s s' : MainState) : Prop := s'.commonBalance = s.commonBalance

instance : Frame SameCommon where
  refl _ := rfl
  trans h h' := Eq.trans h' h

section Quiet

variable {w : WorkerMain} {tx : TransactionInfo} {n : UInt64}

theorem sameCommon_onBatch {f : Batch → Except Err Batch} : Keeps SameCommon (onBatch f) := by
  refine keeps_tryUpdate (fun s s' h => ?_)
  obtain ⟨b, _, rfl⟩ := map_eq_ok.mp h
  rfl

theorem sameCommon_onBalance {address : Address} {f : BalanceInfo → Except Err BalanceInfo} :
    Keeps SameCommon (onBalance address f) := by
  refine keeps_bind (keeps_lift _) (fun name => keeps_tryUpdate (fun s s' h => ?_))
  obtain ⟨b, _, rfl⟩ := map_eq_ok.mp h
  rfl

theorem sameCommon_getCountVal : Keeps SameCommon getCountVal :=
  keeps_bind (keeps_read _) (fun _ => keeps_bind (keeps_update (fun _ => rfl))
    (fun _ => keeps_pure _))

theorem sameCommon_putDelegate {pair hash : Blob} {value : UInt64} :
    Keeps SameCommon (putDelegate pair value hash) := by
  refine keeps_bind sameCommon_getCountVal (fun _ => keeps_bind (keeps_tryModify ?_)
    (fun _ => keeps_update (fun _ => rfl)))
  intro s key s' h
  obtain ⟨r, _, hr⟩ := map_eq_ok.mp h
  cases hr
  rfl

theorem sameCommon_takeDelegate {pair : Blob} : Keeps SameCommon (w.takeDelegate pair) := by
  refine keeps_bind (keeps_read _) (fun stack => ?_)
  cases stack with
  | nil =>
      refine keeps_bind (keeps_read _) (fun _ => keeps_bind (keeps_lift _) (fun found => ?_))
      exact keeps_ite (keeps_pure _) (keeps_bind (keeps_lift _) (fun _ =>
        keeps_bind sameCommon_onBatch (fun _ => keeps_pure _)))
  | cons key rest =>
      refine keeps_bind (keeps_update (fun _ => rfl)) (fun _ => keeps_bind (keeps_read _)
        (fun _ => keeps_bind (keeps_lift _) (fun found => ?_)))
      cases found with
      | none => exact keeps_lift _
      | some value => exact keeps_bind (keeps_lift _) (fun _ =>
          keeps_bind sameCommon_onBatch (fun _ => keeps_pure _))

theorem sameCommon_delegateStatus : Keeps SameCommon (w.getInstantDelegateStatus tx n) := by
  refine keeps_ite (keeps_bind (keeps_lift _) (fun _ => keeps_bind ?_ (fun _ => keeps_pure _)))
    (keeps_pure _)
  unfold calcTransactionStatusDelegate
  cases tx.delegate with
  | none => exact keeps_lift _
  | some info =>
      refine keeps_bind (keeps_lift _) (fun _ => keeps_bind (keeps_lift _) (fun _ =>
        keeps_bind (keeps_lift _) (fun _ => keeps_ite (keeps_ite (keeps_pure _) ?_) ?_)))
      · exact keeps_bind sameCommon_putDelegate (fun _ => keeps_pure _)
      · exact keeps_bind sameCommon_takeDelegate (fun _ => keeps_pure _)

theorem sameCommon_saveUnderAddress {add : Batch → Blob → AddressInfo → UInt64 → Except Err Batch}
    {address : Address} : Keeps SameCommon (saveUnderAddress add tx address) :=
  keeps_bind (keeps_lift _) (fun _ => keeps_bind sameCommon_getCountVal
    (fun _ => sameCommon_onBatch))

theorem sameCommon_toLeveldb {isForging : Bool} {address : Address}
    {status : Option TransactionStatus} :
    Keeps SameCommon (w.toLeveldb isForging address tx status) := by
  refine keeps_bind (keeps_lift _) (fun _ => keeps_ite (keeps_pure _) (keeps_bind ?_
    (fun _ => keeps_ite (keeps_bind sameCommon_onBalance (fun _ => ?_)) (keeps_pure _))))
  · refine keeps_ite (keeps_bind sameCommon_saveUnderAddress (fun _ => ?_)) (keeps_pure _)
    cases status with
    | none => exact keeps_pure _
    | some status => exact keeps_bind (keeps_lift _) (fun _ => sameCommon_onBatch)
  · cases hinfo : tx.delegate with
    | none => exact keeps_pure _
    | some info =>
        cases status with
        | none => exact keeps_pure _
        | some status =>
            simp only [saveAddressBalanceDelegate, hinfo]
            exact keeps_bind (keeps_lift _) (fun _ => sameCommon_onBalance)

theorem sameCommon_changeToken {info : TokenInfo} : Keeps SameCommon (w.changeToken tx info) := by
  unfold changeToken
  refine keeps_ite (keeps_pure _) ?_
  cases tokenChange info with
  | none => exact keeps_pure _
  | some process =>
      refine keeps_bind (keeps_lift _) (fun _ => keeps_bind ?_ (fun _ =>
        keeps_ite (keeps_pure _) sameCommon_onBatch))
      refine keeps_bind (keeps_read _) (fun _ => keeps_bind (keeps_lift _) (fun found => ?_))
      cases found with
      | none => exact keeps_lift _
      | some token => exact keeps_bind sameCommon_onBatch (fun _ => keeps_pure _)

theorem sameCommon_saveToken {info : TokenInfo} : Keeps SameCommon (w.saveToken tx info) := by
  cases info with
  | create => exact keeps_bind (keeps_lift _) (fun _ => keeps_bind sameCommon_onBatch (fun _ =>
      keeps_bind sameCommon_saveUnderAddress
        (fun _ => keeps_each (fun _ => sameCommon_saveUnderAddress) _)))
  | changeOwner => exact keeps_bind sameCommon_changeToken (fun _ =>
      keeps_bind sameCommon_saveUnderAddress (fun _ => sameCommon_saveUnderAddress))
  | moveTokens => exact keeps_bind sameCommon_saveUnderAddress (fun _ => keeps_bind (keeps_lift _)
      (fun _ => keeps_ite sameCommon_saveUnderAddress (keeps_pure _)))
  | _ => exact keeps_bind sameCommon_changeToken (fun _ => sameCommon_saveUnderAddress)

theorem sameCommon_saveTxs {status : Option TransactionStatus} :
    Keeps SameCommon (w.saveTxs n tx status) := by
  refine keeps_ite (keeps_bind sameCommon_onBatch (fun _ => keeps_bind ?_ (fun _ => ?_)))
    (keeps_pure _)
  · cases status with
    | none => exact keeps_pure _
    | some status => exact keeps_bind sameCommon_onBatch (fun _ => keeps_update (fun _ => rfl))
  · unfold saveTokenInfo
    cases tx.tokenInfo with
    | none => exact keeps_pure _
    | some info => exact keeps_ite (keeps_pure _) sameCommon_saveToken

theorem sameCommon_saveTokenBalances : Keeps SameCommon (w.saveTokenBalances tx) := by
  have hcreate : Keeps SameCommon (saveAddressBalanceCreateToken tx) := by
    unfold saveAddressBalanceCreateToken
    split
    · exact keeps_bind (keeps_each (fun _ => sameCommon_onBalance) _) (fun _ => sameCommon_onBalance)
    · exact keeps_pure _
  have hadd : Keeps SameCommon (saveAddressBalanceAddToken tx) := by
    unfold saveAddressBalanceAddToken
    split
    · exact sameCommon_onBalance
    · exact keeps_pure _
  have hmove : Keeps SameCommon (saveAddressBalanceMoveToken tx) := by
    unfold saveAddressBalanceMoveToken
    split
    · exact keeps_bind sameCommon_onBalance (fun _ => keeps_bind (keeps_lift _)
        (fun _ => keeps_ite sameCommon_onBalance (keeps_pure _)))
    · exact keeps_pure _
  have hburn : Keeps SameCommon (saveAddressBalanceBurnToken tx) := by
    unfold saveAddressBalanceBurnToken
    split
    · exact sameCommon_onBalance
    · exact keeps_pure _
  exact keeps_ite (keeps_bind hcreate (fun _ => keeps_bind hadd (fun _ =>
    keeps_bind hmove (fun _ => hburn)))) (keeps_pure _)

/-- The records of a transaction leave the common balance alone. -/
theorem sameCommon_saveRecords {header : BlockHeader} :
    Keeps SameCommon (w.saveRecords header n tx) :=
  keeps_ite (keeps_bind sameCommon_delegateStatus (fun _ => keeps_bind
    (keeps_bind sameCommon_toLeveldb (fun _ => keeps_bind (keeps_lift _)
      (fun _ => keeps_ite sameCommon_toLeveldb (keeps_pure _)))) (fun _ =>
    keeps_bind sameCommon_saveTxs (fun _ => keeps_bind sameCommon_saveTokenBalances
      (fun _ => keeps_pure _))))) (keeps_pure _)

theorem sameCommon_saveForgingSums {bi : BlockInfo} : Keeps SameCommon (w.saveForgingSums bi n) :=
  keeps_ite (keeps_bind (keeps_lift _) (fun _ => sameCommon_onBatch)) (keeps_pure _)

theorem sameCommon_saveBalances : Keeps SameCommon (w.saveBalances n) :=
  keeps_ite (keeps_bind (keeps_read _) (fun _ => keeps_each (fun _ => keeps_bind (keeps_lift _)
    (fun _ => keeps_ite sameCommon_onBatch (keeps_pure _))) _)) (keeps_pure _)

end Quiet

section Brought

variable {w : WorkerMain} {header : BlockHeader} {n : UInt64} {s s' : MainState}

/-- What a transaction does to the common balance. -/
theorem common_processTransaction {tx : TransactionInfo} {status : Option TransactionStatus}
    (hon : w.modules.block = true)
    (h : (w.processTransaction header n true tx).exec s = (.ok status, s')) :
    s'.commonBalance.money =
        s.commonBalance.money + AddressTx.brought ⟨tx, status, header.isForgingBlock⟩ ∧
      (s'.commonBalance.blockNumber = n ∨ s'.commonBalance = s.commonBalance) := by
  obtain ⟨status', t, hrecords, h⟩ := exec_bind_ok.mp h
  obtain ⟨_, t', hcommon, h⟩ := exec_bind_ok.mp h
  obtain ⟨rfl, rfl⟩ := exec_pure_ok.mp h
  have hsame : SameCommon s t := Keeps.of_exec hrecords sameCommon_saveRecords
  unfold SameCommon at hsame
  unfold addCommonBalance at hcommon
  rw [hon] at hcommon
  obtain ⟨isInitial, hinitial, hcommon⟩ := exec_lift_bind_ok.mp hcommon
  obtain ⟨_, hinitial⟩ := check_bind_eq_ok.mp hinitial
  cases hinitial
  unfold AddressTx.brought AddressTx.isFromInitial
  split at hcommon
  · rename_i hbrings
    cases hcommon
    rw [if_pos hbrings]
    exact ⟨congrArg (fun c : CommonBalance => c.money + tx.value) hsame, Or.inl rfl⟩
  · rename_i hnot
    obtain ⟨-, rfl⟩ := exec_pure_ok.mp hcommon
    rw [if_neg hnot, hsame]
    exact ⟨(add_zero _).symm, Or.inr rfl⟩

theorem common_processTransactions (hon : w.modules.block = true) :
    ∀ {txs : List TransactionInfo} {statuses : List (Option TransactionStatus)} {s s' : MainState},
      (w.processTransactions header n true txs).exec s = (.ok statuses, s') →
      s'.commonBalance.money = s.commonBalance.money +
          ((addressTxs header txs statuses).map AddressTx.brought).sum ∧
        (s'.commonBalance.blockNumber = n ∨ s'.commonBalance = s.commonBalance)
  | [], statuses, s, s', h => by
      obtain ⟨rfl, rfl⟩ := exec_pure_ok.mp h
      exact ⟨(add_zero _).symm, Or.inr rfl⟩
  | tx :: txs, statuses, s, s', h => by
      obtain ⟨status, t, htx, h⟩ := exec_bind_ok.mp h
      obtain ⟨rest, t', htxs, h⟩ := exec_bind_ok.mp h
      obtain ⟨rfl, rfl⟩ := exec_pure_ok.mp h
      obtain ⟨hmoney, hnumber⟩ := common_processTransaction hon htx
      obtain ⟨hmoney', hnumber'⟩ := common_processTransactions hon htxs
      refine ⟨?_, ?_⟩
      · rw [hmoney', hmoney, add_assoc]
        rfl
      · rcases hnumber' with hnumber' | hsame
        · exact Or.inl hnumber'
        · rw [hsame]
          exact hnumber

/-- **What a block does to the common balance**, which is not ahead of it. -/
theorem common_processBlock {bi : BlockInfo} {memory : MainMemory} {old : CommonBalance}
    {statuses : List (Option TransactionStatus)} (hon : w.modules.block = true)
    (hold : w.leveldb.findCommonBalance = .ok old) (hn : old.blockNumber < n)
    (h : (w.processBlock bi n).exec (blockStart memory) = (.ok statuses, s)) :
    ∃ common, (addBatch s.batch w.leveldb).findCommonBalance = .ok common ∧
      common.blockNumber ≤ n ∧ common.money = old.money +
        ((addressTxs bi.header (blockTxs bi) statuses).map AddressTx.brought).sum := by
  -- The steps of `processBlock`, of which one writes the common balance.
  obtain ⟨statuses', s₁, hcontent, h⟩ := exec_bind_ok.mp h
  obtain ⟨_, s₂, hmain, h⟩ := exec_bind_ok.mp h
  obtain ⟨rfl, rfl⟩ := exec_pure_ok.mp h
  obtain ⟨common, hcommon, hcontent⟩ := exec_lift_bind_ok.mp hcontent
  obtain rfl := Except.ok.inj (hcommon.symm.trans hold)
  rw [exec_update_bind] at hcontent
  obtain ⟨statuses, t, hkind, hcontent⟩ := exec_bind_ok.mp hcontent
  obtain ⟨_, u, hforging, hcontent⟩ := exec_bind_ok.mp hcontent
  obtain ⟨_, v, hbalances, hcontent⟩ := exec_bind_ok.mp hcontent
  obtain ⟨_, v', hsave, hcontent⟩ := exec_bind_ok.mp hcontent
  obtain ⟨rfl, rfl⟩ := exec_pure_ok.mp hcontent
  rw [decide_eq_true hn] at hkind
  obtain ⟨hmoney, hnumber⟩ := common_processTransactions hon (processKind_txs hkind)
  have hsame : SameCommon t v := Frame.trans
    (Keeps.of_exec hforging sameCommon_saveForgingSums)
    (Keeps.of_exec hbalances sameCommon_saveBalances)
  unfold saveCommonBalance at hsave
  rw [if_pos hon, exec_read_bind] at hsave
  obtain ⟨hadd, -⟩ := onBatch_ok hsave
  obtain ⟨hmainBlock, -⟩ := saveMainBlock_ok hmain
  refine ⟨v.commonBalance, ?_, ?_, ?_⟩
  · have hspared := Batch.Spares.addKey (p := literalKey COMMON_BALANCE_KEY) (by decide) hmainBlock
    obtain ⟨value, hvalue, hv'⟩ := Batch.addKey_eq_ok hadd
    have hfind := find?_addBatch_addKeyInternal v.batch w.leveldb (literalKey COMMON_BALANCE_KEY)
      value false (literalKey COMMON_BALANCE_KEY)
    rw [if_pos rfl, ← hv', ← hspared.find?_addBatch w.leveldb (List.prefix_refl _)] at hfind
    exact (LevelDb.findOneValue_of_find? hfind).trans (CommonBalance.deserialize_serialize hvalue)
  · rw [hsame]
    rcases hnumber with hnumber | hsame'
    · exact hnumber.le
    · rw [hsame']
      exact hn.le
  · rw [hsame, hmoney]

end Brought

/-! ## Runs -/

/-- What is known of both books after a run. -/
structure BothBooks (db : LevelDb) (n : UInt64) (txs : List AddressTx) : Prop where
  balances : ShowsHistory db n txs
  common : ∃ common, db.findCommonBalance = .ok common ∧ common.blockNumber ≤ n ∧
    common.money = (txs.map AddressTx.brought).sum

theorem sum_booked (txs : List AddressTx) : (txs.map AddressTx.booked).sum =
    (txs.map AddressTx.brought).sum - (txs.map AddressTx.charged).sum -
      (txs.map AddressTx.unbacked).sum := by
  induction txs with
  | nil => rfl
  | cons t txs ih =>
      rw [List.map_cons, List.sum_cons, ih, t.booked_eq]
      simp only [List.map_cons, List.sum_cons]
      abel

theorem Ran.bothBooks {w : WorkerMain} {d : LevelDb} {m : MainMemory}
    {rounds : List (BlockInfo × List (Option TransactionStatus))} (h : Ran w d m rounds)
    (hbalance : w.modules.balance = true) (hblock : w.modules.block = true)
    (hnumbered : ∀ r ∈ rounds, NumberedTxs r.1) :
    ∃ record, d.findMainBlock = .ok record ∧ BothBooks d record.blockNumber (history rounds) := by
  refine h.invariant NumberedTxs (H := fun d n rounds => BothBooks d n (history rounds))
    ⟨showsHistory_start, default, rfl, le_refl _, rfl⟩ ?_ hnumbered
  intro d n m s rounds bi statuses hbooks hn hgood hexec
  obtain ⟨old, hold, hbehind, hmoney⟩ := hbooks.common
  obtain ⟨common, hcommon, hnumber, hmoney'⟩ := common_processBlock (w := w.on d) hblock hold
    (lt_of_le_of_lt hbehind hn) hexec
  have hhistory : history (rounds ++ [(bi, statuses)]) =
      history rounds ++ addressTxs bi.header (blockTxs bi) statuses := by
    unfold history
    rw [List.flatMap_append, List.flatMap_singleton]
  rw [hhistory]
  refine ⟨ShowsHistory.block (w := w.on d) hbooks.balances hbalance hn hgood hexec, common,
    hcommon, hnumber, ?_⟩
  rw [hmoney', hmoney, List.map_append, List.sum_append]

/-- **Money is conserved**: in every run, with failing blocks and restarts anywhere, the balances
of all addresses come to the money on record, less the fees that were charged and what the two
books count differently. -/
theorem money_conserved {w : WorkerMain} {d : LevelDb} {m : MainMemory}
    {rounds : List (BlockInfo × List (Option TransactionStatus))}
    (hbalance : w.modules.balance = true) (hblock : w.modules.block = true) (h : Ran w d m rounds)
    (hnumbered : ∀ r ∈ rounds, NumberedTxs r.1) :
    ∃ common, d.findCommonBalance = .ok common ∧
      HasTotal (fun name => (storedBalance d name).calcBalanceWithoutDelegate)
        (common.money - ((history rounds).map AddressTx.charged).sum -
          ((history rounds).map AddressTx.unbacked).sum) := by
  obtain ⟨record, _, hbooks⟩ := h.bothBooks hbalance hblock hnumbered
  obtain ⟨common, hcommon, _, hmoney⟩ := hbooks.common
  refine ⟨common, hcommon, ?_⟩
  have htotal := BalanceView.worth.hasTotal_stored hbooks.balances
  have hcalls : (history rounds).map (fun t => BalanceView.worth.ofCalls t.calls) =
      (history rounds).map AddressTx.booked :=
    List.map_congr_left (fun t _ => BalanceView.worth_calls t)
  rw [hcalls, sum_booked, ← hmoney] at htotal
  exact htotal.congr (fun name => (BalanceView.worth_sums _).symm)

/-- Of the 100 that were paid out, 10 went into fees. -/
theorem money_conserved_two :
    HasTotal (fun name => (storedBalance (plainMain.delivered payingBlocks).1
      name).calcBalanceWithoutDelegate) 90 := by
  have hnumbered : ∀ r ∈ (plainMain.delivered payingBlocks).2.2, ∀ tx ∈ blockTxs r.1,
      tx.blockNumber = r.1.blockNumber := by decide +kernel
  obtain ⟨common, hcommon, htotal⟩ := money_conserved (w := plainMain) rfl rfl
    (ran_delivered plainMain payingBlocks) hnumbered
  have hmoney : ((plainMain.delivered payingBlocks).1.findCommonBalance.map
      CommonBalance.money) = .ok 100 := by decide +kernel
  have hfees : ((history (plainMain.delivered payingBlocks).2.2).map AddressTx.charged).sum =
      10 := by decide +kernel
  have hunbacked : ((history (plainMain.delivered payingBlocks).2.2).map
      AddressTx.unbacked).sum = 0 := by decide +kernel
  rw [hcommon] at hmoney
  have hmoney : common.money = 100 := Except.ok.inj hmoney
  rw [hmoney, hfees, hunbacked] at htotal
  exact htotal

end WorkerMain

end TorrentNode
