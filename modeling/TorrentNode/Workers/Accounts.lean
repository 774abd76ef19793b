import TorrentNode.Workers.StoredBalances
import TorrentNode.Workers.TokenSupply

/-!
# What the stored balances add up to

Something that balances show, that adds up when they are merged, and to which every
operation adds an amount of its own, is a view of the balances. What a view shows of a
stored balance is the sum over the operations on its name, and all stored balances
together show the sum over all operations: names drop out, whoever they belong to.
-/

namespace TorrentNode

/-! ## The accounts -/

namespace BalanceSums

/-- What the sums of a balance say about its accounts. -/
def accounts (s : BalanceSums) : Ledger
  | .own => s.balance
  | .delegate => (s.delegated.getD 0).delegate
  | .delegated => (s.delegated.getD 0).delegated
  | .reserved => (s.delegated.getD 0).reserved

theorem getD_merge (a b : Option DelegateSums) :
    (Option.merge (· + ·) a b).getD 0 = a.getD 0 + b.getD 0 := by
  cases a with
  | none =>
      rw [Option.merge_none_left]
      exact (zero_add _).symm
  | some x =>
      cases b with
      | none => exact (add_zero x).symm
      | some y => rfl

/-- The accounts add up as the sums do. -/
def ledger : BalanceSums →+ Ledger where
  toFun := accounts
  map_zero' := by
    funext a
    cases a <;> rfl
  map_add' s t := by
    funext a
    cases a with
    | own => rfl
    | delegate => exact congrArg DelegateSums.delegate (getD_merge s.delegated t.delegated)
    | delegated => exact congrArg DelegateSums.delegated (getD_merge s.delegated t.delegated)
    | reserved => exact congrArg DelegateSums.reserved (getD_merge s.delegated t.delegated)

end BalanceSums

namespace BalanceInfo

theorem ledger_sums (b : BalanceInfo) : BalanceSums.ledger b.sums = b.ledger := by
  show b.sums.accounts = b.ledger
  funext a
  cases hd : b.delegated with
  | none => cases a <;> simp [BalanceSums.accounts, sums, ledger, hd] <;> rfl
  | some d => cases a <;> simp [BalanceSums.accounts, sums, ledger, hd] <;> rfl

/-! ## What the operations do to the accounts -/

theorem fee_of_ok {tx : TransactionInfo} {realFee : UInt64} (h : tx.realFee = .ok realFee) :
    fee tx = realFee := by
  unfold fee
  rw [h]
  rfl

/-- The balance of the sender; the part about delegations stays. -/
theorem balance_pays {b b' : BalanceInfo} {tx : TransactionInfo} {changeBalance isFrom : Bool}
    (h : pays tx changeBalance isFrom b = .ok b') :
    b'.balance.balance = b.balance.balance -
        (if changeBalance && isFrom then tx.value + fee tx else 0) ∧
      b'.delegated = b.delegated := by
  cases isFrom with
  | false =>
      cases h
      simp
  | true =>
      cases changeBalance with
      | false =>
          rw [← Except.ok.inj h]
          simp
      | true =>
          obtain ⟨realFee, hfee, h⟩ := bind_eq_ok.mp h
          rw [← Except.ok.inj h, fee_of_ok hfee]
          simp [BalanceElement.balance_spentValue]

theorem balance_takes (tx : TransactionInfo) (changeBalance isTo : Bool) (b : BalanceInfo) :
    (takes tx changeBalance isTo b).balance.balance = b.balance.balance +
        (if changeBalance && isTo then tx.value else 0) ∧
      (takes tx changeBalance isTo b).delegated = b.delegated := by
  unfold takes
  cases isTo with
  | false => simp
  | true =>
      cases changeBalance with
      | false => simp
      | true => simp [BalanceElement.balance_receiveValue]

/-- What a delegation sets aside. -/
def setAside (tx : TransactionInfo) (isFrom : Bool) : UInt64 :=
  match tx.delegate with
  | some info => if info.isDelegate && isFrom then info.value else 0
  | none => 0

theorem ledger_reserves (tx : TransactionInfo) (isFrom : Bool) (b : BalanceInfo) :
    (reserves tx isFrom b).ledger = b.ledger + Pi.single .reserved (setAside tx isFrom) := by
  unfold reserves setAside
  cases tx.delegate with
  | none => simp
  | some info =>
      funext a
      simp only
      cases info.isDelegate && isFrom <;> cases a <;> simp [ledger, DelegateBalance.ledger]

theorem ledger_forges (tx : TransactionInfo) (b : BalanceInfo) :
    (forges tx b).ledger = b.ledger := by
  funext a
  cases a <;> rfl

/-- A balance of the same accounts but for its own. -/
theorem ledger_own {b b' : BalanceInfo} {x : UInt64}
    (hbalance : b'.balance.balance = b.balance.balance + x) (hd : b'.delegated = b.delegated) :
    b'.ledger = b.ledger + Pi.single .own x := by
  unfold BalanceElement.balance at hbalance
  funext a
  cases a <;> simp [ledger, hd, hbalance]

/-- A transfer changes what the address has and what it has set aside. -/
theorem transfer_eq (tx : TransactionInfo) (isFrom isTo changeBalance : Bool) :
    transfer tx isFrom isTo changeBalance = Pi.single .own
        ((if changeBalance && isTo then tx.value else 0) -
          (if changeBalance && isFrom then tx.value + fee tx else 0)) +
      Pi.single .reserved (setAside tx isFrom) := by
  funext a
  unfold transfer setAside
  cases tx.delegate with
  | none => cases changeBalance <;> cases a <;> simp
  | some info => cases changeBalance <;> cases a <;> simp

theorem ledger_plusWithoutDelegate {b b' : BalanceInfo} {tx : TransactionInfo} {address : Address}
    {changeBalance isForging : Bool}
    (h : b.plusWithoutDelegate tx address changeBalance isForging = .ok b') :
    b'.ledger = b.ledger + transfer tx (tx.fromAddress.address == address.address)
      (tx.toAddress.address == address.address) changeBalance := by
  rw [plusWithoutDelegate_eq] at h
  obtain ⟨isFrom, hfrom, h⟩ := bind_eq_ok.mp h
  obtain ⟨b₁, hpays, h⟩ := bind_eq_ok.mp h
  obtain ⟨isTo, hto, h⟩ := bind_eq_ok.mp h
  rw [← Address.eq_of_ok hfrom, ← Address.eq_of_ok hto]
  obtain ⟨hspent, hd₁⟩ := balance_pays hpays
  obtain ⟨hreceived, hd₂⟩ := balance_takes tx changeBalance isTo b₁
  have hown : (takes tx changeBalance isTo b₁).ledger = b.ledger + Pi.single .own
      ((if changeBalance && isTo then tx.value else 0) -
        (if changeBalance && isFrom then tx.value + fee tx else 0)) := by
    refine ledger_own ?_ (hd₂.trans hd₁)
    rw [hreceived, hspent]
    abel
  have hrest : b'.ledger = (reserves tx isFrom
      { takes tx changeBalance isTo b₁ with
        countTxs := (takes tx changeBalance isTo b₁).countTxs + 1 }).ledger := by
    simp only at h
    split at h
    · cases h
      exact ledger_forges tx _
    · cases h
      rfl
  have hcount : ({ takes tx changeBalance isTo b₁ with
      countTxs := (takes tx changeBalance isTo b₁).countTxs + 1 } : BalanceInfo).ledger =
      (takes tx changeBalance isTo b₁).ledger := by
    funext a
    cases a <;> rfl
  rw [hrest, ledger_reserves, hcount, hown, add_assoc, transfer_eq]

/-- The side that delegates or takes back. -/
theorem sums_delegates {info : DelegateInfo} {undelegateValue : Option UInt64} {p p' : Delegation}
    (h : delegates info undelegateValue p = .ok p') :
    p'.1.balance = p.1.balance +
        (if info.isDelegate then -info.value else undelegateValue.getD 0) ∧
      p'.2.sums = p.2.sums +
        ⟨if info.isDelegate then info.value else -undelegateValue.getD 0, 0, 0, 0⟩ := by
  unfold delegates at h
  split at h
  · rename_i hdelegate
    have hspent := BalanceElement.balance_spentValue p.1 info.value
    rw [if_pos hdelegate, if_pos hdelegate, ← sums_delegate_spent, ← sub_eq_add_neg, ← hspent,
      ← Except.ok.inj h]
    exact ⟨rfl, rfl⟩
  · rename_i hdelegate
    rw [if_neg hdelegate, if_neg hdelegate]
    cases undelegateValue with
    | none => cases h
    | some v =>
        have hreceived := BalanceElement.balance_receiveValue p.1 v
        rw [Option.getD_some, ← sums_delegate_received, ← hreceived, ← Except.ok.inj h]
        exact ⟨rfl, rfl⟩

/-- The side that is delegated to. -/
theorem sums_delegatedTo {info : DelegateInfo} {undelegateValue : Option UInt64}
    {p p' : Delegation} (h : delegatedTo info undelegateValue p = .ok p') :
    p'.1 = p.1 ∧ p'.2.sums = p.2.sums +
      ⟨0, if info.isDelegate then info.value else -undelegateValue.getD 0, 0, 0⟩ := by
  unfold delegatedTo at h
  split at h
  · rename_i hdelegate
    rw [if_pos hdelegate, ← sums_delegated_received, ← Except.ok.inj h]
    exact ⟨rfl, rfl⟩
  · rename_i hdelegate
    rw [if_neg hdelegate]
    cases undelegateValue with
    | none => cases h
    | some v =>
        rw [Option.getD_some, ← sums_delegated_spent, ← Except.ok.inj h]
        exact ⟨rfl, rfl⟩

theorem sums_settle (info : DelegateInfo) (isFrom : Bool) (p : Delegation) :
    (settle info isFrom p).2.sums = p.2.sums +
      ⟨0, 0, if isFrom && info.isDelegate then -info.value else 0, 0⟩ := by
  unfold settle
  cases isFrom && info.isDelegate with
  | false => simp [DelegateSums.add_def]
  | true => simp [DelegateSums.add_def, DelegateBalance.sums, sub_eq_add_neg]

/-- What both sides of a delegation come to at one address. -/
theorem sums_delegationSteps {tx : TransactionInfo} {info : DelegateInfo} {address : Address}
    {undelegateValue : Option UInt64} {isOkStatus isFrom : Bool} {p p' : Delegation}
    (h : delegationSteps tx info address undelegateValue isOkStatus isFrom p = .ok p') :
    p'.1.balance = p.1.balance + (if isOkStatus && isFrom then
        (if info.isDelegate then -info.value else undelegateValue.getD 0) else 0) ∧
      p'.2.sums = p.2.sums +
        ⟨if isOkStatus && isFrom then
            (if info.isDelegate then info.value else -undelegateValue.getD 0) else 0,
          if isOkStatus && (tx.toAddress.address == address.address) then
            (if info.isDelegate then info.value else -undelegateValue.getD 0) else 0,
          if isFrom && info.isDelegate then -info.value else 0, 1⟩ := by
  have hcount : ({ p.2 with countOp := p.2.countOp + 1 } : DelegateBalance).sums =
      p.2.sums + ⟨0, 0, 0, 1⟩ := by
    simp [DelegateSums.add_def, DelegateBalance.sums]
  obtain ⟨p₀, hp₀, h⟩ := bind_eq_ok.mp h
  obtain rfl := Except.ok.inj hp₀
  obtain ⟨p₁, hmiddle, h⟩ := bind_eq_ok.mp h
  obtain rfl := Except.ok.inj h
  rw [sums_settle]
  -- Only a transaction that succeeded moves anything.
  have hmiddle : p₁.1.balance = p.1.balance + (if isOkStatus && isFrom then
        (if info.isDelegate then -info.value else undelegateValue.getD 0) else 0) ∧
      p₁.2.sums = p.2.sums +
        ⟨if isOkStatus && isFrom then
            (if info.isDelegate then info.value else -undelegateValue.getD 0) else 0,
          if isOkStatus && (tx.toAddress.address == address.address) then
            (if info.isDelegate then info.value else -undelegateValue.getD 0) else 0, 0, 1⟩ := by
    cases isOkStatus with
    | false =>
        rw [← Except.ok.inj hmiddle]
        simp [hcount]
    | true =>
        obtain ⟨q, hq, hmiddle⟩ := bind_eq_ok.mp hmiddle
        obtain ⟨isTo, hto, hmiddle⟩ := bind_eq_ok.mp hmiddle
        rw [← Address.eq_of_ok hto]
        -- the sender first, the recipient then
        have hq : q.1.balance = p.1.balance + (if isFrom then
              (if info.isDelegate then -info.value else undelegateValue.getD 0) else 0) ∧
            q.2.sums = p.2.sums + ⟨if isFrom then
              (if info.isDelegate then info.value else -undelegateValue.getD 0) else 0, 0, 0, 1⟩ := by
          cases isFrom with
          | false =>
              rw [← Except.ok.inj hq]
              simp [hcount]
          | true =>
              obtain ⟨hbalance, hsums⟩ := sums_delegates hq
              rw [hbalance, hsums, hcount]
              simp [DelegateSums.add_def]
        cases isTo with
        | false =>
            rw [← Except.ok.inj hmiddle, hq.1, hq.2]
            simp
        | true =>
            obtain ⟨hbalance, hsums⟩ := sums_delegatedTo hmiddle
            rw [hbalance, hsums, hq.1, hq.2]
            simp [DelegateSums.add_def]
  refine ⟨hmiddle.1, ?_⟩
  rw [hmiddle.2]
  simp [DelegateSums.add_def]

theorem ledger_plusWithDelegate {b b' : BalanceInfo} {tx : TransactionInfo} {address : Address}
    {undelegateValue : Option UInt64} {isOkStatus : Bool} {info : DelegateInfo}
    (hinfo : tx.delegate = some info)
    (h : b.plusWithDelegate tx address undelegateValue isOkStatus = .ok b') :
    b'.ledger = b.ledger + delegation info (undelegateValue.getD 0)
      (tx.fromAddress.address == address.address) (tx.toAddress.address == address.address)
      isOkStatus := by
  rw [plusWithDelegate_eq b tx address undelegateValue isOkStatus hinfo] at h
  obtain ⟨isFrom, hfrom, h⟩ := bind_eq_ok.mp h
  rw [← Address.eq_of_ok hfrom]
  obtain ⟨p, hsteps, rfl⟩ := map_eq_ok.mp h
  obtain ⟨hbalance, hsums⟩ := sums_delegationSteps hsteps
  have hdelegate := congrArg DelegateSums.delegate hsums
  have hdelegated := congrArg DelegateSums.delegated hsums
  have hreserved := congrArg DelegateSums.reserved hsums
  funext a
  cases a with
  | own => exact hbalance
  | delegate => exact hdelegate
  | delegated => exact hdelegated
  | reserved => exact hreserved

/-- Operations on tokens leave the accounts alone. -/
theorem ledger_addTokens {b b' : BalanceInfo} {tx : TransactionInfo} {value : UInt64}
    {isOkStatus : Bool} (h : b.addTokens tx value isOkStatus = .ok b') : b'.ledger = b.ledger := by
  rw [addTokens_eq] at h
  split at h
  · cases h
    rfl
  · obtain ⟨token, _, h⟩ := bind_eq_ok.mp h
    cases h
    funext a
    cases a <;> rfl

theorem ledger_moveTokens {b b' : BalanceInfo} {tx : TransactionInfo}
    {address toAddress : Address} {value : UInt64} {isOkStatus : Bool}
    (h : b.moveTokens tx address toAddress value isOkStatus = .ok b') : b'.ledger = b.ledger := by
  rw [moveTokens_eq] at h
  split at h
  · cases h
    rfl
  · obtain ⟨isFrom, _, h⟩ := bind_eq_ok.mp h
    obtain ⟨token, _, h⟩ := bind_eq_ok.mp h
    obtain ⟨b₁, hfrom, h⟩ := bind_eq_ok.mp h
    obtain ⟨isTo, _, h⟩ := bind_eq_ok.mp h
    obtain ⟨b₂, hto, h⟩ := bind_eq_ok.mp h
    cases h
    funext a
    split at hfrom <;> cases hfrom <;> split at hto <;> cases hto <;> cases a <;> rfl

end BalanceInfo

namespace BalanceOp

/-- What an operation enters into the accounts of its address. -/
def entry : BalanceOp → Ledger
  | .plusWithoutDelegate tx address changeBalance _ =>
    BalanceInfo.transfer tx (tx.fromAddress.address == address.address)
      (tx.toAddress.address == address.address) changeBalance
  | .plusWithDelegate tx address undelegateValue isOkStatus =>
    match tx.delegate with
    | some info => BalanceInfo.delegation info (undelegateValue.getD 0)
      (tx.fromAddress.address == address.address) (tx.toAddress.address == address.address)
      isOkStatus
    | none => 0
  | _ => 0

end BalanceOp

/-- **What an operation does to the accounts.** -/
theorem BalanceInfo.ledger_apply {b b' : BalanceInfo} {op : BalanceOp} (h : b.apply op = .ok b') :
    b'.ledger = b.ledger + op.entry := by
  cases op with
  | plusWithoutDelegate tx address changeBalance isForging => exact ledger_plusWithoutDelegate h
  | plusWithDelegate tx address undelegateValue isOkStatus =>
      cases hinfo : tx.delegate with
      | none =>
          have h : b.plusWithDelegate tx address undelegateValue isOkStatus = .ok b' := h
          unfold plusWithDelegate at h
          rw [hinfo] at h
          cases h
      | some info =>
          simp only [BalanceOp.entry, hinfo]
          exact ledger_plusWithDelegate hinfo h
  | addTokens tx value isOkStatus => exact (ledger_addTokens h).trans (add_zero _).symm
  | moveTokens tx address toAddress value isOkStatus =>
      exact (ledger_moveTokens h).trans (add_zero _).symm

/-! ## Views -/

/-- Something that balances show and that adds up, and what each operation adds to it. -/
structure BalanceView (G : Type) [AddCommGroup G] where
  view : BalanceSums →+ G
  change : BalanceOp → G
  view_apply : ∀ {b b' : BalanceInfo} {op : BalanceOp}, b.apply op = .ok b' →
    view b'.sums = view b.sums + change op

theorem BalanceInfo.holding_sums (token : Blob) (b : BalanceInfo) :
    ((b.sums.tokens token).map TokenSums.balance).getD 0 = b.holding token := by
  show (((b.tokens.find? token).map TokenBalance.sums).map TokenSums.balance).getD 0 = _
  unfold holding
  cases b.tokens.find? token <;> rfl

namespace BalanceView

open WorkerMain

/-- The accounts. -/
def accounts : BalanceView Ledger where
  view := BalanceSums.ledger
  change := BalanceOp.entry
  view_apply h := by
    rw [BalanceInfo.ledger_sums, BalanceInfo.ledger_sums]
    exact BalanceInfo.ledger_apply h

/-- What is held of a token. -/
def holding (token : Blob) : BalanceView UInt64 where
  view :=
    { toFun := fun s => ((s.tokens token).map TokenSums.balance).getD 0
      map_zero' := rfl
      map_add' := fun s t => by
        show ((Option.merge (· + ·) (s.tokens token) (t.tokens token)).map _).getD 0 = _
        cases s.tokens token with
        | none => rw [Option.merge_none_left]; exact (zero_add _).symm
        | some x =>
            cases t.tokens token with
            | none => exact (add_zero x.balance).symm
            | some y => rfl }
  change := BalanceOp.adds token
  view_apply {b b' op} h :=
    (b'.holding_sums token).trans ((BalanceInfo.holding_apply token h).trans
      (congrArg (· + op.adds token) (b.holding_sums token).symm))

variable {G : Type} [AddCommGroup G] (V : BalanceView G)

/-- A part of what is shown. -/
def part {H : Type} [AddCommGroup H] (f : G →+ H) : BalanceView H where
  view := f.comp V.view
  change op := f (V.change op)
  view_apply h := by
    show f (V.view _) = f (V.view _) + f (V.change _)
    rw [V.view_apply h, map_add]

/-- What all operations of a transaction add. -/
def ofCalls (cs : List BalanceCall) : G := (cs.map (fun c => V.change c.2)).sum

theorem ofCalls_append (cs ds : List BalanceCall) :
    V.ofCalls (cs ++ ds) = V.ofCalls cs + V.ofCalls ds := by
  unfold ofCalls
  rw [List.map_append, List.sum_append]

theorem ofCalls_flatMap : ∀ txs : List AddressTx,
    V.ofCalls (txs.flatMap AddressTx.calls) = (txs.map (fun t => V.ofCalls t.calls)).sum
  | [] => rfl
  | t :: txs => by
      rw [List.flatMap_cons, ofCalls_append, ofCalls_flatMap txs, List.map_cons, List.sum_cons]

theorem view_foldlM : ∀ {ops : List BalanceOp} {b b' : BalanceInfo},
    ops.foldlM BalanceInfo.apply b = .ok b' →
    V.view b'.sums = V.view b.sums + (ops.map V.change).sum
  | [], b, b', h => by
      cases h
      exact (add_zero _).symm
  | op :: ops, b, b', h => by
      rw [List.foldlM_cons] at h
      obtain ⟨b₁, hop, h⟩ := bind_eq_ok.mp h
      rw [view_foldlM h, V.view_apply hop, List.map_cons, List.sum_cons, add_assoc]

/-- What the operations on one name add. -/
def onName (name : Blob) (cs : List BalanceCall) : G := ((opsOn name cs).map V.change).sum

theorem onName_append (name : Blob) (cs ds : List BalanceCall) :
    V.onName name (cs ++ ds) = V.onName name cs + V.onName name ds := by
  unfold onName opsOn
  rw [List.filter_append, List.map_append, List.map_append, List.sum_append]

theorem onName_flatMap (name : Blob) : ∀ txs : List AddressTx,
    V.onName name (txs.flatMap AddressTx.calls) =
      (txs.map (fun t => V.onName name t.calls)).sum
  | [] => rfl
  | t :: txs => by
      rw [List.flatMap_cons, onName_append, onName_flatMap name txs, List.map_cons, List.sum_cons]

/-- What a stored balance shows is the sum over the operations on its name. -/
theorem view_stored {db : LevelDb} {n : UInt64} {txs : List AddressTx}
    (h : ShowsHistory db n txs) (name : Blob) :
    V.view (storedBalance db name).sums = V.onName name (txs.flatMap AddressTx.calls) := by
  obtain ⟨b, hrun, hsums⟩ := h.run name
  unfold inOneRun at hrun
  rw [foldlM_applyTx] at hrun
  rw [hsums, V.view_foldlM hrun, BalanceInfo.sums_default, map_zero, zero_add]
  rfl

/-- Over all names the operations add up, whoever they concern. -/
theorem hasTotal_opsOn : ∀ {cs : List BalanceCall},
    (∀ c ∈ cs, ∃ name, c.1.toBdString = .ok name) →
    HasTotal (fun name => V.onName name cs) (V.ofCalls cs)
  | [], _ => HasTotal.zero
  | c :: cs, h => by
      obtain ⟨name, hname⟩ := h c List.mem_cons_self
      have hrest := hasTotal_opsOn (fun c' hc' => h c' (List.mem_cons_of_mem _ hc'))
      have hsum : V.ofCalls (c :: cs) = V.change c.2 + V.ofCalls cs := List.sum_cons
      rw [hsum]
      refine ((HasTotal.single name (V.change c.2)).add hrest).congr (fun name' => ?_)
      unfold onName opsOn
      rw [List.filter_cons, hname]
      by_cases hsame : name = name'
      · subst hsame
        rw [if_pos (by exact beq_self_eq_true _), List.map_cons, List.map_cons, List.sum_cons,
          Pi.single_eq_same]
      · rw [if_neg (by simpa [Except.toOption, Subtype.ext_iff] using hsame),
          Pi.single_eq_of_ne (Ne.symm hsame), zero_add]

/-- **What all stored balances show together** is the sum over all transactions. -/
theorem hasTotal_stored {db : LevelDb} {n : UInt64} {txs : List AddressTx}
    (h : ShowsHistory db n txs) :
    HasTotal (fun name => V.view (storedBalance db name).sums)
      (txs.map (fun t => V.ofCalls t.calls)).sum := by
  rw [← V.ofCalls_flatMap]
  exact (V.hasTotal_opsOn h.named).congr (fun name => V.view_stored h name)

/-- Operations on tokens enter nothing into the accounts. -/
theorem entry_of_mem_tokenCalls {t : AddressTx} {c : BalanceCall} (h : c ∈ t.tokenCalls) :
    c.2.entry = 0 := by
  unfold AddressTx.tokenCalls AddressTx.createTokenCalls AddressTx.addTokenCalls
    AddressTx.moveTokenCalls AddressTx.burnTokenCalls at h
  cases hinfo : t.tx.tokenInfo with
  | none => simp [hinfo] at h
  | some info =>
      cases info with
      | create type owner decimals value symbol name emission beginDistribution =>
          simp only [hinfo, List.append_nil, List.mem_append, List.mem_map,
            List.mem_singleton] at h
          rcases h with ⟨d, _, rfl⟩ | rfl <;> rfl
      | moveTokens toAddress value =>
          simp only [hinfo, List.append_nil, List.nil_append, List.mem_cons] at h
          rcases h with rfl | h
          · rfl
          · split at h
            · cases h
            · rw [List.mem_singleton.mp h]
              rfl
      | addTokens toAddress value =>
          simp only [hinfo, List.append_nil, List.nil_append, List.mem_singleton] at h
          rw [h]
          rfl
      | burnTokens value =>
          simp only [hinfo, List.nil_append, List.mem_singleton] at h
          rw [h]
          rfl
      | _ => simp [hinfo] at h

end BalanceView

end TorrentNode
