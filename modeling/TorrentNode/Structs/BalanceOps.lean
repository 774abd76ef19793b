import Mathlib.Algebra.Group.Prod
import TorrentNode.Structs.BalanceSums

/-!
# Operations on balances

Four operations change a balance. Whether they throw and what they change depends on
the transaction, the address and the status alone, so each of them shifts the sums of
every balance by the same. Only the operations on tokens write down the number of
their block whatever stood there, so they must not come before what was already done.
-/

namespace TorrentNode

namespace BalanceInfo

variable {n : UInt64}

/-! ## `plusWithoutDelegate` -/

/-- What `plusWithoutDelegate` does to the balance of the sender. -/
def pays (tx : TransactionInfo) (changeBalance isFrom : Bool) (b : BalanceInfo) :
    Except Err BalanceInfo :=
  if !isFrom then pure b
  else do
    let balance ←
      if !changeBalance then pure b.balance
      else do
        let realFee ← tx.realFee
        pure (b.balance.spentValue (tx.value + realFee))
    pure { b with countSpent := b.countSpent + 1, balance,
                  blockNumber := max b.blockNumber tx.blockNumber }

/-- What it does to that of the recipient. -/
def takes (tx : TransactionInfo) (changeBalance isTo : Bool) (b : BalanceInfo) : BalanceInfo :=
  if !isTo then b
  else { b with
    countReceived := b.countReceived + 1
    balance := if changeBalance then b.balance.receiveValue tx.value else b.balance
    blockNumber := max b.blockNumber tx.blockNumber }

/-- What it sets aside for the delegation that the transaction makes. -/
def reserves (tx : TransactionInfo) (isFrom : Bool) (b : BalanceInfo) : BalanceInfo :=
  match tx.delegate with
  | none => b
  | some info =>
    let d := b.delegated.getD default
    { b with delegated :=
        if info.isDelegate && isFrom then some { d with reserved := d.reserved + info.value }
        else some d }

/-- What a forging transaction adds for its receiver. -/
def forges (tx : TransactionInfo) (b : BalanceInfo) : BalanceInfo :=
  let f := b.forged.getD default
  { b with forged := some { forged := f.forged + tx.value, countOp := f.countOp + 1 } }

theorem plusWithoutDelegate_eq (b : BalanceInfo) (tx : TransactionInfo) (address : Address)
    (changeBalance isForging : Bool) :
    b.plusWithoutDelegate tx address changeBalance isForging =
      tx.fromAddress.eq address >>= fun isFrom => pays tx changeBalance isFrom b >>= fun b =>
        tx.toAddress.eq address >>= fun isTo =>
          let b := takes tx changeBalance isTo b
          let b := { b with countTxs := b.countTxs + 1 }
          let b := reserves tx isFrom b
          if isForging && isTo then .ok (forges tx b) else .ok b := by
  unfold plusWithoutDelegate pays
  cases tx.fromAddress.eq address with
  | error e => rfl
  | ok isFrom =>
      cases isFrom
      · rfl
      · cases changeBalance
        · rfl
        · cases tx.realFee <;> rfl

/-- A change of the balance and of what counts transfers. -/
theorem sums_transfer {b : BalanceInfo} {balance : BalanceElement}
    {countReceived countSpent x r s m : UInt64} (hbalance : balance.balance = b.balance.balance + x)
    (hr : countReceived = b.countReceived + r) (hs : countSpent = b.countSpent + s) :
    ({ b with balance, countReceived, countSpent, blockNumber := max b.blockNumber m } :
      BalanceInfo).sums = b.sums + ⟨x, r, s, 0, none, none, m, none, fun _ => none⟩ :=
  BalanceSums.ext hbalance hr hs (add_zero _).symm Option.merge_none_right.symm
    Option.merge_none_right.symm rfl Option.merge_none_right.symm
    (funext (fun _ => Option.merge_none_right.symm))

/-- A change of the balance and of the part about delegations. -/
theorem sums_delegated {b : BalanceInfo} {balance : BalanceElement} {d : DelegateBalance}
    {x : UInt64} {δ : DelegateSums} (hbalance : balance.balance = b.balance.balance + x)
    (hd : d.sums = (b.delegated.getD default).sums + δ) :
    ({ b with balance, delegated := some d } : BalanceInfo).sums =
      b.sums + ⟨x, 0, 0, 0, some δ, none, 0, none, fun _ => none⟩ := by
  refine BalanceSums.ext hbalance (add_zero _).symm (add_zero _).symm (add_zero _).symm ?_
    Option.merge_none_right.symm (max_zero_uint64 _).symm Option.merge_none_right.symm
    (funext (fun _ => Option.merge_none_right.symm))
  show some d.sums = Option.merge (· + ·) (b.delegated.map DelegateBalance.sums) (some δ)
  rw [hd]
  cases b.delegated with
  | none => exact congrArg some (DelegateBalance.sums_default_add δ)
  | some d => rfl

theorem shifts_pays (tx : TransactionInfo) (changeBalance isFrom : Bool) :
    Shifts sums (BalanceSums.Within · n) (pays tx changeBalance isFrom) := by
  cases isFrom with
  | false => exact Shifts.skip (.of_none rfl n)
  | true =>
      cases changeBalance with
      | false =>
          exact Shifts.ok (.of_none rfl n)
            (fun b _ => sums_transfer (add_zero _).symm (add_zero _).symm rfl)
      | true =>
          unfold pays
          cases tx.realFee with
          | error e => exact Shifts.error
          | ok fee =>
              refine Shifts.ok (.of_none rfl n)
                (fun b _ => sums_transfer (x := -(tx.value + fee)) ?_ (add_zero _).symm rfl)
              exact (BalanceElement.balance_spentValue _ _).trans (sub_eq_add_neg _ _)

theorem shifts_takes (tx : TransactionInfo) (changeBalance isTo : Bool) :
    Shifts (ε := Err) sums (BalanceSums.Within · n)
      (fun b => .ok (takes tx changeBalance isTo b)) := by
  cases isTo with
  | false => exact Shifts.skip (.of_none rfl n)
  | true =>
      cases changeBalance with
      | false =>
          exact Shifts.ok (.of_none rfl n)
            (fun b _ => sums_transfer (add_zero _).symm rfl (add_zero _).symm)
      | true =>
          exact Shifts.ok (.of_none rfl n)
            (fun b _ => sums_transfer (BalanceElement.balance_receiveValue _ _) rfl (add_zero _).symm)

theorem shifts_countTxs : Shifts (ε := Err) sums (BalanceSums.Within · n)
    (fun b => .ok { b with countTxs := b.countTxs + 1 }) := by
  refine Shifts.ok (x := ⟨0, 0, 0, 1, none, none, 0, none, fun _ => none⟩) (.of_none rfl n)
    (fun b _ => ?_)
  exact BalanceSums.ext (add_zero _).symm (add_zero _).symm (add_zero _).symm rfl
    Option.merge_none_right.symm Option.merge_none_right.symm (max_zero_uint64 _).symm
    Option.merge_none_right.symm (funext (fun _ => Option.merge_none_right.symm))

theorem shifts_reserves (tx : TransactionInfo) (isFrom : Bool) :
    Shifts (ε := Err) sums (BalanceSums.Within · n) (fun b => .ok (reserves tx isFrom b)) := by
  unfold reserves
  cases tx.delegate with
  | none => exact Shifts.skip (.of_none rfl n)
  | some info =>
      cases hreserve : info.isDelegate && isFrom with
      | false =>
          refine Shifts.ok (x := ⟨0, 0, 0, 0, some 0, none, 0, none, fun _ => none⟩)
            (.of_none rfl n) (fun b _ => ?_)
          simp only [hreserve, Bool.false_eq_true, if_false]
          exact sums_delegated (add_zero _).symm (add_zero _).symm
      | true =>
          refine Shifts.ok
            (x := ⟨0, 0, 0, 0, some ⟨0, 0, info.value, 0⟩, none, 0, none, fun _ => none⟩)
            (.of_none rfl n) (fun b _ => ?_)
          simp only [hreserve, if_true]
          exact sums_delegated (add_zero _).symm (DelegateSums.ext (add_zero _).symm
            (add_zero _).symm rfl (add_zero _).symm)

theorem shifts_forges (tx : TransactionInfo) :
    Shifts (ε := Err) sums (BalanceSums.Within · n) (fun b => .ok (forges tx b)) := by
  refine Shifts.ok (x := ⟨0, 0, 0, 0, none, some ⟨tx.value, 1⟩, 0, none, fun _ => none⟩)
    (.of_none rfl n) (fun b _ => ?_)
  refine BalanceSums.ext (add_zero _).symm (add_zero _).symm (add_zero _).symm (add_zero _).symm
    Option.merge_none_right.symm ?_ (max_zero_uint64 _).symm Option.merge_none_right.symm
    (funext (fun _ => Option.merge_none_right.symm))
  show some _ = Option.merge (· + ·) b.forged (some ⟨tx.value, 1⟩)
  cases b.forged with
  | none => exact congrArg some (ForgedBalance.default_add ⟨tx.value, 1⟩)
  | some f => rfl

theorem shifts_plusWithoutDelegate (tx : TransactionInfo) (address : Address)
    (changeBalance isForging : Bool) :
    Shifts sums (BalanceSums.Within · n)
      (fun b => b.plusWithoutDelegate tx address changeBalance isForging) := by
  simp only [plusWithoutDelegate_eq]
  refine Shifts.lift (fun isFrom => Shifts.bind .add (shifts_pays tx changeBalance isFrom) ?_)
  refine Shifts.lift (fun isTo => ?_)
  have h := Shifts.bind .add (shifts_takes tx changeBalance isTo) (Shifts.bind .add
    (shifts_countTxs (n := n)) (Shifts.bind .add (shifts_reserves tx isFrom) (Shifts.ite (c := (isForging && isTo) = true) (shifts_forges tx)
      (Shifts.skip (.of_none rfl n)))))
  exact h

/-! ## `plusWithDelegate` -/

/-- What `plusWithDelegate` changes: the balance and the part about delegations. -/
abbrev Delegation : Type := BalanceElement × DelegateBalance

/-- What shows of it. -/
def delegationSums (p : Delegation) : UInt64 × DelegateSums := (p.1.balance, p.2.sums)

/-- The side that delegates or takes back. -/
def delegates (info : DelegateInfo) (undelegateValue : Option UInt64) (p : Delegation) :
    Except Err Delegation :=
  if info.isDelegate then
    .ok (p.1.spentValue info.value, { p.2 with delegate := p.2.delegate.spentValue info.value })
  else match undelegateValue with
    | none => .error (.exception "Undelegate value not set")
    | some v => .ok (p.1.receiveValue v, { p.2 with delegate := p.2.delegate.receiveValue v })

/-- The side that is delegated to. -/
def delegatedTo (info : DelegateInfo) (undelegateValue : Option UInt64) (p : Delegation) :
    Except Err Delegation :=
  if info.isDelegate then
    .ok (p.1, { p.2 with delegated := p.2.delegated.receiveValue info.value })
  else match undelegateValue with
    | none => .error (.exception "Undelegate value not set")
    | some v => .ok (p.1, { p.2 with delegated := p.2.delegated.spentValue v })

/-- A delegation that is settled is no longer reserved. -/
def settle (info : DelegateInfo) (isFrom : Bool) (p : Delegation) : Delegation :=
  (p.1, if isFrom && info.isDelegate then { p.2 with reserved := p.2.reserved - info.value }
    else p.2)

/-- All that `plusWithDelegate` does to them. -/
def delegationSteps (tx : TransactionInfo) (info : DelegateInfo) (address : Address)
    (undelegateValue : Option UInt64) (isOkStatus isFrom : Bool) (p : Delegation) :
    Except Err Delegation :=
  .ok (p.1, { p.2 with countOp := p.2.countOp + 1 }) >>= fun p =>
    (if isOkStatus then
      (if isFrom then delegates info undelegateValue p else .ok p) >>= fun p =>
        tx.toAddress.eq address >>= fun isTo =>
          if isTo then delegatedTo info undelegateValue p else .ok p
    else .ok p) >>= fun p => .ok (settle info isFrom p)

theorem plusWithDelegate_eq (b : BalanceInfo) (tx : TransactionInfo) (address : Address)
    (undelegateValue : Option UInt64) (isOkStatus : Bool) {info : DelegateInfo}
    (hinfo : tx.delegate = some info) :
    b.plusWithDelegate tx address undelegateValue isOkStatus =
      tx.fromAddress.eq address >>= fun isFrom =>
        (delegationSteps tx info address undelegateValue isOkStatus isFrom
          (b.balance, b.delegated.getD default)).map
          (fun p => { b with balance := p.1, delegated := some p.2 }) := by
  unfold plusWithDelegate delegationSteps delegates delegatedTo
  rw [hinfo]
  rcases info with ⟨value, isDelegate⟩
  cases tx.fromAddress.eq address with
  | error e => rfl
  | ok isFrom =>
      cases isOkStatus with
      | false => rfl
      | true =>
          cases tx.toAddress.eq address with
          | error e => cases isFrom <;> cases isDelegate <;> cases undelegateValue <;> rfl
          | ok isTo =>
              cases isFrom <;> cases isDelegate <;> cases undelegateValue <;> cases isTo <;> rfl

section Delegation

variable {x : UInt64} {d : DelegateSums}

/-- A step that shifts both. -/
theorem shifts_pair {f : Delegation → Delegation}
    (hx : ∀ p, (f p).1.balance = p.1.balance + x) (hd : ∀ p, (f p).2.sums = p.2.sums + d) :
    Shifts (ε := Err) delegationSums (fun _ => True) (fun p => .ok (f p)) :=
  Shifts.ok (x := (x, d)) trivial (fun p _ => Prod.ext (hx p) (hd p))

theorem shifts_unchanged : Shifts (ε := Err) delegationSums (fun _ => True) (fun p => .ok p) :=
  Shifts.skip (M := UInt64 × DelegateSums) (P := fun _ => True) trivial

theorem shifts_then {f g : Delegation → Except Err Delegation}
    (hf : Shifts delegationSums (fun _ => True) f) (hg : Shifts delegationSums (fun _ => True) g) :
    Shifts delegationSums (fun _ => True) (fun p => f p >>= g) :=
  Shifts.bind (M := UInt64 × DelegateSums) (P := fun _ => True) (fun _ _ => trivial) hf hg

end Delegation

theorem sums_delegate_spent (d : DelegateBalance) (v : UInt64) :
    ({ d with delegate := d.delegate.spentValue v } : DelegateBalance).sums =
      d.sums + ⟨v, 0, 0, 0⟩ := by
  have h : (d.delegate.spentValue v).spent - (d.delegate.spentValue v).received =
      (d.delegate.spent - d.delegate.received) + v := by
    rw [BalanceElement.spent_sub_received, BalanceElement.balance_spentValue,
      BalanceElement.spent_sub_received]
    abel
  simp only [DelegateBalance.sums, DelegateSums.add_def, add_zero, h]

theorem sums_delegate_received (d : DelegateBalance) (v : UInt64) :
    ({ d with delegate := d.delegate.receiveValue v } : DelegateBalance).sums =
      d.sums + ⟨-v, 0, 0, 0⟩ := by
  have h : (d.delegate.receiveValue v).spent - (d.delegate.receiveValue v).received =
      (d.delegate.spent - d.delegate.received) + -v := by
    rw [BalanceElement.spent_sub_received, BalanceElement.balance_receiveValue,
      BalanceElement.spent_sub_received]
    abel
  simp only [DelegateBalance.sums, DelegateSums.add_def, add_zero, h]

theorem sums_delegated_received (d : DelegateBalance) (v : UInt64) :
    ({ d with delegated := d.delegated.receiveValue v } : DelegateBalance).sums =
      d.sums + ⟨0, v, 0, 0⟩ := by
  simp only [DelegateBalance.sums, DelegateSums.add_def, add_zero,
    BalanceElement.balance_receiveValue]

theorem sums_delegated_spent (d : DelegateBalance) (v : UInt64) :
    ({ d with delegated := d.delegated.spentValue v } : DelegateBalance).sums =
      d.sums + ⟨0, -v, 0, 0⟩ := by
  simp only [DelegateBalance.sums, DelegateSums.add_def, add_zero,
    BalanceElement.balance_spentValue, sub_eq_add_neg]

theorem shifts_delegates (info : DelegateInfo) (undelegateValue : Option UInt64) :
    Shifts delegationSums (fun _ => True) (delegates info undelegateValue) := by
  refine Shifts.ite (shifts_pair (x := -info.value) (fun p => ?_)
    (fun p => sums_delegate_spent p.2 info.value)) ?_
  · exact (BalanceElement.balance_spentValue p.1 info.value).trans (sub_eq_add_neg _ _)
  · cases undelegateValue with
    | none => exact Shifts.error
    | some v =>
        exact shifts_pair (x := v) (fun p => BalanceElement.balance_receiveValue p.1 v)
          (fun p => sums_delegate_received p.2 v)

theorem shifts_delegatedTo (info : DelegateInfo) (undelegateValue : Option UInt64) :
    Shifts delegationSums (fun _ => True) (delegatedTo info undelegateValue) := by
  refine Shifts.ite (shifts_pair (fun p => (add_zero p.1.balance).symm)
    (fun p => sums_delegated_received p.2 info.value)) ?_
  cases undelegateValue with
  | none => exact Shifts.error
  | some v =>
      exact shifts_pair (fun p => (add_zero p.1.balance).symm)
        (fun p => sums_delegated_spent p.2 v)

theorem shifts_settle (info : DelegateInfo) (isFrom : Bool) :
    Shifts (ε := Err) delegationSums (fun _ => True) (fun p => .ok (settle info isFrom p)) := by
  unfold settle
  cases isFrom && info.isDelegate with
  | false => exact shifts_unchanged
  | true =>
      refine shifts_pair (x := 0) (d := ⟨0, 0, -info.value, 0⟩) (fun p => (add_zero _).symm)
        (fun p => ?_)
      exact DelegateSums.ext (add_zero _).symm (add_zero _).symm (sub_eq_add_neg _ _)
        (add_zero _).symm

theorem shifts_delegationSteps (tx : TransactionInfo) (info : DelegateInfo) (address : Address)
    (undelegateValue : Option UInt64) (isOkStatus isFrom : Bool) :
    Shifts delegationSums (fun _ => True)
      (delegationSteps tx info address undelegateValue isOkStatus isFrom) := by
  have hcount : Shifts (ε := Err) delegationSums (fun _ => True)
      (fun p => .ok (p.1, { p.2 with countOp := p.2.countOp + 1 })) :=
    shifts_pair (x := 0) (d := ⟨0, 0, 0, 1⟩) (fun p => (add_zero _).symm) (fun p =>
      DelegateSums.ext (add_zero _).symm (add_zero _).symm (add_zero _).symm rfl)
  have hto : Shifts delegationSums (fun _ => True) (fun p => tx.toAddress.eq address >>= fun isTo =>
      if isTo then delegatedTo info undelegateValue p else .ok p) :=
    Shifts.lift (fun isTo => Shifts.ite (shifts_delegatedTo info undelegateValue) shifts_unchanged)
  have hfrom : Shifts delegationSums (fun _ => True) (fun p =>
      if isFrom then delegates info undelegateValue p else .ok p) :=
    Shifts.ite (shifts_delegates info undelegateValue) shifts_unchanged
  exact shifts_then hcount (shifts_then (Shifts.ite (shifts_then hfrom hto) shifts_unchanged)
    (shifts_settle info isFrom))

/-- A change of the balance and of the part about delegations that shifts both. -/
theorem shifts_delegation {f : Delegation → Except Err Delegation}
    (h : Shifts delegationSums (fun _ => True) f) :
    Shifts sums (BalanceSums.Within · n) (fun b => (f (b.balance, b.delegated.getD default)).map
      (fun p => { b with balance := p.1, delegated := some p.2 })) := by
  obtain ⟨r, -, h⟩ := h
  refine ⟨r.map (fun x => ⟨x.1, 0, 0, 0, some x.2, none, 0, none, fun _ => none⟩), ?_, ?_⟩
  · intro x hx
    cases r with
    | error e => cases hx
    | ok y =>
        cases hx
        exact .of_none rfl n
  · intro b _
    rcases Except.map_eq_map (h (b.balance, b.delegated.getD default) trivial) with
      ⟨e, hf, rfl⟩ | ⟨p, x, hf, rfl, hp⟩
    · show ((f _).map _).map sums = _
      rw [hf]
      rfl
    · show ((f _).map _).map sums = _
      rw [hf]
      exact congrArg Except.ok (sums_delegated (congrArg Prod.fst hp) (congrArg Prod.snd hp))

theorem shifts_plusWithDelegate (tx : TransactionInfo) (address : Address)
    (undelegateValue : Option UInt64) (isOkStatus : Bool) :
    Shifts sums (BalanceSums.Within · n)
      (fun b => b.plusWithDelegate tx address undelegateValue isOkStatus) := by
  cases hinfo : tx.delegate with
  | none =>
      unfold plusWithDelegate
      rw [hinfo]
      exact Shifts.error
  | some info =>
      simp only [fun b => plusWithDelegate_eq b tx address undelegateValue isOkStatus hinfo]
      exact Shifts.lift (fun isFrom => shifts_delegation
        (shifts_delegationSteps tx info address undelegateValue isOkStatus isFrom))

/-! ## Operations on tokens -/

/-- One token whose balance shifts. -/
theorem sums_updateToken {f : TokenBalance → TokenBalance} {x : TokenSums}
    (hf : ∀ t, (f t).sums = t.sums + x) (b : BalanceInfo) (token : Blob) :
    (b.updateToken token f).sums = b.sums +
      ⟨0, 0, 0, 0, none, none, 0, none, fun k => if k = token then some x else none⟩ := by
  refine BalanceSums.ext (add_zero _).symm (add_zero _).symm (add_zero _).symm (add_zero _).symm
    Option.merge_none_right.symm Option.merge_none_right.symm (max_zero_uint64 _).symm
    Option.merge_none_right.symm (funext (fun k => ?_))
  show ((b.tokens.insert token _).find? k).map TokenBalance.sums =
    Option.merge (· + ·) ((b.tokens.find? k).map TokenBalance.sums)
      (if k = token then some x else none)
  rw [OrdMap.find?_insert]
  by_cases hk : k = token
  · rw [if_pos hk, if_pos hk, hk, Option.map_some, hf]
    cases b.tokens.find? token with
    | none => exact congrArg some (TokenBalance.sums_default_add x)
    | some t => rfl
  · rw [if_neg hk, if_neg hk, Option.merge_none_right]

theorem shifts_updateToken {f : TokenBalance → TokenBalance} {x : TokenSums}
    (hf : ∀ t, (f t).sums = t.sums + x) (token : Blob) :
    Shifts (ε := Err) sums (BalanceSums.Within · n) (fun b => .ok (b.updateToken token f)) :=
  Shifts.ok (.of_none rfl n) (fun b _ => sums_updateToken hf b token)

/-- Writing down the block of an operation on tokens. -/
theorem shifts_tokenBlockNumber : Shifts (ε := Err) sums (BalanceSums.Within · n)
    (fun b => .ok { b with tokenBlockNumber := some n }) := by
  refine Shifts.ok (x := ⟨0, 0, 0, 0, none, none, 0, some n, fun _ => none⟩) ?_ (fun b hb => ?_)
  · rintro m ⟨⟩
    exact le_refl n
  · refine BalanceSums.ext (add_zero _).symm (add_zero _).symm (add_zero _).symm (add_zero _).symm
      Option.merge_none_right.symm Option.merge_none_right.symm (max_zero_uint64 _).symm ?_
      (funext (fun _ => Option.merge_none_right.symm))
    show some n = Option.merge max b.tokenBlockNumber (some n)
    cases hm : b.tokenBlockNumber with
    | none => rfl
    | some m => exact congrArg some (max_eq_right (hb m hm)).symm

theorem addTokens_eq (b : BalanceInfo) (tx : TransactionInfo) (value : UInt64) (isOkStatus : Bool) :
    b.addTokens tx value isOkStatus =
      if !isOkStatus || tx.tokenInfo.isNone then .ok b
      else tx.toAddress.getBinaryString >>= fun token =>
        .ok (b.updateToken token (fun t =>
          { t with countOp := t.countOp + 1, countReceived := t.countReceived + 1,
                   balance := t.balance.receiveValue value })) >>= fun b =>
        .ok { b with tokenBlockNumber := some tx.blockNumber } := rfl

theorem shifts_addTokens (tx : TransactionInfo) (value : UInt64) (isOkStatus : Bool) :
    Shifts sums (BalanceSums.Within · tx.blockNumber) (fun b => b.addTokens tx value isOkStatus) := by
  have hvalue : ∀ t : TokenBalance, ({ t with
      countOp := t.countOp + 1, countReceived := t.countReceived + 1
      balance := t.balance.receiveValue value } : TokenBalance).sums = t.sums + ⟨value, 1, 1, 0⟩ :=
    fun t => by
      simp only [TokenBalance.sums, TokenSums.add_def, add_zero, BalanceElement.balance_receiveValue]
  simp only [addTokens_eq]
  exact Shifts.ite (Shifts.skip (.of_none rfl _)) (Shifts.lift (fun token =>
    Shifts.bind .add (shifts_updateToken hvalue token) shifts_tokenBlockNumber))

theorem moveTokens_eq (b : BalanceInfo) (tx : TransactionInfo) (address toAddress : Address)
    (value : UInt64) (isOkStatus : Bool) :
    b.moveTokens tx address toAddress value isOkStatus =
      if !isOkStatus || tx.tokenInfo.isNone then .ok b
      else tx.fromAddress.eq address >>= fun isFrom => tx.toAddress.getBinaryString >>= fun token =>
        (if isFrom then .ok (b.updateToken token (fun t =>
            { t with countSpent := t.countSpent + 1, balance := t.balance.spentValue value }))
          else .ok b) >>= fun b =>
        toAddress.eq address >>= fun isTo =>
        (if isTo then .ok (b.updateToken token (fun t =>
            { t with countReceived := t.countReceived + 1, balance := t.balance.receiveValue value }))
          else .ok b) >>= fun b =>
        .ok (b.updateToken token (fun t => { t with countOp := t.countOp + 1 })) >>= fun b =>
        .ok { b with tokenBlockNumber := some tx.blockNumber } := by
  unfold moveTokens
  cases !isOkStatus || tx.tokenInfo.isNone with
  | true => rfl
  | false =>
      cases tx.fromAddress.eq address with
      | error e => rfl
      | ok isFrom =>
          cases tx.toAddress.getBinaryString with
          | error e => rfl
          | ok token =>
              cases toAddress.eq address with
              | error e => cases isFrom <;> rfl
              | ok isTo => cases isFrom <;> cases isTo <;> rfl

theorem shifts_moveTokens (tx : TransactionInfo) (address toAddress : Address) (value : UInt64)
    (isOkStatus : Bool) : Shifts sums (BalanceSums.Within · tx.blockNumber)
      (fun b => b.moveTokens tx address toAddress value isOkStatus) := by
  have hspent : ∀ t : TokenBalance, ({ t with
      countSpent := t.countSpent + 1, balance := t.balance.spentValue value } :
        TokenBalance).sums = t.sums + ⟨-value, 0, 0, 1⟩ := fun t => by
    simp only [TokenBalance.sums, TokenSums.add_def, add_zero, BalanceElement.balance_spentValue,
      sub_eq_add_neg]
  have hreceived : ∀ t : TokenBalance, ({ t with
      countReceived := t.countReceived + 1, balance := t.balance.receiveValue value } :
        TokenBalance).sums = t.sums + ⟨value, 0, 1, 0⟩ := fun t => by
    simp only [TokenBalance.sums, TokenSums.add_def, add_zero, BalanceElement.balance_receiveValue]
  have hcount : ∀ t : TokenBalance, ({ t with countOp := t.countOp + 1 } : TokenBalance).sums =
      t.sums + ⟨0, 1, 0, 0⟩ := fun t => by
    simp only [TokenBalance.sums, TokenSums.add_def, add_zero]
  simp only [moveTokens_eq]
  refine Shifts.ite (Shifts.skip (.of_none rfl _)) (Shifts.lift (fun isFrom =>
    Shifts.lift (fun token => ?_)))
  refine Shifts.bind .add (Shifts.ite (shifts_updateToken hspent token)
    (Shifts.skip (.of_none rfl _))) (Shifts.lift (fun isTo => ?_))
  exact Shifts.bind .add (Shifts.ite (shifts_updateToken hreceived token)
    (Shifts.skip (.of_none rfl _))) (Shifts.bind .add (shifts_updateToken hcount token)
      shifts_tokenBlockNumber)

end BalanceInfo

/-! ## All four -/

/-- A call of one of the four. -/
inductive BalanceOp where
  | plusWithoutDelegate (tx : TransactionInfo) (address : Address) (changeBalance isForging : Bool)
  | plusWithDelegate (tx : TransactionInfo) (address : Address) (undelegateValue : Option UInt64)
      (isOkStatus : Bool)
  | addTokens (tx : TransactionInfo) (value : UInt64) (isOkStatus : Bool)
  | moveTokens (tx : TransactionInfo) (address toAddress : Address) (value : UInt64)
      (isOkStatus : Bool)

namespace BalanceOp

/-- The transaction that an update is for. -/
def tx : BalanceOp → TransactionInfo
  | .plusWithoutDelegate tx _ _ _ => tx
  | .plusWithDelegate tx _ _ _ => tx
  | .addTokens tx _ _ => tx
  | .moveTokens tx _ _ _ _ => tx

end BalanceOp

namespace BalanceInfo

/-- What an update makes of a balance. -/
def apply (b : BalanceInfo) : BalanceOp → Except Err BalanceInfo
  | .plusWithoutDelegate tx address changeBalance isForging =>
    b.plusWithoutDelegate tx address changeBalance isForging
  | .plusWithDelegate tx address undelegateValue isOkStatus =>
    b.plusWithDelegate tx address undelegateValue isOkStatus
  | .addTokens tx value isOkStatus => b.addTokens tx value isOkStatus
  | .moveTokens tx address toAddress value isOkStatus =>
    b.moveTokens tx address toAddress value isOkStatus

/-- **Every operation shifts the sums**, or throws whatever the balance. -/
theorem shifts_apply : ∀ op : BalanceOp,
    Shifts sums (BalanceSums.Within · op.tx.blockNumber) (fun b => b.apply op)
  | .plusWithoutDelegate tx address changeBalance isForging =>
    shifts_plusWithoutDelegate tx address changeBalance isForging
  | .plusWithDelegate tx address undelegateValue isOkStatus =>
    shifts_plusWithDelegate tx address undelegateValue isOkStatus
  | .addTokens tx value isOkStatus => shifts_addTokens tx value isOkStatus
  | .moveTokens tx address toAddress value isOkStatus =>
    shifts_moveTokens tx address toAddress value isOkStatus

/-- Balances, their operations and `operator+`. -/
def fold : BlockFold Err BalanceInfo BalanceSums BalanceOp UInt64 where
  op := apply
  empty := default
  merge := add
  obs := sums
  rank op := op.tx.blockNumber
  Within := BalanceSums.Within
  obs_empty := sums_default
  obs_merge := sums_add
  shifts_op := shifts_apply
  within_zero n := .of_none rfl n
  within_add := .add
  within_mono := .mono

end BalanceInfo

end TorrentNode
