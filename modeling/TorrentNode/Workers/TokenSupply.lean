import TorrentNode.Lib.Total
import TorrentNode.Workers.Balances
import TorrentNode.Workers.Tokens

/-!
# The supply of a token

What all addresses together hold of a token changes only when tokens are created, added
or burned. The helpers that the four kinds of operations share touch one, two or many
balances, and the balances of a transaction may well be the same: what each call adds
to its balance is summed up over the calls of the transaction.
-/

namespace TorrentNode

namespace BalanceInfo

/-- What is held of a token: what came in less what went out. -/
def holding (token : Blob) (b : BalanceInfo) : UInt64 :=
  ((b.tokens.find? token).getD default).balance.balance

theorem holding_default (token : Blob) : (default : BalanceInfo).holding token = 0 :=
  BalanceElement.balance_default

theorem holding_updateToken {f : TokenBalance → TokenBalance} {x : UInt64}
    (hf : ∀ t, (f t).balance.balance = t.balance.balance + x) (b : BalanceInfo)
    (token token' : Blob) :
    (b.updateToken token' f).holding token =
      b.holding token + if token' = token then x else 0 := by
  unfold holding updateToken
  rw [OrdMap.find?_insert]
  by_cases htoken : token' = token
  · rw [if_pos htoken.symm, if_pos htoken, Option.getD_some, hf, htoken]
  · rw [if_neg (Ne.symm htoken), if_neg htoken, add_zero]

theorem tokens_pays {tx : TransactionInfo} {changeBalance isFrom : Bool} {b b' : BalanceInfo}
    (h : pays tx changeBalance isFrom b = .ok b') : b'.tokens = b.tokens := by
  cases isFrom with
  | false =>
      cases h
      rfl
  | true =>
      cases changeBalance with
      | false =>
          rw [← Except.ok.inj h]
      | true =>
          obtain ⟨fee, _, h⟩ := bind_eq_ok.mp h
          rw [← Except.ok.inj h]

theorem tokens_takes (tx : TransactionInfo) (changeBalance isTo : Bool) (b : BalanceInfo) :
    (takes tx changeBalance isTo b).tokens = b.tokens := by
  unfold takes
  split <;> rfl

theorem tokens_reserves (tx : TransactionInfo) (isFrom : Bool) (b : BalanceInfo) :
    (reserves tx isFrom b).tokens = b.tokens := by
  unfold reserves
  split <;> rfl

theorem tokens_plusWithoutDelegate {b b' : BalanceInfo} {tx : TransactionInfo} {address : Address}
    {changeBalance isForging : Bool}
    (h : b.plusWithoutDelegate tx address changeBalance isForging = .ok b') :
    b'.tokens = b.tokens := by
  rw [plusWithoutDelegate_eq] at h
  obtain ⟨isFrom, _, h⟩ := bind_eq_ok.mp h
  obtain ⟨b₁, hpays, h⟩ := bind_eq_ok.mp h
  obtain ⟨isTo, _, h⟩ := bind_eq_ok.mp h
  have hb₁ := tokens_pays hpays
  have hrest : (reserves tx isFrom
      { takes tx changeBalance isTo b₁ with
        countTxs := (takes tx changeBalance isTo b₁).countTxs + 1 }).tokens = b.tokens := by
    rw [tokens_reserves, ← hb₁]
    exact tokens_takes tx changeBalance isTo b₁
  simp only at h
  split at h
  · cases h
    exact hrest
  · cases h
    exact hrest

theorem tokens_plusWithDelegate {b b' : BalanceInfo} {tx : TransactionInfo} {address : Address}
    {undelegateValue : Option UInt64} {isOkStatus : Bool}
    (h : b.plusWithDelegate tx address undelegateValue isOkStatus = .ok b') :
    b'.tokens = b.tokens := by
  cases hinfo : tx.delegate with
  | none =>
      unfold plusWithDelegate at h
      rw [hinfo] at h
      cases h
  | some info =>
      rw [plusWithDelegate_eq b tx address undelegateValue isOkStatus hinfo] at h
      obtain ⟨isFrom, _, h⟩ := bind_eq_ok.mp h
      obtain ⟨p, _, rfl⟩ := map_eq_ok.mp h
      rfl

end BalanceInfo

namespace BalanceOp

/-- The token that an operation of this transaction is about is this one. -/
def isAbout (tx : TransactionInfo) (token : Blob) : Bool :=
  tx.tokenInfo.isSome && tx.toAddress.getBinaryString.toOption == some token

/-- What an operation adds to what is held of a token. -/
def adds (token : Blob) : BalanceOp → UInt64
  | .addTokens tx value isOkStatus => if isOkStatus && isAbout tx token then value else 0
  | .moveTokens tx address toAddress value isOkStatus =>
    if isOkStatus && isAbout tx token then
      (if toAddress.address == address.address then value else 0) -
        (if tx.fromAddress.address == address.address then value else 0)
    else 0
  | _ => 0

end BalanceOp

theorem Address.eq_of_ok {a b : Address} {c : Bool} (h : a.eq b = .ok c) :
    c = (a.address == b.address) := by
  obtain ⟨_, h⟩ := check_bind_eq_ok.mp h
  obtain ⟨_, h⟩ := check_bind_eq_ok.mp h
  exact (Except.ok.inj h).symm

namespace BalanceInfo

/-- An operation that is skipped is about no token. -/
theorem about_of_skip {tx : TransactionInfo} {isOkStatus : Bool} (token : Blob)
    (h : (!isOkStatus || tx.tokenInfo.isNone) = true) :
    (isOkStatus && BalanceOp.isAbout tx token) = false := by
  unfold BalanceOp.isAbout
  cases isOkStatus with
  | false => rfl
  | true =>
      cases hinfo : tx.tokenInfo with
      | none => rfl
      | some info =>
          rw [hinfo] at h
          cases h

/-- One that is not skipped is about the token at the address it goes to. -/
theorem about_of_not_skip {tx : TransactionInfo} {isOkStatus : Bool} {name : Blob} (token : Blob)
    (h : (!isOkStatus || tx.tokenInfo.isNone) = false)
    (hname : tx.toAddress.getBinaryString = .ok name) :
    (isOkStatus && BalanceOp.isAbout tx token) = true ↔ name = token := by
  unfold BalanceOp.isAbout
  rw [hname]
  cases isOkStatus with
  | false => cases h
  | true =>
      cases hinfo : tx.tokenInfo with
      | none =>
          rw [hinfo] at h
          cases h
      | some info => simp [Except.toOption, Subtype.ext_iff]

theorem holding_addTokens {b b' : BalanceInfo} {tx : TransactionInfo} {value : UInt64}
    {isOkStatus : Bool} (token : Blob) (h : b.addTokens tx value isOkStatus = .ok b') :
    b'.holding token = b.holding token + (BalanceOp.addTokens tx value isOkStatus).adds token := by
  rw [addTokens_eq] at h
  show _ = _ + if isOkStatus && BalanceOp.isAbout tx token then value else 0
  cases hskip : !isOkStatus || tx.tokenInfo.isNone with
  | true =>
      rw [hskip] at h
      cases h
      rw [about_of_skip token hskip]
      exact (add_zero _).symm
  | false =>
      rw [hskip] at h
      obtain ⟨name, hname, h⟩ := bind_eq_ok.mp h
      cases h
      have hadd := holding_updateToken (f := fun t =>
        { t with countOp := t.countOp + 1, countReceived := t.countReceived + 1,
                 balance := t.balance.receiveValue value })
        (fun t => BalanceElement.balance_receiveValue t.balance value) b token name
      rw [if_congr (about_of_not_skip token hskip hname) rfl rfl]
      exact hadd

theorem holding_moveTokens {b b' : BalanceInfo} {tx : TransactionInfo}
    {address toAddress : Address} {value : UInt64} {isOkStatus : Bool} (token : Blob)
    (h : b.moveTokens tx address toAddress value isOkStatus = .ok b') :
    b'.holding token = b.holding token +
      (BalanceOp.moveTokens tx address toAddress value isOkStatus).adds token := by
  rw [moveTokens_eq] at h
  show _ = _ + if isOkStatus && BalanceOp.isAbout tx token then
    (if toAddress.address == address.address then value else 0) -
      (if tx.fromAddress.address == address.address then value else 0) else 0
  cases hskip : !isOkStatus || tx.tokenInfo.isNone with
  | true =>
      rw [hskip] at h
      cases h
      rw [about_of_skip token hskip]
      exact (add_zero _).symm
  | false =>
      rw [hskip] at h
      obtain ⟨isFrom, hfrom, h⟩ := bind_eq_ok.mp h
      obtain ⟨name, hname, h⟩ := bind_eq_ok.mp h
      obtain ⟨b₁, hb₁, h⟩ := bind_eq_ok.mp h
      obtain ⟨isTo, hto, h⟩ := bind_eq_ok.mp h
      obtain ⟨b₂, hb₂, h⟩ := bind_eq_ok.mp h
      have hfrom := Address.eq_of_ok hfrom
      have hto := Address.eq_of_ok hto
      -- The sender's side, the recipient's, and the count, which moves no token.
      have hspent : b₁.holding token =
          b.holding token + if name = token then -(if isFrom then value else 0) else 0 := by
        cases isFrom with
        | false =>
            cases hb₁
            simp
        | true =>
            cases hb₁
            simp only [if_true]
            refine holding_updateToken (fun t => ?_) b token name
            exact (BalanceElement.balance_spentValue t.balance value).trans (sub_eq_add_neg _ _)
      have hreceived : b₂.holding token =
          b₁.holding token + if name = token then (if isTo then value else 0) else 0 := by
        cases isTo with
        | false =>
            cases hb₂
            simp
        | true =>
            cases hb₂
            simp only [if_true]
            refine holding_updateToken (fun t => ?_) b₁ token name
            exact BalanceElement.balance_receiveValue t.balance value
      have hcount := holding_updateToken (x := 0) (f := fun t => { t with countOp := t.countOp + 1 })
        (fun t => by simp only [add_zero]) b₂ token name
      rw [ite_self, add_zero] at hcount
      have hb' : b'.holding token = b₂.holding token := by
        cases h
        exact hcount
      rw [if_congr (about_of_not_skip token hskip hname) rfl rfl, hb', hreceived, hspent, hfrom, hto]
      by_cases htoken : name = token
      · rw [if_pos htoken, if_pos htoken, if_pos htoken]
        abel
      · rw [if_neg htoken, if_neg htoken, if_neg htoken, add_zero]

/-- **What an operation does to a holding.** -/
theorem holding_apply {b b' : BalanceInfo} {op : BalanceOp} (token : Blob)
    (h : b.apply op = .ok b') : b'.holding token = b.holding token + op.adds token := by
  cases op with
  | plusWithoutDelegate tx address changeBalance isForging =>
      unfold holding
      rw [tokens_plusWithoutDelegate h]
      exact (add_zero _).symm
  | plusWithDelegate tx address undelegateValue isOkStatus =>
      unfold holding
      rw [tokens_plusWithDelegate h]
      exact (add_zero _).symm
  | addTokens tx value isOkStatus => exact holding_addTokens token h
  | moveTokens tx address toAddress value isOkStatus => exact holding_moveTokens token h

end BalanceInfo

namespace WorkerMain

open Effect

/-- What all addresses hold of a token. -/
def supply (balances : OrdMap Blob BalanceInfo) (token : Blob) : UInt64 :=
  balances.total (BalanceInfo.holding token)

/-- What calls add to what is held of a token. -/
def addedBy (token : Blob) (cs : List BalanceCall) : UInt64 :=
  (cs.map (fun c => c.2.adds token)).sum

theorem supply_call {m m' : OrdMap Blob BalanceInfo} {c : BalanceCall} (token : Blob)
    (h : call m c = .ok m') : supply m' token = supply m token + c.2.adds token := by
  obtain ⟨name, _, h⟩ := bind_eq_ok.mp h
  obtain ⟨b, hb, h⟩ := bind_eq_ok.mp h
  cases h
  have hold : ((m.find? name).map (BalanceInfo.holding token)).getD 0 =
      ((m.find? name).getD default).holding token := by
    cases m.find? name with
    | none => exact (BalanceInfo.holding_default token).symm
    | some b => rfl
  unfold supply
  rw [OrdMap.total_insert, hold, BalanceInfo.holding_apply token hb, add_sub_cancel_left]

/-- **Calls change the supply by the sum of what they add.** -/
theorem supply_calls (token : Blob) : ∀ {cs : List BalanceCall} {m m' : OrdMap Blob BalanceInfo},
    cs.foldlM call m = .ok m' → supply m' token = supply m token + addedBy token cs
  | [], m, m', h => by
      cases h
      exact (add_zero _).symm
  | c :: cs, m, m', h => by
      rw [List.foldlM_cons] at h
      obtain ⟨m₁, hcall, h⟩ := bind_eq_ok.mp h
      rw [supply_calls token h, supply_call token hcall, add_assoc]
      rfl

theorem addedBy_append (token : Blob) (cs ds : List BalanceCall) :
    addedBy token (cs ++ ds) = addedBy token cs + addedBy token ds := by
  unfold addedBy
  rw [List.map_append, List.sum_append]

theorem addedBy_transferCalls (token : Blob) (t : AddressTx) (address : Address) :
    addedBy token (t.transferCalls address) = 0 := by
  unfold AddressTx.transferCalls
  split
  · rfl
  · unfold AddressTx.delegateCalls
    split
    · split <;> rfl
    · rfl

/-- What is left of the value after the distribution, together with what is distributed. -/
theorem sum_rest : ∀ (distribution : List (Address × UInt64)) (value : UInt64),
    (distribution.map Prod.snd).sum + distribution.foldl (fun rest d => rest - d.2) value = value
  | [], value => zero_add value
  | d :: ds, value => by
      rw [List.map_cons, List.sum_cons, List.foldl_cons, add_assoc, sum_rest ds (value - d.2)]
      abel

end WorkerMain

namespace TransactionInfo

/-- What a transaction adds to the supply of a token. -/
def minted (tx : TransactionInfo) (token : Blob) : UInt64 :=
  if !tx.isIntStatusNotSuccess && BalanceOp.isAbout tx token then
    match tx.tokenInfo with
    | some (.create _ _ _ value _ _ _ _) => value
    | some (.addTokens _ value) => value
    | some (.burnTokens value) => -value
    | _ => 0
  else 0

end TransactionInfo

namespace WorkerMain

open Effect

/-- A creation, however it is distributed. -/
theorem addedBy_createTokenCalls (token : Blob) {t : AddressTx} {type symbol name : Blob}
    {owner : Address} {decimals : UInt32} {value : UInt64} {emission : Bool}
    {beginDistribution : List (Address × UInt64)}
    (hinfo : t.tx.tokenInfo =
      some (.create type owner decimals value symbol name emission beginDistribution)) :
    addedBy token t.createTokenCalls =
      if t.isOkStatus && BalanceOp.isAbout t.tx token then value else 0 := by
  have hadds : ∀ value : UInt64, (BalanceOp.addTokens t.tx value t.isOkStatus).adds token =
      if t.isOkStatus && BalanceOp.isAbout t.tx token then value else 0 := fun _ => rfl
  unfold AddressTx.createTokenCalls addedBy
  simp only [hinfo, List.map_append, List.map_map, List.sum_append, List.map_cons, List.map_nil,
    List.sum_cons, List.sum_nil, add_zero, hadds, Function.comp_def]
  cases t.isOkStatus && BalanceOp.isAbout t.tx token with
  | false => simp
  | true =>
      simp only [if_true]
      exact sum_rest beginDistribution value

/-- A move, also one to oneself, takes from one what it gives to the other. -/
theorem addedBy_moveTokenCalls (token : Blob) (t : AddressTx) :
    addedBy token t.moveTokenCalls = 0 := by
  unfold AddressTx.moveTokenCalls
  cases hinfo : t.tx.tokenInfo with
  | none => rfl
  | some info =>
      cases info with
      | moveTokens toAddress value =>
          have hcomm : (t.tx.fromAddress.address == toAddress.address) =
              (toAddress.address == t.tx.fromAddress.address) := BEq.comm
          unfold addedBy
          simp only [List.map_cons, List.sum_cons, BalanceOp.adds, beq_self_eq_true, if_true, hcomm]
          cases hsame : toAddress.address == t.tx.fromAddress.address with
          | true =>
              simp only [if_true, List.map_nil, List.sum_nil, sub_self, ite_self, add_zero]
          | false =>
              simp only [Bool.false_eq_true, if_false, List.map_cons, List.map_nil, List.sum_cons,
                List.sum_nil, beq_self_eq_true, if_true, hsame, sub_zero, zero_sub, add_zero]
              split
              · exact add_neg_cancel value
              · exact add_zero 0
      | _ => rfl

/-- A burn takes from the sender, who is not the address that tokens are burned to. -/
theorem addedBy_burnTokenCalls (token : Blob) {t : AddressTx} {value : UInt64}
    (hinfo : t.tx.tokenInfo = some (.burnTokens value))
    (hfrom : t.tx.fromAddress.address ≠ ZERO_ADDRESS.address) :
    addedBy token t.burnTokenCalls =
      if t.isOkStatus && BalanceOp.isAbout t.tx token then -value else 0 := by
  have hzero : (ZERO_ADDRESS.address == t.tx.fromAddress.address) = false := by
    simpa [Subtype.ext_iff] using Ne.symm hfrom
  unfold AddressTx.burnTokenCalls addedBy
  simp only [hinfo, List.map_cons, List.map_nil, List.sum_cons, List.sum_nil, add_zero,
    BalanceOp.adds, hzero, beq_self_eq_true, Bool.false_eq_true, if_true, if_false, zero_sub]

theorem addedBy_tokenCalls (token : Blob) {t : AddressTx}
    (hfrom : t.tx.fromAddress.address ≠ ZERO_ADDRESS.address) :
    addedBy token t.tokenCalls = t.tx.minted token := by
  have hok : (!t.tx.isIntStatusNotSuccess) = t.isOkStatus := rfl
  unfold AddressTx.tokenCalls TransactionInfo.minted
  rw [addedBy_append, addedBy_append, addedBy_append, addedBy_moveTokenCalls, zero_add, hok]
  cases hinfo : t.tx.tokenInfo with
  | none => simp [AddressTx.createTokenCalls, AddressTx.addTokenCalls, AddressTx.burnTokenCalls,
      hinfo, addedBy]
  | some info =>
      cases info with
      | create type owner decimals value symbol name emission beginDistribution =>
          rw [addedBy_createTokenCalls token hinfo]
          simp [AddressTx.addTokenCalls, AddressTx.burnTokenCalls, hinfo, addedBy]
      | addTokens toAddress value =>
          simp [AddressTx.createTokenCalls, AddressTx.addTokenCalls, AddressTx.burnTokenCalls,
            hinfo, addedBy, BalanceOp.adds]
      | burnTokens value =>
          rw [addedBy_burnTokenCalls token hinfo hfrom]
          simp [AddressTx.createTokenCalls, AddressTx.addTokenCalls, hinfo, addedBy]
      | _ => simp [AddressTx.createTokenCalls, AddressTx.addTokenCalls, AddressTx.burnTokenCalls,
          hinfo, addedBy]

/-- What a transaction does to the supply. -/
theorem addedBy_calls (token : Blob) {t : AddressTx}
    (hfrom : t.tx.fromAddress.address ≠ ZERO_ADDRESS.address) :
    addedBy token t.calls = t.tx.minted token := by
  unfold AddressTx.calls
  rw [addedBy_append, addedBy_append, addedBy_transferCalls, zero_add, addedBy_tokenCalls token hfrom]
  split
  · exact zero_add _
  · rw [addedBy_transferCalls, zero_add]

theorem addedBy_addressTxs (token : Blob) (header : BlockHeader) :
    ∀ {txs : List TransactionInfo} {statuses : List (Option TransactionStatus)},
      txs.length = statuses.length →
      (∀ tx ∈ txs, tx.fromAddress.address ≠ ZERO_ADDRESS.address) →
      addedBy token ((addressTxs header txs statuses).flatMap AddressTx.calls) =
        (txs.map (fun tx => tx.minted token)).sum
  | [], _, _, _ => rfl
  | tx :: txs, status :: statuses, hlen, hfrom => by
      have htx := addedBy_calls token (t := ⟨tx, status, header.isForgingBlock⟩)
        (hfrom tx List.mem_cons_self)
      have hrest := addedBy_addressTxs token header (Nat.succ.inj hlen)
        (fun tx' htx' => hfrom tx' (List.mem_cons_of_mem _ htx'))
      rw [List.map_cons, List.sum_cons, ← htx, ← hrest]
      exact addedBy_append token _ _

theorem length_statuses {w : WorkerMain} {header : BlockHeader} {n : UInt64}
    {updateCommonBalance : Bool} :
    ∀ {txs : List TransactionInfo} {statuses : List (Option TransactionStatus)} {s s' : MainState},
      (w.processTransactions header n updateCommonBalance txs).exec s = (.ok statuses, s') →
      txs.length = statuses.length
  | [], statuses, s, s', h => by
      obtain ⟨rfl, _⟩ := exec_pure_ok.mp h
      rfl
  | tx :: txs, statuses, s, s', h => by
      obtain ⟨status, t, _, h⟩ := exec_bind_ok.mp h
      obtain ⟨rest, t', htxs, h⟩ := exec_bind_ok.mp h
      obtain ⟨rfl, _⟩ := exec_pure_ok.mp h
      exact congrArg (· + 1) (length_statuses htxs)

/-- **What the transactions of a block do to the supply of a token.** -/
theorem supply_processTransactions {w : WorkerMain} {header : BlockHeader} {n : UInt64}
    {updateCommonBalance : Bool} {txs : List TransactionInfo}
    {statuses : List (Option TransactionStatus)} {s s' : MainState}
    (hon : w.modules.balance = true)
    (hfrom : ∀ tx ∈ txs, tx.fromAddress.address ≠ ZERO_ADDRESS.address)
    (h : (w.processTransactions header n updateCommonBalance txs).exec s = (.ok statuses, s'))
    (token : Blob) :
    supply s'.balances token =
      supply s.balances token + (txs.map (fun tx => tx.minted token)).sum := by
  have hcalls := supply_calls token (makes_processTransactions hon h)
  rwa [addedBy_addressTxs token header (length_statuses h) hfrom] at hcalls

/-- A creation of 100 tokens distributed to its owner and others, a move to oneself, a burn of 7
and an addition that failed. -/
def supplyTxs : List TransactionInfo :=
  [plainOperation 1 (.create ∅ (plainOwner 3) 2 100 ∅ ∅ true
      [(plainOwner 3, 10), (plainOwner 3, 10), (plainOwner 4, 95)]),
    plainOperation 1 (.moveTokens (plainOwner 1) 4), plainOperation 1 (.burnTokens 7),
    { plainOperation 1 (.addTokens (plainOwner 4) 5) with
      intStatus := some TransactionInfo.TX_STATE_WRONG_DATA }]

/-- What the worker makes of the transactions of a block. -/
def supplyRun : Except Err (List (Option TransactionStatus)) × MainState :=
  (plainMain.processTransactions default 1 false supplyTxs).exec (blockStart (startMemory default))

theorem supply_processTransactions_four :
    supplyRun.1.isOk = true ∧ supply supplyRun.2.balances plainToken = 93 := by
  have hok : supplyRun.1.isOk = true := by decide +kernel
  refine ⟨hok, ?_⟩
  rcases hr : supplyRun with ⟨r, s'⟩
  rw [hr] at hok
  cases r with
  | error e => cases hok
  | ok statuses =>
      have h := supply_processTransactions (w := plainMain) rfl (by decide +kernel) hr plainToken
      rw [h]
      decide +kernel

end WorkerMain

end TorrentNode
