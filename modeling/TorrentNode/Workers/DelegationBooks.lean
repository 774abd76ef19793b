import TorrentNode.Workers.Accounts
import TorrentNode.Workers.Delegations

/-!
# The delegations in the balances

A delegation is written down three times: as a record on the stack of its pair, in the
balance of the address that delegates and in that of the address it delegates to. Both
balances follow the statuses that the stacks give, so they come to what stands on the
stacks, as long as a transaction that delegates is one that the balances take in.
-/

namespace TorrentNode

namespace AddressTx

variable (t : AddressTx)

/-- What a transaction adds to the stack of its pair. -/
def moved : UInt64 :=
  match t.tx.delegate, t.status with
  | some info, some status =>
    if status.isSuccess then
      if info.isDelegate then info.value
      else match status.status with
        | .unDelegate value _ => -value
        | _ => 0
    else 0
  | _, _ => 0

end AddressTx

namespace WorkerMain

/-! ## The stacks -/

/-- What stands on the stack of a pair. -/
def stacked (σ : Stacks) (P : DelegatePair) : UInt64 := ((σ P).map DelegateState.value).sum

theorem sum_tail (l : List DelegateState) :
    (l.tail.map DelegateState.value).sum = (l.map DelegateState.value).sum + -(l.headD default).value := by
  cases l with
  | nil => rfl
  | cons d l =>
      simp only [List.tail_cons, List.map_cons, List.sum_cons, List.headD_cons]
      abel

theorem stacked_update (σ : Stacks) (P Q : DelegatePair) (l : List DelegateState) {x : UInt64}
    (h : (l.map DelegateState.value).sum = stacked σ P + x) :
    stacked (Function.update σ P l) Q = stacked σ Q + if P = Q then x else 0 := by
  unfold stacked at h ⊢
  by_cases hPQ : P = Q
  · subst hPQ
    rw [Function.update_self, h, if_pos rfl]
  · rw [Function.update_of_ne (Ne.symm hPQ), if_neg hPQ, add_zero]

/-- What moves the stack of a pair, if the pair has one of the full length. -/
def moves (t : AddressTx) : List (DelegatePair × UInt64) :=
  match pairOf t.tx with
  | some P => [(P, t.moved)]
  | none => []

/-- What the moves on some pairs come to. -/
def sumWhere (p : DelegatePair → Prop) [DecidablePred p] (l : List (DelegatePair × UInt64)) :
    UInt64 :=
  ((l.filter (fun e => p e.1)).map Prod.snd).sum

section SumWhere

variable (p : DelegatePair → Prop) [DecidablePred p]

theorem sumWhere_append (l l' : List (DelegatePair × UInt64)) :
    sumWhere p (l ++ l') = sumWhere p l + sumWhere p l' := by
  unfold sumWhere
  rw [List.filter_append, List.map_append, List.sum_append]

theorem sumWhere_singleton (P : DelegatePair) (x : UInt64) :
    sumWhere p [(P, x)] = if p P then x else 0 := by
  unfold sumWhere
  by_cases hP : p P <;> simp [hP]

theorem sumWhere_of_none (h : ∀ P, ¬p P) (l : List (DelegatePair × UInt64)) :
    sumWhere p l = 0 := by
  unfold sumWhere
  rw [List.filter_eq_nil_iff.mpr (fun e _ he => h e.1 (of_decide_eq_true he))]
  rfl

theorem sumWhere_flatMap : ∀ txs : List AddressTx,
    sumWhere p (txs.flatMap moves) = (txs.map (fun t => sumWhere p (moves t))).sum
  | [] => rfl
  | t :: txs => by
      rw [List.flatMap_cons, sumWhere_append, sumWhere_flatMap txs, List.map_cons, List.sum_cons]

end SumWhere

/-- **A transaction** moves the stack of its pair by its status. -/
theorem stacked_delegationStep (n : UInt64) (tx : TransactionInfo) (isForging : Bool) (σ : Stacks)
    (Q : DelegatePair) :
    stacked (delegationStep n tx σ).1 Q = stacked σ Q +
      sumWhere (· = Q) (moves ⟨tx, (delegationStep n tx σ).2, isForging⟩) := by
  unfold delegationStep moves AddressTx.moved
  cases hpair : pairOf tx with
  | none =>
      have hnone : sumWhere (· = Q) [] = 0 := rfl
      cases tx.delegate <;> simp [hnone]
  | some P =>
      simp only [sumWhere_singleton]
      cases hinfo : tx.delegate with
      | none => simp
      | some info =>
          simp only
          by_cases hdelegate : info.isDelegate = true
          · simp only [hdelegate, if_true]
            cases tx.isIntStatusNotSuccess with
            | true => simp [TransactionStatus.new]
            | false =>
                simp only [Bool.false_eq_true, if_false, if_true]
                refine stacked_update σ P Q _ ?_
                rw [List.map_cons, List.sum_cons, add_comm, if_pos hdelegate]
                rfl
          · simp only [hdelegate, Bool.false_eq_true, if_false, if_true]
            exact stacked_update σ P Q _ (sum_tail (σ P))

theorem stacked_delegationRun (header : BlockHeader) (n : UInt64) (Q : DelegatePair) :
    ∀ (txs : List TransactionInfo) (σ : Stacks), stacked (delegationRun n txs σ).1 Q =
      stacked σ Q +
        sumWhere (· = Q) ((addressTxs header txs (delegationRun n txs σ).2).flatMap moves)
  | [], σ => (add_zero _).symm
  | tx :: txs, σ => by
      have hrest := stacked_delegationRun header n Q txs (delegationStep n tx σ).1
      have hstep := stacked_delegationStep n tx header.isForgingBlock σ Q
      have htxs : addressTxs header (tx :: txs) (delegationRun n (tx :: txs) σ).2 =
          ⟨tx, (delegationStep n tx σ).2, header.isForgingBlock⟩ ::
            addressTxs header txs (delegationRun n txs (delegationStep n tx σ).1).2 := rfl
      rw [htxs, List.flatMap_cons, sumWhere_append, ← add_assoc, ← hstep, ← hrest]
      rfl

/-! ## Runs -/

/-- Blocks with the statuses that the stacks give their delegations. -/
def delegationRounds (σ : Stacks) :
    List BlockInfo → List (BlockInfo × List (Option TransactionStatus))
  | [] => []
  | bi :: blocks =>
    let r := delegationRun bi.blockNumber (blockTxs bi) σ
    (bi, r.2) :: delegationRounds r.1 blocks

theorem delegationRounds_append (bi : BlockInfo) : ∀ (blocks : List BlockInfo) (σ : Stacks),
    delegationRounds σ (blocks ++ [bi]) = delegationRounds σ blocks ++
      [(bi, (delegationRun bi.blockNumber (blockTxs bi)
        (blocks.foldl (fun σ bi => (delegationRun bi.blockNumber (blockTxs bi) σ).1) σ)).2)]
  | [], _ => rfl
  | _ :: blocks, _ => congrArg _ (delegationRounds_append bi blocks _)

theorem fst_mem_of_delegationRounds {r : BlockInfo × List (Option TransactionStatus)} :
    ∀ {blocks : List BlockInfo} {σ : Stacks}, r ∈ delegationRounds σ blocks → r.1 ∈ blocks
  | [], _, h => absurd h List.not_mem_nil
  | _ :: _, _, h => by
      rcases List.mem_cons.mp h with rfl | h
      · exact List.mem_cons_self
      · exact List.mem_cons_of_mem _ (fst_mem_of_delegationRounds h)

/-- **The statuses of a run** in which the counter does not pass zero are those of the stacks. -/
theorem Reached.ran {w : WorkerMain}
    (hon : (w.modules.balance || w.modules.txs || w.modules.addrTxs) = true) {d : LevelDb}
    {m : MainMemory} {blocks : List BlockInfo} (h : Reached w (fun n => 0 ≤ n) d m blocks)
    (hpairs : ∀ bi ∈ blocks, BlockBetweenAddresses bi) :
    Ran w d m (delegationRounds (fun _ => []) blocks) := by
  induction h with
  | start => exact Ran.start
  | @block d d' m m' blocks bi r hrun hround hcount ih =>
      have hbefore := fun bi' hbi' => hpairs bi' (List.mem_append_left _ hbi')
      have hnext := (ih hbefore).block hround
      have hkept := runHolds hon hrun hbefore
      rcases worker_cases hround with ⟨statuses, s, rfl, hexec, _, hm⟩ | ⟨hnot, _⟩
      · have hbi : BlockBetweenAddresses bi :=
          hpairs bi (List.mem_append_right _ (List.mem_singleton_self _))
        have hstatuses := (Holds.processBlock (w := w.on d) hon hkept.holds hkept.small hbi hexec
          (by omega)).2
        have hblocks : delegationRounds (fun _ => []) (blocks ++ [bi]) =
            delegationRounds (fun _ => []) blocks ++ [(bi, statuses)] := by
          rw [delegationRounds_append, hstatuses]
          rfl
        show Ran w d' m' (delegationRounds _ (blocks ++ [bi]))
        rw [hblocks]
        exact hnext
      · rw [recorded_of_not_written hnot, List.append_nil] at hnext
        rw [taken_of_not_written hnot, List.append_nil]
        exact hnext
  | restart _ hrecord _ ih => exact (ih hpairs).restart hrecord

/-- What stands on the stacks is what the transactions of the run have moved. -/
theorem stacked_rounds (Q : DelegatePair) : ∀ (blocks : List BlockInfo) (σ : Stacks),
    stacked (blocks.foldl (fun σ bi => (delegationRun bi.blockNumber (blockTxs bi) σ).1) σ) Q =
      stacked σ Q + sumWhere (· = Q) ((history (delegationRounds σ blocks)).flatMap moves)
  | [], σ => (add_zero _).symm
  | bi :: blocks, σ => by
      have hrest := stacked_rounds Q blocks (delegationRun bi.blockNumber (blockTxs bi) σ).1
      have hblock := stacked_delegationRun bi.header bi.blockNumber Q (blockTxs bi) σ
      have hhistory : history (delegationRounds σ (bi :: blocks)) =
          addressTxs bi.header (blockTxs bi)
              (delegationRun bi.blockNumber (blockTxs bi) σ).2 ++
            history (delegationRounds (delegationRun bi.blockNumber (blockTxs bi) σ).1 blocks) :=
        List.flatMap_cons
      rw [hhistory, List.flatMap_append, sumWhere_append, ← add_assoc, ← hblock]
      exact hrest

/-! ## The balances -/

/-- A transaction whose delegation, if it has one, both balances take in. -/
def IsTakenIn (tx : TransactionInfo) : Prop :=
  tx.delegate.isSome = true → (pairOf tx).isSome = true ∧ tx.isIntStatusNodeTest = false ∧
    tx.fromAddress.isInitialW = false ∧ tx.toAddress.isInitialW = false

instance (tx : TransactionInfo) : Decidable (IsTakenIn tx) := inferInstanceAs (Decidable (_ → _))

/-- A status that a delegation can get. -/
def IsStatusOf (tx : TransactionInfo) (status : Option TransactionStatus) : Prop :=
  ∀ info, tx.delegate = some info → ∃ s v, status = some s ∧ undelegateValue info s = .ok v

theorem isStatusOf_delegationStep (n : UInt64) {tx : TransactionInfo} (h : BetweenAddresses tx)
    (σ : Stacks) : IsStatusOf tx (delegationStep n tx σ).2 := by
  intro info hinfo
  obtain ⟨P, hpair⟩ := Option.isSome_iff_exists.mp (h (by rw [hinfo]; rfl))
  unfold delegationStep undelegateValue
  simp only [hinfo, hpair]
  by_cases hdelegate : info.isDelegate = true
  · rw [if_pos hdelegate]
    split <;> exact ⟨_, _, rfl, rfl⟩
  · rw [if_neg hdelegate]
    exact ⟨_, _, rfl, if_neg hdelegate⟩

theorem isStatusOf_addressTxs (header : BlockHeader) (n : UInt64) :
    ∀ {txs : List TransactionInfo} {σ : Stacks}, (∀ tx ∈ txs, BetweenAddresses tx) →
      ∀ t ∈ addressTxs header txs (delegationRun n txs σ).2, IsStatusOf t.tx t.status
  | [], _, _, _, ht => absurd ht List.not_mem_nil
  | tx :: txs, σ, h, t, ht => by
      rcases List.mem_cons.mp ht with rfl | ht
      · exact isStatusOf_delegationStep n (h tx List.mem_cons_self) σ
      · exact isStatusOf_addressTxs header n (fun tx' htx' => h tx' (List.mem_cons_of_mem _ htx'))
          t ht

theorem isStatusOf_history : ∀ {blocks : List BlockInfo} {σ : Stacks},
    (∀ bi ∈ blocks, BlockBetweenAddresses bi) →
    ∀ t ∈ history (delegationRounds σ blocks), IsStatusOf t.tx t.status
  | [], _, _, _, ht => absurd ht List.not_mem_nil
  | bi :: blocks, σ, h, t, ht => by
      have hhistory : history (delegationRounds σ (bi :: blocks)) =
          addressTxs bi.header (blockTxs bi)
              (delegationRun bi.blockNumber (blockTxs bi) σ).2 ++
            history (delegationRounds (delegationRun bi.blockNumber (blockTxs bi) σ).1 blocks) :=
        List.flatMap_cons
      rw [hhistory] at ht
      rcases List.mem_append.mp ht with ht | ht
      · exact isStatusOf_addressTxs bi.header bi.blockNumber (h bi List.mem_cons_self) t ht
      · exact isStatusOf_history (fun bi' hbi' => h bi' (List.mem_cons_of_mem _ hbi')) t ht

end WorkerMain

theorem Address.address_eq {a : Address} {b : Blob} (h : a.getBinaryString = .ok b)
    (hsize : b.size = 25) : a.address = b := by
  have hb := Except.ok.inj (check_bind_eq_ok.mp h).2
  by_cases hempty : a.address.isEmpty = true
  · rw [if_pos hempty] at hb
    rw [← hb] at hsize
    exact absurd hsize (by decide)
  · rwa [if_neg hempty] at hb

namespace BalanceView

open WorkerMain

/-- One of the accounts. -/
def account (a : Account) : BalanceView UInt64 := accounts.part (Pi.evalAddMonoidHom _ a)

theorem account_sums (a : Account) (b : BalanceInfo) : (account a).view b.sums = b.ledger a := by
  rw [← BalanceInfo.ledger_sums]
  rfl

/-- Calls for one address are for one name. -/
theorem onName_of_address {G : Type} [AddCommGroup G] (V : BalanceView G) (name : Blob) {b : Blob} :
    ∀ {cs : List BalanceCall}, (∀ c ∈ cs, c.1.toBdString = .ok b) →
      V.onName name cs = if b = name then V.ofCalls cs else 0
  | [], _ => (ite_self _).symm
  | c :: cs, h => by
      have hrest := onName_of_address V name (fun c' hc' => h c' (List.mem_cons_of_mem _ hc'))
      have hcons : V.ofCalls (c :: cs) = V.change c.2 + V.ofCalls cs := List.sum_cons
      unfold onName opsOn at hrest ⊢
      rw [List.filter_cons, h c List.mem_cons_self, hcons]
      by_cases hb : b = name
      · subst hb
        rw [if_pos rfl] at hrest ⊢
        rw [if_pos (by exact beq_self_eq_true _), List.map_cons, List.map_cons, List.sum_cons, hrest]
      · rw [if_neg hb] at hrest ⊢
        rw [if_neg (by simpa [Except.toOption, Subtype.ext_iff] using hb), hrest]

theorem onName_eq_zero {G : Type} [AddCommGroup G] (V : BalanceView G) (name : Blob)
    {cs : List BalanceCall} (h : ∀ c ∈ cs, V.change c.2 = 0) : V.onName name cs = 0 := by
  refine List.sum_eq_zero (fun x hx => ?_)
  obtain ⟨op, hop, rfl⟩ := List.mem_map.mp hx
  obtain ⟨c, hc, rfl⟩ := List.mem_map.mp hop
  exact h c (List.mem_of_mem_filter hc)

/-- The accounts that a delegation moves, at its two sides. -/
def isMoved (a : Account) (isFrom isTo : Bool) : Bool :=
  match a with
  | .delegate => isFrom
  | .delegated => isTo
  | _ => false

/-- Without a delegation only what an address has is moved. -/
theorem change_of_not_delegate {t : AddressTx} {a : Account} (ha : a ≠ .own)
    (hinfo : t.tx.delegate = none) {c : BalanceCall} (hc : c ∈ t.calls) :
    (account a).change c.2 = 0 := by
  have htransfer : ∀ address, ∀ c ∈ t.transferCalls address, (account a).change c.2 = 0 := by
    intro address c hc
    unfold AddressTx.transferCalls AddressTx.delegateCalls at hc
    simp only [hinfo] at hc
    split at hc
    · exact absurd hc List.not_mem_nil
    · rw [List.mem_singleton.mp hc]
      show BalanceInfo.transfer t.tx _ _ _ a = 0
      cases a with
      | own => exact absurd rfl ha
      | delegate => rfl
      | delegated => rfl
      | reserved =>
          unfold BalanceInfo.transfer
          rw [hinfo]
  unfold AddressTx.calls at hc
  rcases List.mem_append.mp hc with hc | hc
  · exact htransfer _ c hc
  rcases List.mem_append.mp hc with hc | hc
  · split at hc
    · exact absurd hc List.not_mem_nil
    · exact htransfer _ c hc
  · show c.2.entry a = 0
    rw [entry_of_mem_tokenCalls hc]
    rfl

section Side

variable {t : AddressTx} {a : Account} {info : DelegateInfo} {status : TransactionStatus}
  {v : Option UInt64}

theorem moved_eq (hinfo : t.tx.delegate = some info) (hstatus : t.status = some status)
    (hv : undelegateValue info status = .ok v) :
    t.moved = if status.isSuccess then
      (if info.isDelegate then info.value else -v.getD 0) else 0 := by
  unfold AddressTx.moved
  unfold undelegateValue at hv
  simp only [hinfo, hstatus]
  by_cases hdelegate : info.isDelegate = true
  · simp only [hdelegate, if_true]
  · simp only [if_neg hdelegate] at hv ⊢
    cases hkind : status.status with
    | unDelegate value hash =>
        rw [hkind] at hv
        rw [← Except.ok.inj hv]
        rfl
    | _ =>
        rw [hkind] at hv
        cases hv

/-- **One side of a delegation**: what was set aside for it is back, and what it moves is moved. -/
theorem account_transferCalls (ha : a ≠ .own) (hinfo : t.tx.delegate = some info)
    (hstatus : t.status = some status) (hv : undelegateValue info status = .ok v)
    (htest : t.tx.isIntStatusNodeTest = false) {address : Address}
    (haddress : address.isInitialW = false) :
    (account a).ofCalls (t.transferCalls address) =
      if isMoved a (t.tx.fromAddress.address == address.address)
        (t.tx.toAddress.address == address.address) then t.moved else 0 := by
  have hcalls : t.transferCalls address =
      [(address, .plusWithoutDelegate t.tx address (!t.tx.isIntStatusNoBalance) t.isForging),
        (address, .plusWithDelegate t.tx address v status.isSuccess)] := by
    unfold AddressTx.transferCalls AddressTx.delegateCalls
    simp only [hinfo, hstatus, hv, haddress, htest, Bool.or_false, Bool.false_eq_true, if_false]
  rw [hcalls, moved_eq hinfo hstatus hv]
  show BalanceInfo.transfer t.tx _ _ _ a + (BalanceOp.entry (.plusWithDelegate _ _ _ _) a + 0) = _
  unfold BalanceInfo.transfer BalanceOp.entry BalanceInfo.delegation
  simp only [hinfo, add_zero]
  cases a with
  | own => exact absurd rfl ha
  | delegate =>
      cases status.isSuccess <;> cases t.tx.fromAddress.address == address.address <;>
        simp [isMoved]
  | delegated =>
      cases status.isSuccess <;> cases t.tx.toAddress.address == address.address <;>
        simp [isMoved]
  | reserved =>
      cases info.isDelegate <;> cases t.tx.fromAddress.address == address.address <;>
        simp [isMoved]

end Side

theorem address_of_mem_transferCalls {t : AddressTx} {address : Address} {c : BalanceCall}
    (h : c ∈ t.transferCalls address) : c.1 = address := by
  unfold AddressTx.transferCalls AddressTx.delegateCalls at h
  split at h
  · exact absurd h List.not_mem_nil
  · rcases List.mem_cons.mp h with rfl | h
    · rfl
    · split at h
      · split at h
        · rw [List.mem_singleton.mp h]
        · exact absurd h List.not_mem_nil
      · exact absurd h List.not_mem_nil

/-- **What a transaction enters under a name** is what it moves on the stacks of the name. -/
theorem account_onName {t : AddressTx} {a : Account} (ha : a ≠ .own) (htaken : IsTakenIn t.tx)
    (hstatus : IsStatusOf t.tx t.status) (name : Blob) :
    (account a).onName name t.calls =
      sumWhere (fun P => isMoved a (P.keyFrom == name) (P.keyTo == name) = true) (moves t) := by
  -- Only a delegation changes these accounts.
  cases hinfo : t.tx.delegate with
  | none =>
      rw [onName_eq_zero _ name (fun c hc => change_of_not_delegate ha hinfo hc)]
      unfold moves AddressTx.moved
      cases pairOf t.tx with
      | none => rfl
      | some P =>
          simp only [hinfo, sumWhere_singleton]
          exact (ite_self _).symm
  | some info =>
      obtain ⟨hpair, htest, hfromW, htoW⟩ := htaken (by rw [hinfo]; rfl)
      obtain ⟨status, v, hst, hv⟩ := hstatus info hinfo
      obtain ⟨P, hP⟩ := Option.isSome_iff_exists.mp hpair
      obtain ⟨hfrom, hto⟩ := pairOf_eq_some hP
      have hkeyFrom := Address.address_eq hfrom P.size_from
      have hkeyTo := Address.address_eq hto P.size_to
      have htokens : (account a).onName name t.tokenCalls = 0 := by
        refine onName_eq_zero _ name (fun c hc => ?_)
        show c.2.entry a = 0
        rw [entry_of_mem_tokenCalls hc]
        rfl
      have hsideFrom := account_transferCalls ha hinfo hst hv htest hfromW
      have hsideTo := account_transferCalls ha hinfo hst hv htest htoW
      have hfromCalls : ∀ c ∈ t.transferCalls t.tx.fromAddress, c.1.toBdString = .ok P.keyFrom :=
        fun c hc => by rw [address_of_mem_transferCalls hc]; exact hfrom
      have htoCalls : ∀ c ∈ t.transferCalls t.tx.toAddress, c.1.toBdString = .ok P.keyTo :=
        fun c hc => by rw [address_of_mem_transferCalls hc]; exact hto
      have honFrom := onName_of_address (account a) name hfromCalls
      have honTo := onName_of_address (account a) name htoCalls
      rw [hkeyFrom, hkeyTo] at hsideFrom hsideTo
      -- The calls for the sender and for the recipient, and none for the tokens.
      unfold AddressTx.calls moves
      rw [onName_append, onName_append, htokens, add_zero, honFrom, hsideFrom, hkeyFrom, hkeyTo,
        hP]
      simp only [sumWhere_singleton]
      by_cases hsame : P.keyFrom = P.keyTo
      · -- to itself: one call, for both sides
        have hnone : (account a).onName name [] = 0 := rfl
        rw [if_pos (beq_iff_eq.mpr hsame), hnone, add_zero, ← hsame]
        by_cases hname : P.keyFrom = name
        · rw [if_pos hname, hname]
        · rw [if_neg hname, beq_eq_false_iff_ne.mpr hname]
          cases a <;> rfl
      · have hbeq : (P.keyFrom == P.keyTo) = false := beq_eq_false_iff_ne.mpr hsame
        have hbeq' : (P.keyTo == P.keyFrom) = false := beq_eq_false_iff_ne.mpr (Ne.symm hsame)
        simp only [hbeq, hbeq', Bool.false_eq_true, if_false]
        rw [honTo, hsideTo, hbeq]
        cases a with
        | own => exact absurd rfl ha
        | delegate => simp [isMoved, Subtype.ext_iff]
        | delegated => simp [isMoved, Subtype.ext_iff]
        | reserved => simp [isMoved]

end BalanceView

namespace WorkerMain

open BalanceView

/-! ## Both sides of the list -/

/-- What is listed as delegated from one address to the other. -/
def outstanding (db : LevelDb) (keyFrom keyTo : Blob) : UInt64 :=
  if keyFrom.size = 25 then
    match getDelegateStates db (Address.ofBlob keyFrom) with
    | .ok l => ((l.filter (fun e => e.1 = Address.ofBlob keyTo)).map (fun e => e.2.value)).sum
    | .error _ => 0
  else 0

/-- What the moves on the pair of two names come to. -/
def movedBetween (keyFrom keyTo : Blob) (l : List (DelegatePair × UInt64)) : UInt64 :=
  sumWhere (fun P => P.keyFrom = keyFrom ∧ P.keyTo = keyTo) l

theorem movedBetween_pair (P : DelegatePair) (l : List (DelegatePair × UInt64)) :
    movedBetween P.keyFrom P.keyTo l = sumWhere (· = P) l := by
  have hpair : ∀ Q : DelegatePair, Q.keyFrom = P.keyFrom ∧ Q.keyTo = P.keyTo ↔ Q = P := by
    intro Q
    cases Q
    cases P
    simp
  unfold movedBetween
  simp only [hpair]

theorem movedBetween_of_not_pair {keyFrom keyTo : Blob}
    (h : ¬(keyFrom.size = 25 ∧ keyTo.size = 25)) (l : List (DelegatePair × UInt64)) :
    movedBetween keyFrom keyTo l = 0 := by
  refine sumWhere_of_none _ ?_ l
  rintro P ⟨hfrom, hto⟩
  exact h ⟨hfrom ▸ P.size_from, hto ▸ P.size_to⟩

/-- The list of an address says what stands on its stacks. -/
theorem Holds.outstanding_eq {db : LevelDb} {n : Int} {σ : Stacks}
    {l : List (DelegatePair × UInt64)} (h : Holds db n σ)
    (hmoved : ∀ P, stacked σ P = sumWhere (· = P) l) (keyFrom keyTo : Blob) :
    outstanding db keyFrom keyTo = movedBetween keyFrom keyTo l := by
  unfold outstanding
  by_cases hfrom : keyFrom.size = 25
  · rw [if_pos hfrom]
    obtain ⟨states, hstates, hlists⟩ := h.getDelegateStates hfrom
    rw [hstates]
    simp only
    by_cases hto : keyTo.size = 25
    · have hstack := hlists.stack ⟨keyFrom, keyTo, hfrom, hto⟩ rfl
      have hvalues := congrArg (fun l => (List.map DelegateState.value l).sum) hstack
      simp only [List.map_map] at hvalues
      refine hvalues.trans ?_
      exact (hmoved ⟨keyFrom, keyTo, hfrom, hto⟩).trans (movedBetween_pair _ l).symm
    · rw [movedBetween_of_not_pair (fun hsize => hto hsize.2), List.filter_eq_nil_iff.mpr]
      · rfl
      · intro e he heq
        obtain ⟨P, _, hP⟩ := hlists.known e he
        have hkey : keyTo = P.keyTo :=
          congrArg Address.address ((of_decide_eq_true heq).symm.trans hP)
        exact hto (hkey ▸ P.size_to)
  · rw [if_neg hfrom, movedBetween_of_not_pair (fun hsize => hfrom hsize.1)]

/-- The moves from a name, sorted by the other side. -/
theorem hasTotal_movedFrom (name : Blob) (l : List (DelegatePair × UInt64)) :
    HasTotal (fun keyTo => movedBetween name keyTo l) (sumWhere (fun P => P.keyFrom = name) l) := by
  refine (HasTotal.byKey (fun e => e.1.keyTo) Prod.snd
    (l.filter (fun e => e.1.keyFrom = name))).congr (fun keyTo => ?_)
  unfold movedBetween sumWhere
  rw [List.filter_filter]
  refine congrArg (fun l => (List.map Prod.snd l).sum) (List.filter_congr (fun e _ => ?_))
  rw [← Bool.decide_and, decide_eq_decide, and_comm]

theorem hasTotal_movedTo (name : Blob) (l : List (DelegatePair × UInt64)) :
    HasTotal (fun keyFrom => movedBetween keyFrom name l) (sumWhere (fun P => P.keyTo = name) l) := by
  refine (HasTotal.byKey (fun e => e.1.keyFrom) Prod.snd
    (l.filter (fun e => e.1.keyTo = name))).congr (fun keyFrom => ?_)
  unfold movedBetween sumWhere
  rw [List.filter_filter]
  refine congrArg (fun l => (List.map Prod.snd l).sum) (List.filter_congr (fun e _ => ?_))
  rw [← Bool.decide_and, decide_eq_decide]

/-- The delegations of a block are taken in by both sides. -/
def BlockTakenIn (bi : BlockInfo) : Prop := ∀ tx ∈ blockTxs bi, IsTakenIn tx

instance (bi : BlockInfo) : Decidable (BlockTakenIn bi) :=
  inferInstanceAs (Decidable (∀ tx ∈ _, _))

theorem mem_history {t : AddressTx} :
    ∀ {rounds : List (BlockInfo × List (Option TransactionStatus))}, t ∈ history rounds →
      ∃ r ∈ rounds, t.tx ∈ blockTxs r.1 := by
  intro rounds h
  obtain ⟨r, hr, ht⟩ := List.mem_flatMap.mp h
  exact ⟨r, hr, tx_of_mem_addressTxs ht⟩

/-- **The balances say what is delegated**: in every run in which the counter does not pass zero,
an address has delegated what is listed as delegated from it, was delegated what is listed as
delegated to it, and has nothing set aside. -/
theorem balances_show_delegations {w : WorkerMain} {d : LevelDb} {m : MainMemory}
    {blocks : List BlockInfo} (hbalance : w.modules.balance = true)
    (hrun : Reached w (fun n => 0 ≤ n) d m blocks) (hnumbered : ∀ bi ∈ blocks, NumberedTxs bi)
    (htaken : ∀ bi ∈ blocks, BlockTakenIn bi) {address : Blob} (hsize : address.size = 25) :
    ∃ b, d.findBalance address = .ok b ∧
      HasTotal (fun keyTo => outstanding d address keyTo) (b.ledger .delegate) ∧
      HasTotal (fun keyFrom => outstanding d keyFrom address) (b.ledger .delegated) ∧
      b.ledger .reserved = 0 := by
  have hon : (w.modules.balance || w.modules.txs || w.modules.addrTxs) = true := by
    rw [hbalance]; rfl
  have hpairs : ∀ bi ∈ blocks, BlockBetweenAddresses bi :=
    fun bi hbi tx htx hinfo => (htaken bi hbi tx htx hinfo).1
  have hran := hrun.ran hon hpairs
  obtain ⟨record, _, hshows⟩ := hran.showsHistory hbalance
    (fun r hr => hnumbered r.1 (fst_mem_of_delegationRounds hr))
  have hholds := (runHolds hon hrun hpairs).holds
  -- the stacks and the balances come from the same moves
  have hmoved : ∀ P, stacked (stacksAfter blocks) P =
      sumWhere (· = P) ((history (delegationRounds (fun _ => []) blocks)).flatMap moves) :=
    fun P => (stacked_rounds P blocks (fun _ => [])).trans (zero_add _)
  have haccount : ∀ a : Account, a ≠ .own → (storedBalance d address).ledger a =
      sumWhere (fun P => isMoved a (P.keyFrom == address) (P.keyTo == address) = true)
        ((history (delegationRounds (fun _ => []) blocks)).flatMap moves) := by
    intro a ha
    rw [← account_sums, view_stored _ hshows, onName_flatMap, sumWhere_flatMap]
    refine congrArg List.sum (List.map_congr_left (fun t ht => ?_))
    obtain ⟨r, hr, htx⟩ := mem_history ht
    exact account_onName ha (htaken r.1 (fst_mem_of_delegationRounds hr) t.tx htx)
      (isStatusOf_history hpairs t ht) address
  obtain ⟨b, hb⟩ := hshows.found address (size_ne_empty hsize)
  have hstored : storedBalance d address = b := by
    unfold storedBalance
    rw [hb]
    rfl
  rw [hstored] at haccount
  -- Sums over the moves are sums over the stacks.
  refine ⟨b, hb, ?_, ?_, ?_⟩
  · rw [haccount .delegate (by decide)]
    simp only [isMoved, beq_iff_eq]
    exact (hasTotal_movedFrom address _).congr (fun keyTo => hholds.outstanding_eq hmoved _ keyTo)
  · rw [haccount .delegated (by decide)]
    simp only [isMoved, beq_iff_eq]
    exact (hasTotal_movedTo address _).congr (fun keyFrom => hholds.outstanding_eq hmoved keyFrom _)
  · rw [haccount .reserved (by decide)]
    exact sumWhere_of_none _ (fun _ => Bool.false_ne_true) _

/-- Two delegations in the first block, of 5 and 7, and one undelegation in the second. -/
def bookedBlocks (i : Nat) : BlockInfo :=
  { delegatingBlocks i with
    txs := (delegatingBlocks i).txs.map (fun tx => { tx with blockNumber := UInt64.ofNat i }) }

/-- The worker after the first block. -/
def bookedOne : Outcome (List (Option TransactionStatus)) × LevelDb × MainMemory :=
  (plainMain.on ∅).worker (startMemory default) (bookedBlocks 1)

/-- What the worker leaves of the second block. -/
def bookedTwo : Outcome (List (Option TransactionStatus)) × LevelDb × MainMemory :=
  (plainMain.on bookedOne.2.1).worker bookedOne.2.2 (bookedBlocks 2)

theorem Reached.written {w : WorkerMain} {ok : Int → Prop} {d : LevelDb} {m : MainMemory}
    {blocks : List BlockInfo} (h : Reached w ok d m blocks) {bi : BlockInfo}
    {x : Outcome (List (Option TransactionStatus)) × LevelDb × MainMemory}
    (hx : (w.on d).worker m bi = x) (hwritten : isWritten x.1 = true) (hok : ok x.2.2.countVal) :
    Reached w ok x.2.1 x.2.2 (blocks ++ [bi]) := by
  subst hx
  exact h.next bi hwritten hok

theorem balances_show_delegations_two : ∃ b,
    bookedTwo.2.1.findBalance plainPair.keyTo = .ok b ∧ b.ledger .delegated = 5 ∧
      HasTotal (fun keyFrom => outstanding bookedTwo.2.1 keyFrom plainPair.keyTo) 5 := by
  have hwritten : isWritten bookedOne.1 = true := by decide +kernel
  have hcount : 0 ≤ bookedOne.2.2.countVal := by decide +kernel
  have hwritten' : isWritten bookedTwo.1 = true := by decide +kernel
  have hcount' : 0 ≤ bookedTwo.2.2.countVal := by decide +kernel
  have hone : Reached plainMain (fun n => 0 ≤ n) bookedOne.2.1 bookedOne.2.2
      ([] ++ [bookedBlocks 1]) := Reached.start.written rfl hwritten hcount
  have htwo : Reached plainMain (fun n => 0 ≤ n) bookedTwo.2.1 bookedTwo.2.2
      ([] ++ [bookedBlocks 1] ++ [bookedBlocks 2]) := hone.written rfl hwritten' hcount'
  have hnumbered : ∀ bi ∈ [] ++ [bookedBlocks 1] ++ [bookedBlocks 2], ∀ tx ∈ blockTxs bi,
      tx.blockNumber = bi.blockNumber := by decide +kernel
  have htaken : ∀ bi ∈ [] ++ [bookedBlocks 1] ++ [bookedBlocks 2], BlockTakenIn bi := by
    decide +kernel
  obtain ⟨b, hb, _, htotal, _⟩ := balances_show_delegations rfl htwo hnumbered htaken
    plainPair.size_to
  have hvalue : (bookedTwo.2.1.findBalance plainPair.keyTo).map
      (fun b => b.ledger .delegated) = .ok 5 := by decide +kernel
  rw [hb] at hvalue
  have hvalue : b.ledger .delegated = 5 := Except.ok.inj hvalue
  rw [hvalue] at htotal
  exact ⟨b, hb, hvalue, htotal⟩

end WorkerMain

end TorrentNode
