import TorrentNode.Workers.Accounts

/-!
# The record of a token and its holders

What there is of a token is written down twice: in its record and, piece by piece, in
the balances of those who hold it. The record is read from the database only, so it
misses all but one of the operations in a block; as long as no block has two of them,
both say the same.
-/

namespace TorrentNode

namespace WorkerMain

open Effect

/-! ## What the operations of a block mint -/

/-- What an operation adds to the tokens there are, in all. -/
def net (info : TokenInfo) : Int := minted info - burned info

theorem sum_net (ops : List TokenInfo) :
    (ops.map net).sum = (ops.map minted).sum - (ops.map burned).sum := by
  induction ops with
  | nil => rfl
  | cons info ops ih =>
      simp only [List.map_cons, List.sum_cons, ih, net]
      omega

/-- The operation of one transaction on a token, if it has one. -/
def operationOf (name : Blob) (tx : TransactionInfo) : List TokenInfo :=
  if tokens.cell tx = some name then (tokenOperation tx).toList else []

theorem operationsOn_eq (name : Blob) (bi : BlockInfo) :
    operationsOn name bi = (blockTxs bi).flatMap (operationOf name) := by
  unfold operationsOn
  induction blockTxs bi with
  | nil => rfl
  | cons tx txs ih =>
      rw [List.flatMap_cons, ← ih, List.filter_cons]
      unfold operationOf
      by_cases hcell : tokens.cell tx = some name
      · rw [if_pos (by simpa using hcell), if_pos hcell, List.filterMap_cons]
        cases tokenOperation tx <;> rfl
      · rw [if_neg (by simpa using hcell), if_neg hcell, List.nil_append]

/-- The operation that a transaction counts as, and the token it is about. -/
theorem operationOf_eq (name : Blob) (tx : TransactionInfo) :
    operationOf name tx =
      if tx.toAddress.toBdString.toOption = some name then (tokenOperation tx).toList else [] := by
  have hcell : tokens.cell tx =
      (tokenOperation tx).bind (fun _ => tx.toAddress.toBdString.toOption) := rfl
  unfold operationOf
  rw [hcell]
  cases tokenOperation tx with
  | none => simp
  | some info => rfl

theorem isAbout_iff {tx : TransactionInfo} {name : Blob} :
    BalanceOp.isAbout tx name = true ↔
      tx.tokenInfo.isSome = true ∧ tx.toAddress.toBdString.toOption = some name := by
  unfold BalanceOp.isAbout Address.toBdString
  rw [Bool.and_eq_true, beq_iff_eq]

/-- **What a transaction mints** is what its operation adds, modulo `2 ^ 64`. -/
theorem minted_net (name : Blob) (tx : TransactionInfo) {a : UInt64} {x : Int}
    (h : (a.toNat : Int) = x % 2 ^ 64) :
    ((a + tx.minted name).toNat : Int) = (x + ((operationOf name tx).map net).sum) % 2 ^ 64 := by
  rw [operationOf_eq]
  unfold TransactionInfo.minted tokenOperation
  cases hfailed : tx.isIntStatusNotSuccess with
  | true => simpa using h
  | false =>
      by_cases hname : tx.toAddress.toBdString.toOption = some name
      · cases hinfo : tx.tokenInfo with
        | none => simpa [BalanceOp.isAbout, hinfo] using h
        | some info =>
            have habout : BalanceOp.isAbout tx name = true :=
              isAbout_iff.mpr ⟨by rw [hinfo]; rfl, hname⟩
            simp only [habout, hname, if_true, Bool.not_false, Bool.and_self,
              Bool.false_eq_true, if_false]
            cases info with
            | create type owner decimals value symbol name emission beginDistribution =>
                have hadd := toNat_add_emod value h
                simpa [net, minted, burned] using hadd
            | addTokens toAddress value =>
                have hadd := toNat_add_emod value h
                simpa [net, minted, burned] using hadd
            | burnTokens value =>
                have hsub := toNat_sub_emod value h
                simpa [net, minted, burned, sub_eq_add_neg] using hsub
            | _ => simpa [net, minted, burned] using h
      · have habout : BalanceOp.isAbout tx name = false := by
          rw [Bool.eq_false_iff]
          exact fun h => hname (isAbout_iff.mp h).2
        simpa [habout, hname] using h

theorem sum_minted_net (name : Blob) : ∀ {txs : List TransactionInfo} {a : UInt64} {x : Int},
    (a.toNat : Int) = x % 2 ^ 64 →
    ((a + (txs.map (fun tx => tx.minted name)).sum).toNat : Int) =
      (x + ((txs.flatMap (operationOf name)).map net).sum) % 2 ^ 64
  | [], a, x, h => by
      simpa using h
  | tx :: txs, a, x, h => by
      have hrest := @sum_minted_net name txs _ _ (minted_net name tx h)
      rw [List.map_cons, List.sum_cons, List.flatMap_cons, List.map_append, List.sum_append,
        ← add_assoc, ← add_assoc]
      exact hrest

/-! ## Runs -/

/-- The operations on a token in the blocks of a run. -/
def operationsIn (name : Blob) (rounds : List (BlockInfo × List (Option TransactionStatus))) :
    List TokenInfo :=
  rounds.flatMap (fun r => operationsOn name r.1)

theorem Ran.tracks {w : WorkerMain} {d : LevelDb} {m : MainMemory} {name : Blob}
    {rounds : List (BlockInfo × List (Option TransactionStatus))} (h : Ran w d m rounds)
    (htxs : w.modules.txs = true) (hone : ∀ r ∈ rounds, (operationsOn name r.1).length ≤ 1)
    (hcreated : CreatedOnce (operationsIn name rounds)) (hne : operationsIn name rounds ≠ []) :
    Tracks (operationsIn name rounds) (d.findToken name) := by
  have hkept : ∃ record, d.findMainBlock = .ok record ∧ (CreatedOnce (operationsIn name rounds) →
      operationsIn name rounds ≠ [] → Tracks (operationsIn name rounds) (d.findToken name)) := by
    refine h.invariant (fun bi => (operationsOn name bi).length ≤ 1)
      (H := fun d _ rounds => CreatedOnce (operationsIn name rounds) →
        operationsIn name rounds ≠ [] → Tracks (operationsIn name rounds) (d.findToken name))
      (fun _ hne => absurd rfl hne) ?_ hone
    intro d n m s rounds bi statuses ih _ hone hexec hcreated hne
    have hops : operationsIn name (rounds ++ [(bi, statuses)]) =
        operationsIn name rounds ++ operationsOn name bi := by
      unfold operationsIn
      rw [List.flatMap_append, List.flatMap_singleton]
    rw [hops] at hcreated hne ⊢
    exact tracks_block htxs ⟨m, statuses, s, hexec, rfl⟩ hone hcreated
      (ih hcreated.of_append) hne
  obtain ⟨_, _, hkept⟩ := hkept
  exact hkept hcreated hne

/-- Every transaction of a written block has its status, if only none. -/
theorem Ran.length_statuses {w : WorkerMain} {d : LevelDb} {m : MainMemory}
    {rounds : List (BlockInfo × List (Option TransactionStatus))} (h : Ran w d m rounds) :
    ∀ r ∈ rounds, (blockTxs r.1).length = r.2.length := by
  have hlen : ∃ record, d.findMainBlock = .ok record ∧
      ∀ r ∈ rounds, (blockTxs r.1).length = r.2.length := by
    refine h.invariant (fun _ => True)
      (H := fun _ _ rounds => ∀ r ∈ rounds, (blockTxs r.1).length = r.2.length)
      (fun _ hr => absurd hr List.not_mem_nil) ?_ (fun _ _ => trivial)
    intro d n m s rounds bi statuses ih _ _ hexec r hr
    rcases List.mem_append.mp hr with hr | hr
    · exact ih r hr
    · rw [List.mem_singleton.mp hr]
      obtain ⟨statuses', s₁, hcontent, hexec⟩ := exec_bind_ok.mp hexec
      obtain ⟨_, s₂, _, hexec⟩ := exec_bind_ok.mp hexec
      obtain ⟨rfl, rfl⟩ := exec_pure_ok.mp hexec
      obtain ⟨common, _, hcontent⟩ := exec_lift_bind_ok.mp hcontent
      rw [exec_update_bind] at hcontent
      obtain ⟨statuses, t, hkind, hcontent⟩ := exec_bind_ok.mp hcontent
      obtain ⟨_, _, _, hcontent⟩ := exec_bind_ok.mp hcontent
      obtain ⟨_, _, _, hcontent⟩ := exec_bind_ok.mp hcontent
      obtain ⟨_, _, _, hcontent⟩ := exec_bind_ok.mp hcontent
      obtain ⟨rfl, _⟩ := exec_pure_ok.mp hcontent
      exact WorkerMain.length_statuses (processKind_txs hkind)
  exact hlen.elim (fun _ h => h.2)

theorem sum_minted_history (name : Blob) :
    ∀ {rounds : List (BlockInfo × List (Option TransactionStatus))},
      (∀ r ∈ rounds, (blockTxs r.1).length = r.2.length) →
      (∀ r ∈ rounds, ∀ tx ∈ blockTxs r.1, tx.fromAddress.address ≠ ZERO_ADDRESS.address) →
      ((history rounds).map (fun t => (BalanceView.holding name).ofCalls t.calls)).sum =
        ((rounds.flatMap (fun r => blockTxs r.1)).map (fun tx => tx.minted name)).sum
  | [], _, _ => rfl
  | r :: rounds, hlen, hfrom => by
      have hrest := sum_minted_history name (fun r' hr' => hlen r' (List.mem_cons_of_mem _ hr'))
        (fun r' hr' => hfrom r' (List.mem_cons_of_mem _ hr'))
      have hblock := addedBy_addressTxs name r.1.header (hlen r List.mem_cons_self)
        (hfrom r List.mem_cons_self)
      have hcalls := (BalanceView.holding name).ofCalls_flatMap
        (addressTxs r.1.header (blockTxs r.1) r.2)
      unfold history at hrest ⊢
      rw [List.flatMap_cons, List.flatMap_cons, List.map_append, List.map_append, List.sum_append,
        List.sum_append, hrest, ← hblock, ← hcalls]
      rfl

/-- **The record of a token says what its holders have**: in every run, as long as no block has
two operations on the token and it was created once, in its first operation. -/
theorem token_record_is_supply {w : WorkerMain} {d : LevelDb} {m : MainMemory} {name : Blob}
    {rounds : List (BlockInfo × List (Option TransactionStatus))}
    (hbalance : w.modules.balance = true) (htxs : w.modules.txs = true) (h : Ran w d m rounds)
    (hnumbered : ∀ r ∈ rounds, NumberedTxs r.1)
    (hfrom : ∀ r ∈ rounds, ∀ tx ∈ blockTxs r.1, tx.fromAddress.address ≠ ZERO_ADDRESS.address)
    (hone : ∀ r ∈ rounds, (operationsOn name r.1).length ≤ 1)
    (hcreated : CreatedOnce (operationsIn name rounds)) (hne : operationsIn name rounds ≠ []) :
    ∃ token, d.findToken name = .ok token ∧
      HasTotal (fun holder => (storedBalance d holder).holding name) token.allValue := by
  obtain ⟨token, htoken, hfold, _⟩ := h.tracks htxs hone hcreated hne
  obtain ⟨record, _, hshows⟩ := h.showsHistory hbalance hnumbered
  refine ⟨token, htoken, ?_⟩
  have htotal := (BalanceView.holding name).hasTotal_stored hshows
  rw [sum_minted_history name h.length_statuses hfrom] at htotal
  -- both are the same number modulo 2 ^ 64
  have hsupply := @sum_minted_net name (rounds.flatMap (fun r => blockTxs r.1)) 0 0 rfl
  have hops : (rounds.flatMap (fun r => blockTxs r.1)).flatMap (operationOf name) =
      operationsIn name rounds := by
    unfold operationsIn
    rw [List.flatMap_assoc]
    exact congrArg (fun f => rounds.flatMap f) (funext (fun r => (operationsOn_eq name r.1).symm))
  rw [zero_add, zero_add, hops, sum_net, ← hfold.allValue] at hsupply
  rw [UInt64.toNat_inj.mp (Int.ofNat.inj hsupply)] at htotal
  exact htotal.congr (fun holder => (BalanceInfo.holding_sums name _).symm)

/-- A creation, 5 more, 7 less and a new owner, a block each. -/
def spreadBlocks : List BlockInfo := [1, 2, 3, 4].map (tokenBlocks spreadOperations)

theorem token_record_is_supply_four : ∃ token,
    (plainMain.delivered spreadBlocks).1.findToken plainToken = .ok token ∧
      token.allValue = 98 ∧ HasTotal (fun holder =>
        (storedBalance (plainMain.delivered spreadBlocks).1 holder).holding plainToken) 98 := by
  have hnumbered : ∀ r ∈ (plainMain.delivered spreadBlocks).2.2, ∀ tx ∈ blockTxs r.1,
      tx.blockNumber = r.1.blockNumber := by decide +kernel
  have hfrom : ∀ r ∈ (plainMain.delivered spreadBlocks).2.2, ∀ tx ∈ blockTxs r.1,
      tx.fromAddress.address ≠ ZERO_ADDRESS.address := by decide +kernel
  have hone : ∀ r ∈ (plainMain.delivered spreadBlocks).2.2,
      (operationsOn plainToken r.1).length ≤ 1 := by decide +kernel
  have hcreated : CreatedOnce (operationsIn plainToken (plainMain.delivered spreadBlocks).2.2) :=
    ⟨by decide +kernel, by decide +kernel⟩
  obtain ⟨token, htoken, htotal⟩ := token_record_is_supply (w := plainMain) rfl rfl
    (ran_delivered plainMain spreadBlocks) hnumbered hfrom hone hcreated (by decide +kernel)
  have hvalue : ((plainMain.delivered spreadBlocks).1.findToken plainToken).map
      Token.allValue = .ok 98 := by decide +kernel
  rw [htoken] at hvalue
  have hvalue : token.allValue = 98 := Except.ok.inj hvalue
  exact ⟨token, htoken, hvalue, hvalue ▸ htotal⟩

end WorkerMain

end TorrentNode
