import TorrentNode.Workers.Runs
import TorrentNode.Workers.Balances

/-!
# The stored balances of a run

Every block works its transactions into balances from scratch and merges these into
the stored ones, unless a stored balance is already as far as the block. Blocks that
are skipped or fail and restarts leave no balance behind. So what is stored for a name
shows what one pass over all transactions of the run shows, whatever they were grouped
into: the stored balances refine a ledger that is never cut.
-/

namespace TorrentNode

namespace WorkerMain

open Effect

/-! ## Runs with the statuses of their delegations -/

/-- What a round adds to the blocks that were written. -/
def recorded (r : Outcome (List (Option TransactionStatus))) (bi : BlockInfo) :
    List (BlockInfo × List (Option TransactionStatus)) :=
  match r with
  | .written statuses => [(bi, statuses)]
  | _ => []

/--
The databases and memories that the worker can reach from an empty database, with
the blocks it has written so far and the statuses it computed for them: rounds with
any blocks, some of which it skips or fails on, and restarts between them.
-/
inductive Ran (w : WorkerMain) :
    LevelDb → MainMemory → List (BlockInfo × List (Option TransactionStatus)) → Prop where
  | start : Ran w ∅ (startMemory default) []
  | block {d d' : LevelDb} {m m' : MainMemory}
      {rounds : List (BlockInfo × List (Option TransactionStatus))} {bi : BlockInfo}
      {r : Outcome (List (Option TransactionStatus))} : Ran w d m rounds →
      (w.on d).worker m bi = (r, d', m') → Ran w d' m' (rounds ++ recorded r bi)
  | restart {d : LevelDb} {m : MainMemory}
      {rounds : List (BlockInfo × List (Option TransactionStatus))} {record : WorkerBlockInfo} :
      Ran w d m rounds → d.findMainBlock = .ok record → Ran w d (startMemory record) rounds

/-- All transactions of the blocks, one after the other. -/
def history (rounds : List (BlockInfo × List (Option TransactionStatus))) : List AddressTx :=
  rounds.flatMap (fun r => addressTxs r.1.header (blockTxs r.1) r.2)

/-- The transactions of a block carry its number, as `SyncImpl::process` and the block sources
leave them. -/
def NumberedTxs (bi : BlockInfo) : Prop := ∀ tx ∈ blockTxs bi, tx.blockNumber = bi.blockNumber

theorem recorded_of_not_written {r : Outcome (List (Option TransactionStatus))} {bi : BlockInfo}
    (h : ∀ statuses, r ≠ .written statuses) : recorded r bi = [] := by
  cases r with
  | written statuses => exact absurd rfl (h statuses)
  | skipped => rfl
  | failed e => rfl

/-- A statement about the database, the number of the last block and the blocks written so far. -/
abbrev RunInvariant : Type :=
  LevelDb → UInt64 → List (BlockInfo × List (Option TransactionStatus)) → Prop

/-- **The induction over runs**: what the empty database has and every block keeps, that comes
after the last one, holds over the run, at the number on record. -/
theorem Ran.invariant {w : WorkerMain} {H : RunInvariant} (good : BlockInfo → Prop)
    (hempty : H ∅ 0 [])
    (hblock : ∀ {d : LevelDb} {n : UInt64} {m : MainMemory} {s : MainState}
      {rounds : List (BlockInfo × List (Option TransactionStatus))} {bi : BlockInfo}
      {statuses : List (Option TransactionStatus)}, H d n rounds → n < bi.blockNumber → good bi →
      ((w.on d).processBlock bi bi.blockNumber).exec (blockStart m) = (.ok statuses, s) →
      H (addBatch s.batch d) bi.blockNumber (rounds ++ [(bi, statuses)]))
    {d : LevelDb} {m : MainMemory} {rounds : List (BlockInfo × List (Option TransactionStatus))}
    (h : Ran w d m rounds) (hgood : ∀ r ∈ rounds, good r.1) :
    ∃ record, d.findMainBlock = .ok record ∧ H d record.blockNumber rounds := by
  induction h with
  | start => exact ⟨default, rfl, hempty⟩
  | @block d d' m m' rounds bi r _ hround ih =>
      obtain ⟨record, hrecord, hH⟩ := ih (fun r hr => hgood r (List.mem_append_left _ hr))
      rcases worker_cases hround with ⟨statuses, s, rfl, hexec, rfl, _⟩ | ⟨hnot, rfl, _⟩
      · obtain ⟨old, hold, hlt⟩ := worker_written hround
        obtain rfl := Except.ok.inj (hold.symm.trans hrecord)
        have hbi : good bi := hgood (bi, statuses)
          (List.mem_append_right _ (List.mem_singleton_self _))
        exact ⟨_, findMainBlock_processBlock hexec (w.on d).leveldb, hblock hH hlt hbi hexec⟩
      · rw [recorded_of_not_written hnot, List.append_nil]
        exact ⟨record, hrecord, hH⟩
  | restart _ _ ih => exact ih hgood

/-- The worker after these blocks were given to it, one after the other. -/
def delivered (w : WorkerMain) (blocks : List BlockInfo) :
    LevelDb × MainMemory × List (BlockInfo × List (Option TransactionStatus)) :=
  blocks.foldl (fun s bi =>
    let r := (w.on s.1).worker s.2.1 bi
    (r.2.1, r.2.2, s.2.2 ++ recorded r.1 bi)) (∅, startMemory default, [])

theorem ran_delivered (w : WorkerMain) (blocks : List BlockInfo) :
    Ran w (w.delivered blocks).1 (w.delivered blocks).2.1 (w.delivered blocks).2.2 := by
  have h : ∀ (blocks : List BlockInfo)
      (s : LevelDb × MainMemory × List (BlockInfo × List (Option TransactionStatus))),
      Ran w s.1 s.2.1 s.2.2 →
      Ran w (blocks.foldl (fun s bi =>
          let r := (w.on s.1).worker s.2.1 bi
          (r.2.1, r.2.2, s.2.2 ++ recorded r.1 bi)) s).1
        (blocks.foldl (fun s bi =>
          let r := (w.on s.1).worker s.2.1 bi
          (r.2.1, r.2.2, s.2.2 ++ recorded r.1 bi)) s).2.1
        (blocks.foldl (fun s bi =>
          let r := (w.on s.1).worker s.2.1 bi
          (r.2.1, r.2.2, s.2.2 ++ recorded r.1 bi)) s).2.2 := by
    intro blocks
    induction blocks with
    | nil => exact fun _ hs => hs
    | cons bi blocks ih => exact fun s hs => ih _ (hs.block rfl)
  exact h blocks _ Ran.start

/-! ## The records of the balances -/

/-- What the keys of balances start with. -/
def balancePrefix : Bytes := ascii BALANCE_PREFIX.toList

/-- The prefixes of what a transaction puts into the batch, delegations and tokens aside. -/
def txPrefixes : List String :=
  [TRANSACTION_PREFIX, TRANSACTION_STATUS_PREFIX, ADDRESS_TOKEN_PREFIX, ADDRESS_PREFIX,
    ADDRESS_STATUS_PREFIX]

section Spared

variable {p : Bytes} {R : MainState → MainState → Prop} [Admits p R] {w : WorkerMain} {n : UInt64}

/-- A relation that admits what transactions put into the batch holds over the transactions of a
block, whatever else the block puts there. -/
theorem keeps_onlyTransactions (p : Bytes) [Admits p R] (hp : AwayFrom txPrefixes p)
    (htoken : Apart p (ascii TOKEN_PREFIX.toList)) {header : BlockHeader} {c : Bool}
    (hdelegate : ∀ tx, Keeps R (w.getInstantDelegateStatus tx n)) :
    ∀ txs, Keeps R (w.processTransactions header n c txs)
  | [] => keeps_pure _
  | tx :: txs => by
      refine keeps_bind (keeps_bind (keeps_ite ?_ (keeps_pure _)) (fun _ =>
        keeps_bind (keeps_addCommonBalance p) (fun _ => keeps_pure _))) (fun _ =>
        keeps_bind (keeps_onlyTransactions p hp htoken hdelegate txs) (fun _ => keeps_pure _))
      exact keeps_bind (hdelegate tx) (fun _ =>
        keeps_bind (keeps_toLeveldbBoth p (hp.mono (by decide))) (fun _ =>
          keeps_bind (keeps_saveTxs p (hp.mono (by decide)) htoken) (fun _ =>
            keeps_bind (keeps_saveTokenBalances p) (fun _ => keeps_pure _))))

end Spared

theorem findBalance_eq (db : LevelDb) :
    db.findBalance = db.findNamed BALANCE_PREFIX BalanceInfo.deserialize := rfl

/-- A batch that spares the balances leaves what is found of them. -/
theorem findBalance_spares {b b' : Batch} (h : b.Spares balancePrefix b') (db : LevelDb) :
    (addBatch b' db).findBalance = (addBatch b db).findBalance := by
  rw [findBalance_eq, findBalance_eq]
  exact funext (LevelDb.findNamed_congr (by decide) (fun k hk => h.find?_addBatch db hk))

/-- What a block leaves of a stored balance. -/
def mergedInto (n : UInt64) (old : BalanceInfo) : Option BalanceInfo → BalanceInfo
  | none => old
  | some b => if old.blockNumber < n then old.add b else old

section Merge

variable {w : WorkerMain} {n : UInt64} {s s' : MainState} {e : Blob × BalanceInfo}

/-- **One balance of the block** is merged into the stored one, the others stay. -/
theorem mergeBalance_ok (h : (w.mergeBalance n e).exec s = (.ok (), s')) (db : LevelDb) :
    ∃ old, w.leveldb.findBalance e.1 = .ok old ∧
      ((addBatch s'.batch db).findBalance =
          Function.update ((addBatch s.batch db).findBalance) e.1 (.ok (old.add e.2)) ∧
        old.blockNumber < n ∨
      (addBatch s'.batch db).findBalance = (addBatch s.batch db).findBalance ∧
        ¬old.blockNumber < n) := by
  obtain ⟨old, hold, h⟩ := exec_lift_bind_ok.mp h
  refine ⟨old, hold, ?_⟩
  by_cases hlt : old.blockNumber < n
  · rw [if_pos hlt] at h
    obtain ⟨hadd, -⟩ := onBatch_ok h
    refine Or.inl ⟨?_, hlt⟩
    exact findNamed_addBatch_addNamed (by decide) db
      (fun value hvalue => BalanceInfo.deserialize_serialize hvalue) hadd
  · rw [if_neg hlt] at h
    obtain ⟨-, rfl⟩ := exec_pure_ok.mp h
    exact Or.inr ⟨rfl, hlt⟩

/-- **All balances of the block**, each under a name of its own. -/
theorem each_mergeBalance_ok (db : LevelDb) :
    ∀ {entries : List (Blob × BalanceInfo)} {s s' : MainState},
      (entries.map Prod.fst).Nodup →
      (∀ e ∈ entries, (addBatch s.batch db).findBalance e.1 = w.leveldb.findBalance e.1) →
      (each (w.mergeBalance n) entries).exec s = (.ok (), s') → ∀ name,
      (addBatch s'.batch db).findBalance name =
        ((addBatch s.batch db).findBalance name).map
          (fun old => mergedInto n old (OrdMap.lookup name entries))
  | [], s, s', _, _, h, name => by
      obtain ⟨-, rfl⟩ := exec_pure_ok.mp h
      cases (addBatch s.batch db).findBalance name <;> rfl
  | e :: entries, s, s', hnodup, hsame, h, name => by
      obtain ⟨_, t, he, hrest⟩ := exec_bind_ok.mp h
      rw [List.map_cons, List.nodup_cons] at hnodup
      obtain ⟨old, hold, hstep⟩ := mergeBalance_ok he db
      -- the merge of this entry touches no name of the others
      have hother : ∀ name, name ≠ e.1 →
          (addBatch t.batch db).findBalance name = (addBatch s.batch db).findBalance name := by
        intro name hname
        rcases hstep with ⟨hupdate, -⟩ | ⟨hkept, -⟩
        · rw [hupdate, Function.update_of_ne hname]
        · rw [hkept]
      have hrun := each_mergeBalance_ok db hnodup.2 (fun f hf => by
        have hne : f.1 ≠ e.1 := fun heq => hnodup.1 (heq ▸ List.mem_map_of_mem hf)
        rw [hother f.1 hne]
        exact hsame f (List.mem_cons_of_mem _ hf)) hrest name
      rw [hrun]
      -- The name of this entry is not among the others, which leave it alone.
      by_cases hname : name = e.1
      · subst hname
        have hnone : OrdMap.lookup e.1 entries = none :=
          OrdMap.lookup_eq_none (fun f hf heq => hnodup.1 (heq ▸ List.mem_map_of_mem hf))
        have hbefore : (addBatch s.batch db).findBalance e.1 = .ok old :=
          (hsame e List.mem_cons_self).trans hold
        have hlookup : OrdMap.lookup e.1 (e :: entries) = some e.2 := if_pos rfl
        rw [hnone, hlookup, hbefore]
        rcases hstep with ⟨hupdate, hlt⟩ | ⟨hkept, hnot⟩
        · rw [hupdate, Function.update_self]
          exact congrArg Except.ok (if_pos hlt).symm
        · rw [hkept, hbefore]
          exact congrArg Except.ok (if_neg hnot).symm
      · have hlookup : OrdMap.lookup name (e :: entries) = OrdMap.lookup name entries :=
          if_neg hname
        rw [hother name hname, hlookup]

end Merge

section Block

variable {w : WorkerMain} {n : UInt64} {bi : BlockInfo} {s s' : MainState}
  {statuses : List (Option TransactionStatus)}

theorem processKind_txs {c : Bool}
    (h : (w.processKind bi n c).exec s = (.ok statuses, s')) :
    (w.processTransactions bi.header n c (blockTxs bi)).exec s = (.ok statuses, s') := by
  unfold processKind at h
  unfold blockTxs
  split at h
  · rename_i hkind
    rw [if_pos hkind]
    exact h
  · rename_i hkind
    rw [if_neg hkind]
    split at h
    · obtain ⟨_, _, hrest⟩ := exec_lift_bind_ok.mp h
      exact hrest
    · exact h

theorem same_saveForgingSums : Keeps SameBalances (w.saveForgingSums bi n) :=
  keeps_ite (keeps_bind (keeps_lift _) (fun _ => same_onBatch)) (keeps_pure _)

/-- **What a block does to the stored balances**: it merges in what its transactions come to from
scratch. -/
theorem processBlock_balances {memory : MainMemory} (hon : w.modules.balance = true)
    (h : (w.processBlock bi n).exec (blockStart memory) = (.ok statuses, s)) :
    ∃ balances : OrdMap Blob BalanceInfo,
      ((addressTxs bi.header (blockTxs bi) statuses).flatMap AddressTx.calls).foldlM call ∅ =
        .ok balances ∧
      ∀ name, (addBatch s.batch w.leveldb).findBalance name =
        (w.leveldb.findBalance name).map (fun old => mergedInto n old (balances.find? name)) := by
  obtain ⟨statuses', s₁, hcontent, h⟩ := exec_bind_ok.mp h
  obtain ⟨_, s₂, hmain, h⟩ := exec_bind_ok.mp h
  obtain ⟨rfl, rfl⟩ := exec_pure_ok.mp h
  obtain ⟨common, _, hcontent⟩ := exec_lift_bind_ok.mp hcontent
  rw [exec_update_bind] at hcontent
  obtain ⟨statuses, t, hkind, hcontent⟩ := exec_bind_ok.mp hcontent
  obtain ⟨_, u, hforging, hcontent⟩ := exec_bind_ok.mp hcontent
  obtain ⟨_, v, hbalances, hcontent⟩ := exec_bind_ok.mp hcontent
  obtain ⟨_, v', hcommon, hcontent⟩ := exec_bind_ok.mp hcontent
  obtain ⟨rfl, rfl⟩ := exec_pure_ok.mp hcontent
  have htxs := processKind_txs hkind
  have hdelegate : Apart balancePrefix (ascii DELEGATE_PREFIX.toList) := by decide
  -- before the balances are saved the batch holds none
  have hbefore : SparesRecords balancePrefix
      { blockStart memory with commonBalance := common } u :=
    Frame.trans
      (Keeps.of_exec htxs (keeps_onlyTransactions balancePrefix (by decide) (by decide)
        (fun tx => keeps_delegateStatus hdelegate) _))
      (Keeps.of_exec hforging (keeps_saveForgingSums balancePrefix (by decide)))
  have hstart : DelegateKeys { blockStart memory with commonBalance := common } := by
    intro pair stack hfind
    cases hfind
  have hspared := findBalance_spares (hbefore hstart).batch w.leveldb
  -- and none is added after that
  have hafter : SparesRecords balancePrefix v s₂ :=
    Frame.trans (Keeps.of_exec hcommon (keeps_saveCommonBalance balancePrefix (by decide)))
      (Keeps.of_exec hmain (keeps_saveMainBlock balancePrefix (by decide)))
  have hkeys : DelegateKeys v := by
    have hsaved : SparesRecords (ascii DELEGATE_PREFIX.toList) u v :=
      Keeps.of_exec hbalances (keeps_saveBalances (ascii DELEGATE_PREFIX.toList) (by decide))
    exact (hsaved (hbefore hstart).keys).keys
  have hsame : SameBalances t u := Keeps.of_exec hforging same_saveForgingSums
  refine ⟨u.balances, ?_, fun name => ?_⟩
  · show _ = Except.ok u.balances
    rw [hsame]
    exact makes_processTransactions hon htxs
  · unfold saveBalances at hbalances
    rw [if_pos hon, exec_read_bind] at hbalances
    have hmerge := each_mergeBalance_ok w.leveldb u.balances.increasing.nodup_keys
      (fun e _ => congrFun hspared e.1) hbalances name
    rw [congrFun (findBalance_spares (hafter hkeys).batch w.leveldb) name, hmerge,
      congrFun hspared name]
    rfl

end Block

end WorkerMain

/-! ## Balances are not ahead of their block -/

namespace BalanceInfo

theorem blockNumber_pays {b b' : BalanceInfo} {tx : TransactionInfo} {changeBalance isFrom : Bool}
    {n : UInt64} (hb : b.blockNumber ≤ n) (htx : tx.blockNumber ≤ n)
    (h : pays tx changeBalance isFrom b = .ok b') : b'.blockNumber ≤ n := by
  cases isFrom with
  | false =>
      cases h
      exact hb
  | true =>
      cases changeBalance with
      | false =>
          rw [← Except.ok.inj h]
          exact max_le hb htx
      | true =>
          obtain ⟨fee, _, h⟩ := bind_eq_ok.mp h
          rw [← Except.ok.inj h]
          exact max_le hb htx

theorem blockNumber_takes {b : BalanceInfo} {tx : TransactionInfo} {changeBalance isTo : Bool}
    {n : UInt64} (hb : b.blockNumber ≤ n) (htx : tx.blockNumber ≤ n) :
    (takes tx changeBalance isTo b).blockNumber ≤ n := by
  cases isTo with
  | false => exact hb
  | true => exact max_le hb htx

theorem blockNumber_reserves (tx : TransactionInfo) (isFrom : Bool) (b : BalanceInfo) :
    (reserves tx isFrom b).blockNumber = b.blockNumber := by
  unfold reserves
  split <;> rfl

/-- An operation takes a balance no further than the block it is of. -/
theorem blockNumber_apply {b b' : BalanceInfo} {op : BalanceOp} {n : UInt64}
    (hb : b.blockNumber ≤ n) (hop : op.tx.blockNumber ≤ n) (h : b.apply op = .ok b') :
    b'.blockNumber ≤ n := by
  -- Of the four operations only the first one can raise the number.
  cases op with
  | plusWithoutDelegate tx address changeBalance isForging =>
      have h : b.plusWithoutDelegate tx address changeBalance isForging = .ok b' := h
      rw [plusWithoutDelegate_eq] at h
      obtain ⟨isFrom, _, h⟩ := bind_eq_ok.mp h
      obtain ⟨b₁, hpays, h⟩ := bind_eq_ok.mp h
      obtain ⟨isTo, _, h⟩ := bind_eq_ok.mp h
      have htakes : (takes tx changeBalance isTo b₁).blockNumber ≤ n :=
        blockNumber_takes (blockNumber_pays hb hop hpays) hop
      have hrest := (blockNumber_reserves tx isFrom
        { takes tx changeBalance isTo b₁ with
          countTxs := (takes tx changeBalance isTo b₁).countTxs + 1 }).trans_le htakes
      simp only at h
      split at h
      · cases h
        exact hrest
      · cases h
        exact hrest
  | plusWithDelegate tx address undelegateValue isOkStatus =>
      have h : b.plusWithDelegate tx address undelegateValue isOkStatus = .ok b' := h
      cases hinfo : tx.delegate with
      | none =>
          unfold plusWithDelegate at h
          rw [hinfo] at h
          cases h
      | some info =>
          rw [plusWithDelegate_eq b tx address undelegateValue isOkStatus hinfo] at h
          obtain ⟨isFrom, _, h⟩ := bind_eq_ok.mp h
          obtain ⟨p, _, rfl⟩ := map_eq_ok.mp h
          exact hb
  | addTokens tx value isOkStatus =>
      have h : b.addTokens tx value isOkStatus = .ok b' := h
      rw [addTokens_eq] at h
      split at h
      · cases h
        exact hb
      · obtain ⟨token, _, h⟩ := bind_eq_ok.mp h
        cases h
        exact hb
  | moveTokens tx address toAddress value isOkStatus =>
      have h : b.moveTokens tx address toAddress value isOkStatus = .ok b' := h
      rw [moveTokens_eq] at h
      split at h
      · cases h
        exact hb
      · obtain ⟨isFrom, _, h⟩ := bind_eq_ok.mp h
        obtain ⟨token, _, h⟩ := bind_eq_ok.mp h
        obtain ⟨b₁, hfrom, h⟩ := bind_eq_ok.mp h
        obtain ⟨isTo, _, h⟩ := bind_eq_ok.mp h
        obtain ⟨b₂, hto, h⟩ := bind_eq_ok.mp h
        have hb₁ : b₁.blockNumber = b.blockNumber := by
          split at hfrom <;> cases hfrom <;> rfl
        have hb₂ : b₂.blockNumber = b₁.blockNumber := by
          split at hto <;> cases hto <;> rfl
        cases h
        show b₂.blockNumber ≤ n
        rw [hb₂, hb₁]
        exact hb

theorem blockNumber_foldlM {n : UInt64} : ∀ {ops : List BalanceOp} {b b' : BalanceInfo},
    b.blockNumber ≤ n → (∀ op ∈ ops, op.tx.blockNumber ≤ n) →
    ops.foldlM apply b = .ok b' → b'.blockNumber ≤ n
  | [], b, b', hb, _, h => by
      cases h
      exact hb
  | op :: ops, b, b', hb, hops, h => by
      rw [List.foldlM_cons] at h
      obtain ⟨b₁, hop, h⟩ := bind_eq_ok.mp h
      exact blockNumber_foldlM (blockNumber_apply hb (hops op List.mem_cons_self) hop)
        (fun op' hop' => hops op' (List.mem_cons_of_mem _ hop')) h

end BalanceInfo

namespace WorkerMain

open Effect

/-! ## Runs -/

/-- The balance that is stored for a name, the default one where there is none. -/
def storedBalance (db : LevelDb) (name : Blob) : BalanceInfo :=
  (db.findBalance name).toOption.getD default

/-- The stored balances show what one run over these transactions shows, and are not ahead of
block `n`. -/
structure ShowsHistory (db : LevelDb) (n : UInt64) (txs : List AddressTx) : Prop where
  named : ∀ c ∈ txs.flatMap AddressTx.calls, ∃ name, c.1.toBdString = .ok name
  found : ∀ name, name ≠ ∅ → ∃ b, db.findBalance name = .ok b
  run : ∀ name, ∃ b, inOneRun name txs = .ok b ∧ (storedBalance db name).sums = b.sums
  within : ∀ name, (storedBalance db name).sums.Within n
  behind : ∀ name, (storedBalance db name).blockNumber ≤ n

/-- No operation goes to the empty name. -/
theorem opsOn_empty (cs : List BalanceCall) : opsOn ∅ cs = [] := by
  unfold opsOn
  rw [List.filter_eq_nil_iff.mpr, List.map_nil]
  intro c _ hname
  cases hb : c.1.toBdString with
  | error e =>
      rw [hb] at hname
      cases hname
  | ok b =>
      rw [hb] at hname
      have hb' : b.val = (∅ : Blob).val := by simpa [Except.toOption] using hname
      exact Address.getBinaryString_ne hb (Subtype.ext hb')

theorem storedBalance_empty (db : LevelDb) : storedBalance db ∅ = default := by
  unfold storedBalance
  rw [findBalance_eq, LevelDb.findNamed_empty (by decide)]
  rfl

theorem showsHistory_start : ShowsHistory ∅ 0 [] := by
  have hfind : ∀ name, name ≠ ∅ → LevelDb.findBalance ∅ name = .ok default := by
    intro name hname
    rw [findBalance_eq, LevelDb.findNamed_of_ne (by decide) hname]
    rfl
  have hstored : ∀ name, storedBalance ∅ name = default := by
    intro name
    by_cases hname : name = ∅
    · rw [hname]
      exact storedBalance_empty ∅
    · unfold storedBalance
      rw [hfind name hname]
      rfl
  refine ⟨fun _ hc => absurd hc List.not_mem_nil, fun name hname => ⟨_, hfind name hname⟩,
    fun name => ⟨default, rfl, ?_⟩, fun name => ?_, fun name => ?_⟩
  · rw [hstored]
  · rw [hstored]
    exact .of_none rfl 0
  · rw [hstored]
    exact le_refl _

/-- Calls that came through were for addresses with a name. -/
theorem named_of_calls : ∀ {cs : List BalanceCall} {m m' : OrdMap Blob BalanceInfo},
    cs.foldlM call m = .ok m' → ∀ c ∈ cs, ∃ name, c.1.toBdString = .ok name
  | [], _, _, _, _, hc => absurd hc List.not_mem_nil
  | c :: cs, m, m', h, c', hc' => by
      rw [List.foldlM_cons] at h
      obtain ⟨m₁, hcall, h⟩ := bind_eq_ok.mp h
      obtain ⟨name, hname, _⟩ := bind_eq_ok.mp hcall
      rcases List.mem_cons.mp hc' with rfl | hc'
      · exact ⟨name, hname⟩
      · exact named_of_calls h c' hc'

/-- The operations on a name are operations of the transactions. -/
theorem tx_of_mem_opsOn {name : Blob} {txs : List AddressTx} {op : BalanceOp}
    (h : op ∈ opsOn name (txs.flatMap AddressTx.calls)) : ∃ t ∈ txs, op.tx = t.tx := by
  obtain ⟨c, hc, rfl⟩ := List.mem_map.mp h
  obtain ⟨t, ht, hct⟩ := List.mem_flatMap.mp (List.mem_of_mem_filter hc)
  exact ⟨t, ht, tx_of_mem_calls hct⟩

theorem tx_of_mem_addressTxs {header : BlockHeader} {t : AddressTx} :
    ∀ {txs : List TransactionInfo} {statuses : List (Option TransactionStatus)},
      t ∈ addressTxs header txs statuses → t.tx ∈ txs
  | [], _, h => absurd h List.not_mem_nil
  | _ :: _, [], h => absurd h List.not_mem_nil
  | tx :: txs, status :: statuses, h => by
      rcases List.mem_cons.mp h with rfl | h
      · exact List.mem_cons_self
      · exact List.mem_cons_of_mem _ (tx_of_mem_addressTxs h)

theorem sums_mergedInto {n : UInt64} {old : BalanceInfo} (h : old.blockNumber < n)
    (found : Option BalanceInfo) :
    (mergedInto n old found).sums = old.sums + (found.getD default).sums := by
  cases found with
  | none => exact (add_zero _).symm
  | some b =>
      show BalanceInfo.sums (if old.blockNumber < n then old.add b else old) = _
      rw [if_pos h]
      exact BalanceInfo.sums_add old b

/-- **A block** shows on top of the stored balances what it shows on top of the run before. -/
theorem ShowsHistory.block {w : WorkerMain} {n : UInt64} {txs : List AddressTx} {bi : BlockInfo}
    {memory : MainMemory} {s : MainState} {statuses : List (Option TransactionStatus)}
    (h : ShowsHistory w.leveldb n txs) (hon : w.modules.balance = true)
    (hn : n < bi.blockNumber) (hnumbered : NumberedTxs bi)
    (hexec : (w.processBlock bi bi.blockNumber).exec (blockStart memory) = (.ok statuses, s)) :
    ShowsHistory (addBatch s.batch w.leveldb) bi.blockNumber
      (txs ++ addressTxs bi.header (blockTxs bi) statuses) := by
  obtain ⟨balances, hcalls, hfind⟩ := processBlock_balances hon hexec
  -- all operations of the block are of its number
  have hops : ∀ name, ∀ op ∈ opsOn name ((addressTxs bi.header (blockTxs bi) statuses).flatMap
      AddressTx.calls), op.tx.blockNumber = bi.blockNumber := by
    intro name op hop
    obtain ⟨t, ht, hop⟩ := tx_of_mem_opsOn hop
    rw [hop]
    exact hnumbered t.tx (tx_of_mem_addressTxs ht)
  have hordered : ∀ name b, b.sums.Within n → BalanceInfo.fold.Ordered b
      (opsOn name ((addressTxs bi.header (blockTxs bi) statuses).flatMap AddressTx.calls)) := by
    intro name b hb
    refine ⟨List.pairwise_of_forall_mem_list (fun op hop op' hop' => ?_), fun op hop => ?_⟩
    · show op.tx.blockNumber ≤ op'.tx.blockNumber
      rw [hops name op hop, hops name op' hop']
    · show b.sums.Within op.tx.blockNumber
      rw [hops name op hop]
      exact hb.mono hn.le
  -- what the block makes of a name from scratch, and what is stored for the name then
  have hblock : ∀ name, ∃ b, (opsOn name ((addressTxs bi.header (blockTxs bi) statuses).flatMap
      AddressTx.calls)).foldlM BalanceInfo.apply default = .ok b ∧
      b.sums.Within bi.blockNumber ∧ b.blockNumber ≤ bi.blockNumber ∧
      (storedBalance (addBatch s.batch w.leveldb) name).sums =
        (storedBalance w.leveldb name).sums + b.sums := by
    intro name
    have hrun := apply_opsOn name hcalls
    refine ⟨_, hrun, ?_, ?_, ?_⟩
    · exact BlockFold.within_foldlM (d := BalanceInfo.fold) (hordered name default (.of_none rfl n))
        (.of_none rfl _) (fun op hop => (hops name op hop).le) hrun
    · exact BalanceInfo.blockNumber_foldlM (UInt64.le_iff_toNat_le.mpr (Nat.zero_le _))
        (fun op hop => (hops name op hop).le) hrun
    · by_cases hname : name = ∅
      · subst hname
        rw [opsOn_empty] at hrun
        rw [storedBalance_empty, storedBalance_empty, ← Except.ok.inj hrun]
        exact (add_zero _).symm
      · obtain ⟨old, hold⟩ := h.found name hname
        have hbehind := h.behind name
        unfold storedBalance at hbehind ⊢
        rw [hold] at hbehind
        rw [hfind, hold]
        exact sums_mergedInto (lt_of_le_of_lt hbehind hn) _
  refine ⟨fun c hc => ?_, fun name hname => ?_, fun name => ?_, fun name => ?_, fun name => ?_⟩
  · rw [List.flatMap_append] at hc
    rcases List.mem_append.mp hc with hc | hc
    · exact h.named c hc
    · exact named_of_calls hcalls c hc
  · obtain ⟨old, hold⟩ := h.found name hname
    rw [hfind, hold]
    exact ⟨_, rfl⟩
  · obtain ⟨b, hb, _, _, hsums⟩ := hblock name
    obtain ⟨b₀, hrun₀, hsums₀⟩ := h.run name
    have hordered₀ : b₀.sums.Within n := by
      rw [← hsums₀]
      exact h.within name
    -- the operations of the block add the same from scratch and after the run
    obtain ⟨b', hrun', hsums'⟩ := BlockFold.obs_foldlM_from_empty (d := BalanceInfo.fold)
      (hordered name b₀ hordered₀) hb
    have hsums' : b'.sums = b₀.sums + b.sums := hsums'
    refine ⟨b', ?_, by rw [hsums, hsums₀, hsums']⟩
    unfold inOneRun at hrun₀ ⊢
    rw [List.foldlM_append, hrun₀]
    exact (foldlM_applyTx name).trans hrun'
  · obtain ⟨b, _, hwithin, _, hsums⟩ := hblock name
    rw [hsums]
    exact ((h.within name).mono hn.le).add hwithin
  · obtain ⟨b, _, _, hbehind, hsums⟩ := hblock name
    have hmax : (storedBalance (addBatch s.batch w.leveldb) name).blockNumber =
        max (storedBalance w.leveldb name).blockNumber b.blockNumber :=
      congrArg BalanceSums.blockNumber hsums
    rw [hmax]
    exact max_le ((h.behind name).trans hn.le) hbehind

/-- The run lemma. -/
theorem Ran.showsHistory {w : WorkerMain} {d : LevelDb} {m : MainMemory}
    {rounds : List (BlockInfo × List (Option TransactionStatus))} (h : Ran w d m rounds)
    (hon : w.modules.balance = true) (hnumbered : ∀ r ∈ rounds, NumberedTxs r.1) :
    ∃ record, d.findMainBlock = .ok record ∧
      ShowsHistory d record.blockNumber (history rounds) := by
  refine h.invariant NumberedTxs (H := fun d n rounds => ShowsHistory d n (history rounds)) showsHistory_start
    ?_ hnumbered
  intro d n m s rounds bi statuses hshows hn hgood hexec
  unfold history at hshows ⊢
  rw [List.flatMap_append, List.flatMap_singleton]
  exact ShowsHistory.block (w := w.on d) hshows hon hn hgood hexec

/-- **The stored balances refine a ledger that is never cut into blocks**: in every run, with
failing blocks and restarts anywhere, what is stored for a name shows what one pass over all its
transactions shows. -/
theorem stored_balances_refine {w : WorkerMain} {d : LevelDb} {m : MainMemory}
    {rounds : List (BlockInfo × List (Option TransactionStatus))} (hon : w.modules.balance = true)
    (h : Ran w d m rounds) (hnumbered : ∀ r ∈ rounds, NumberedTxs r.1) {name : Blob}
    (hname : name ≠ ∅) :
    ∃ b b', d.findBalance name = .ok b ∧ inOneRun name (history rounds) = .ok b' ∧
      b.sums = b'.sums := by
  obtain ⟨record, _, hshows⟩ := h.showsHistory hon hnumbered
  obtain ⟨b, hb⟩ := hshows.found name hname
  obtain ⟨b', hb', hsums⟩ := hshows.run name
  unfold storedBalance at hsums
  rw [hb] at hsums
  exact ⟨b, b', hb, hb', hsums⟩

/-- The address of a byte, 25 times. -/
def holder (byte : UInt8) : Address := Address.ofBlob (Blob.replicate 25 byte Blob.address_fits)

/-- A transaction that pays a fee of 5. -/
def payment (blockNumber value : UInt64) (fromAddress toAddress : Address) : TransactionInfo :=
  { plainDelegation with
    blockNumber, value, fromAddress, toAddress, fees := 5, sizeRawTx := 300
    hash := Blob.replicate 32 value.toUInt8 Blob.hash_fits
    filePos := ⟨0, Blob.replicate 1 97 Blob.byte_fits⟩
    intStatus := some 0, delegate := none }

/-- A forging block that pays out 100, a block that does not follow it, and one that does: a
payment of 30 and a delegation of 10. -/
def payingBlocks : List BlockInfo :=
  [{ plainChain [payment 1 100 Address.unset.setEmpty (holder 1)] 1 with
      header := { (plainChain [] 1).header with blockType := BLOCK_TYPE_FORGING } },
    { plainChain [] 2 with header := { (plainChain [] 2).header with prevHash := ∅ } },
    { plainChain [] 2 with
      txs := [payment 2 30 (holder 1) (holder 2),
        { payment 2 0 (holder 1) (holder 2) with
          delegate := some { value := 10, isDelegate := true } }] }]

theorem stored_balances_refine_two : ∃ b b',
    (plainMain.delivered payingBlocks).1.findBalance (holder 1).address = .ok b ∧
      inOneRun (holder 1).address (history (plainMain.delivered payingBlocks).2.2) = .ok b' ∧
      b.sums = b'.sums ∧ b.calcBalanceWithoutDelegate = 60 := by
  have hnumbered : ∀ r ∈ (plainMain.delivered payingBlocks).2.2, ∀ tx ∈ blockTxs r.1,
      tx.blockNumber = r.1.blockNumber := by decide +kernel
  obtain ⟨b, b', hb, hb', hsums⟩ := stored_balances_refine (w := plainMain) rfl
    (ran_delivered plainMain payingBlocks) hnumbered (show (holder 1).address ≠ ∅ by decide)
  have hworth : ((plainMain.delivered payingBlocks).1.findBalance (holder 1).address).map
      BalanceInfo.calcBalanceWithoutDelegate = .ok 60 := by decide +kernel
  rw [hb] at hworth
  exact ⟨b, b', hb, hb', hsums, Except.ok.inj hworth⟩

end WorkerMain

end TorrentNode
