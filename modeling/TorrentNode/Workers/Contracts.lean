import TorrentNode.Lib.Snapshot
import TorrentNode.Storage.Frames
import TorrentNode.Workers.Script

/-!
# Contract states over a block

What the script transactions of a block mean for the contracts, one after the
other, and how far the worker does that. The worker looks a contract up in its
batch first, but `addV8State` does not keep the states it puts there for lookups,
so every transaction of a block is given the state of the database.
-/

namespace TorrentNode

open Effect

/-- The keys of contract states. -/
def v8StatePrefix : Bytes := ascii V8_STATE_PREFIX.toList

namespace WorkerScript

/-! ## What a transaction means for its contract -/

/-- The contract a script transaction is about. -/
def contractOf (w : WorkerScript) (n : UInt64) (tx : TransactionInfo) (info : ScriptInfo) :
    Except Err Address :=
  match info.type with
  | .compile => (w.compileState n tx info).map V8State.address
  | _ => .ok tx.toAddress

/-- The state a script transaction leaves, given the one before; `none` when it fails. -/
def outcome (w : WorkerScript) (n : UInt64) (tx : TransactionInfo) (info : ScriptInfo)
    (prev : V8State) : Except Err (Option V8State) :=
  let success (s : V8State) : Option V8State := if s.errorType = .ok then some s else none
  match info.type with
  | .compile => (w.compileState n tx info).map (fun s => if prev.state.isEmpty then success s else none)
  | .run => (w.runState n prev tx info).map success
  | .pay => (w.runState n prev tx info).map success
  | .unknown => .ok none

/-- The name of the contract of a transaction and the state the database has for it. -/
def storedFor (w : WorkerScript) (n : UInt64) (tx : TransactionInfo) (info : ScriptInfo) :
    Except Err (Blob × V8State) := do
  let contract ← w.contractOf n tx info
  let name ← contract.getBinaryString
  let state ← w.leveldbV8.findV8State name
  pure (name, state)

/-- The contract a transaction works on. A contract whose stored state is of this block already, or
of a later one, is passed over. -/
def worksOn (w : WorkerScript) (n : UInt64) (tx : TransactionInfo) : Option Blob :=
  match tx.scriptInfo with
  | none => none
  | some info =>
    match w.storedFor n tx info with
    | .error _ => none
    | .ok (name, state) => if isAlreadySaved (false, state) n then none else some name

/-- The script transactions of a block as a program over the contracts by name. -/
def contracts (w : WorkerScript) (n : UInt64) :
    CellProgram TransactionInfo Blob (Except Err V8State) where
  cell tx := w.worksOn n tx
  left tx prev :=
    match tx.scriptInfo, prev with
    | some info, .ok prev =>
      match w.outcome n tx info prev with
      | .ok (some s) => some (.ok s.stored)
      | _ => none
    | _, _ => none

/-! ## What the worker does to its batch -/

/-- The contract states if the batch was written now. -/
def pending (w : WorkerScript) (b : Batch) : Blob → Except Err V8State :=
  (addBatch b w.leveldbV8).findV8State

/-- Lookups in the batch find no contract state. -/
abbrev NothingSaved (b : Batch) : Prop := b.Unsaved v8StatePrefix

variable {w : WorkerScript} {n : UInt64} {tx : TransactionInfo} {info : ScriptInfo}

theorem pending_spares {b b' : Batch} (h : b.Spares v8StatePrefix b') :
    w.pending b' = w.pending b :=
  funext (LevelDb.findNamed_congr (by decide) (fun _ hk => h.find?_addBatch w.leveldbV8 hk))

theorem pending_addV8State {b b' : Batch} {name : Blob} {state : V8State}
    (hadd : b.addV8State name state = .ok b') :
    w.pending b' = Function.update (w.pending b) name (.ok state.stored) :=
  findNamed_addBatch_addNamed (p := V8_STATE_PREFIX) (by decide) w.leveldbV8
    (fun _ hser => V8State.deserialize_serialize hser) hadd

/-- **Every lookup answers with the database.** -/
theorem findV8StateF_nothingSaved {b : Batch} (h : NothingSaved b) (address : Address) :
    w.findV8StateF b address = (do
      let name ← address.getBinaryString
      let state ← w.leveldbV8.findV8State name
      pure (false, state)) := by
  unfold findV8StateF
  congr 1
  funext name
  by_cases hn : name = ∅
  · subst hn; rfl
  · have hnone : b.findV8State name = .ok none :=
      Batch.Unsaved.findNamed (p := V8_STATE_PREFIX) (by decide) h hn
    rw [hnone]
    rfl

/-! ## Frames -/

/-- Nothing is done to contract states. -/
def SparesStates (s s' : ScriptState) : Prop := s.batchStates.Spares v8StatePrefix s'.batchStates

instance : Frame SparesStates where
  refl _ := Batch.Spares.refl _ _
  trans h h' := Batch.Spares.trans h h'

theorem keeps_onBatch {f : Batch → Except Err Batch}
    (h : ∀ b b', f b = .ok b' → b.Spares v8StatePrefix b') : Keeps SparesStates (onBatch f) := by
  refine keeps_tryUpdate ?_
  intro _ _ hs
  obtain ⟨b, hb, rfl⟩ := map_eq_ok.mp hs
  exact h _ _ hb

theorem keeps_saveDetails {contract : Address} {details lastError : Blob} :
    Keeps SparesStates (saveDetails contract details lastError) :=
  keeps_bind (keeps_lift _) (fun _ => keeps_onBatch (fun _ _ h =>
    Batch.Spares.addKey_makeKey (by decide) h))

theorem keeps_toLeveldb {address : Address} {status : TransactionStatus} :
    Keeps SparesStates (w.toLeveldb address tx status) := by
  refine keeps_bind (keeps_lift _) (fun _ => keeps_ite (keeps_pure _) ?_)
  refine keeps_bind (keeps_lift _) (fun _ => keeps_ite (keeps_tryUpdate ?_) (keeps_pure _))
  intro s _ h
  obtain ⟨_, _, rfl⟩ := map_eq_ok.mp h
  exact Batch.Spares.refl _ s.batchStates

theorem keeps_saveAddressStatuses {status : TransactionStatus} :
    Keeps SparesStates (w.saveAddressStatuses tx status) :=
  keeps_bind keeps_toLeveldb (fun _ => keeps_bind (keeps_lift _) (fun _ =>
    keeps_ite keeps_toLeveldb (keeps_pure _)))

theorem keeps_saveTransactionStatus {status : TransactionStatus} :
    Keeps SparesStates (w.saveTransactionStatus n status) := by
  refine keeps_ite (keeps_bind (keeps_update (fun _ => Batch.Spares.refl _ _))
    (fun _ => keeps_tryUpdate ?_)) (keeps_pure _)
  intro s _ h
  obtain ⟨_, _, rfl⟩ := map_eq_ok.mp h
  exact Batch.Spares.refl _ s.batchStates

theorem keeps_saveStatus {status : TransactionStatus.Kind} :
    Keeps SparesStates (w.saveStatus n tx status) :=
  keeps_bind keeps_saveAddressStatuses (fun _ => keeps_saveTransactionStatus)

/-! ## A transaction -/

/-- What a step of the worker does to the contract states. -/
inductive Leaves (s s' : ScriptState) : Option (Blob × V8State) → Prop where
  | nothing : SparesStates s s' → Leaves s s' none
  | state {name : Blob} {c : V8State} {t : ScriptState} :
      s.batchStates.addV8State name c = .ok t.batchStates → SparesStates t s' →
      Leaves s s' (some (name, c))

theorem Leaves.then_keeps {s s' s'' : ScriptState} {c : Option (Blob × V8State)}
    (h : Leaves s s' c) (hk : SparesStates s' s'') : Leaves s s'' c := by
  cases h with
  | nothing hs => exact .nothing (Frame.trans hs hk)
  | state hadd hs => exact .state hadd (Frame.trans hs hk)

theorem Leaves.nothingSaved {s s' : ScriptState} {c : Option (Blob × V8State)}
    (h : Leaves s s' c) (hn : NothingSaved s.batchStates) : NothingSaved s'.batchStates := by
  cases h with
  | nothing hs => exact hn.spares hs
  | state hadd hs => exact (hn.addNamed (p := V8_STATE_PREFIX) (by decide) hadd).spares hs

/-- The branch of a `compile` leaves the state it asked for, if the contract is new. -/
theorem processCompile_leaves {s s' : ScriptState} {r : Option TransactionStatus.Kind}
    (h : (w.processCompile n tx info).exec s = (.ok r, s')) :
    ∃ c found name, w.compileState n tx info = .ok c ∧
      w.findV8StateF s.batchStates c.address = .ok found ∧ c.address.getBinaryString = .ok name ∧
      Leaves s s' (if isAlreadySaved found n then none
        else if found.2.state.isEmpty ∧ c.errorType = .ok then some (name, c) else none) := by
  obtain ⟨c, hc, h⟩ := exec_lift_bind_ok.mp h
  obtain ⟨status, _, h⟩ := exec_lift_bind_ok.mp h
  rw [exec_read_bind] at h
  obtain ⟨found, hf, h⟩ := exec_lift_bind_ok.mp h
  obtain ⟨name, hname, _⟩ := bind_eq_ok.mp hf
  refine ⟨c, found, name, hc, hf, hname, ?_⟩
  -- A state saved in this block is left alone.
  by_cases hsaved : isAlreadySaved found n = true
  · rw [if_pos hsaved] at h ⊢
    exact .nothing (Keeps.of_exec h (keeps_pure _))
  rw [if_neg hsaved] at h ⊢
  by_cases hempty : found.2.state.isEmpty = true
  · rw [hempty] at h ⊢
    by_cases hok : c.errorType = .ok
    · rw [if_neg (by simp), if_neg (not_not.mpr hok)] at h
      rw [if_pos ⟨rfl, hok⟩]
      obtain ⟨_, t, hsave, h⟩ := exec_bind_ok.mp h
      obtain ⟨name', hname', hadd⟩ := exec_lift_bind_ok.mp hsave
      obtain rfl := Except.ok.inj (hname.symm.trans hname')
      refine .state (onBatch_ok hadd).1 (Keeps.of_exec h ?_)
      exact keeps_bind keeps_saveDetails (fun _ => keeps_bind (keeps_lift _) (fun _ =>
        keeps_bind (keeps_onBatch (fun _ _ h => Batch.Spares.addKey_makeKey (by decide) h))
          (fun _ => keeps_pure _)))
    · rw [if_neg (by simp), if_pos hok] at h
      rw [if_neg (fun hc => hok hc.2)]
      exact .nothing (Keeps.of_exec h (keeps_bind keeps_saveDetails (fun _ => keeps_pure _)))
  · rw [if_pos (by simpa using hempty)] at h
    rw [if_neg (fun hc => hempty hc.1)]
    exact .nothing (Keeps.of_exec h (keeps_bind (keeps_lift _) (fun _ =>
      keeps_bind keeps_saveDetails (fun _ => keeps_pure _))))

/-- The branch of a `run` leaves the state it asked for. -/
theorem processRun_leaves {s s' : ScriptState} {r : Option TransactionStatus.Kind}
    (h : (w.processRun n tx info).exec s = (.ok r, s')) :
    ∃ found name, w.findV8StateF s.batchStates tx.toAddress = .ok found ∧
      tx.toAddress.getBinaryString = .ok name ∧
      ((isAlreadySaved found n = true ∧ Leaves s s' none) ∨
        isAlreadySaved found n = false ∧ ∃ c, w.runState n found.2 tx info = .ok c ∧
          Leaves s s' (if c.errorType = .ok then some (name, c) else none)) := by
  unfold processRun at h
  rw [exec_read_bind] at h
  obtain ⟨found, hf, h⟩ := exec_lift_bind_ok.mp h
  obtain ⟨name, hname, _⟩ := bind_eq_ok.mp hf
  refine ⟨found, name, hf, hname, ?_⟩
  cases hsaved : isAlreadySaved found n with
  | true =>
      rw [if_pos hsaved] at h
      exact Or.inl ⟨rfl, .nothing (Keeps.of_exec h (keeps_pure _))⟩
  | false =>
      rw [if_neg (by rw [hsaved]; simp)] at h
      obtain ⟨c, hc, h⟩ := exec_lift_bind_ok.mp h
      obtain ⟨status, _, h⟩ := exec_lift_bind_ok.mp h
      refine Or.inr ⟨rfl, c, hc, ?_⟩
      by_cases hok : c.errorType = .ok
      · rw [if_neg (not_not.mpr hok)] at h
        rw [if_pos hok]
        obtain ⟨_, t, hsave, h⟩ := exec_bind_ok.mp h
        obtain ⟨name', hname', hadd⟩ := exec_lift_bind_ok.mp hsave
        obtain rfl := Except.ok.inj (hname.symm.trans hname')
        refine .state (onBatch_ok hadd).1 (Keeps.of_exec h ?_)
        exact keeps_bind keeps_saveDetails (fun _ => keeps_pure _)
      · rw [if_pos hok] at h
        rw [if_neg hok]
        exact .nothing (Keeps.of_exec h (keeps_bind keeps_saveDetails (fun _ => keeps_pure _)))

/-- The branch of an `unknown` script leaves no state. -/
theorem processUnknown_leaves {s s' : ScriptState} {r : Option TransactionStatus.Kind}
    (h : (w.processUnknown n tx).exec s = (.ok r, s')) :
    ∃ found, w.findV8StateF s.batchStates tx.toAddress = .ok found ∧ Leaves s s' none := by
  obtain ⟨c, hc, h⟩ := exec_lift_bind_ok.mp h
  obtain ⟨status, _, h⟩ := exec_lift_bind_ok.mp h
  rw [exec_read_bind] at h
  obtain ⟨found, hf, h⟩ := exec_lift_bind_ok.mp h
  refine ⟨found, hf, .nothing (Keeps.of_exec h ?_)⟩
  exact keeps_ite (keeps_pure _) (keeps_bind keeps_saveDetails (fun _ => keeps_pure _))

/-- The contract states after a change. -/
def changed (σ : Blob → Except Err V8State) : Option (Blob × V8State) → Blob → Except Err V8State
  | none => σ
  | some (name, c) => Function.update σ name (.ok c.stored)

theorem Leaves.pending {s s' : ScriptState} {c : Option (Blob × V8State)} (h : Leaves s s' c) :
    w.pending s'.batchStates = changed (w.pending s.batchStates) c := by
  cases h with
  | nothing hs => exact pending_spares hs
  | state hadd hs => rw [pending_spares hs, pending_addV8State hadd]; rfl

/-- What a lookup finds is what the database has. -/
theorem found_eq {b : Batch} (hn : NothingSaved b) {address : Address} {found : Bool × V8State}
    {name : Blob} (hname : address.getBinaryString = .ok name)
    (hf : w.findV8StateF b address = .ok found) :
    w.leveldbV8.findV8State name = .ok found.2 ∧ found = (false, found.2) := by
  rw [findV8StateF_nothingSaved hn] at hf
  obtain ⟨name', hname', hf⟩ := bind_eq_ok.mp hf
  obtain rfl := Except.ok.inj (hname.symm.trans hname')
  obtain ⟨state, hstate, hf⟩ := bind_eq_ok.mp hf
  obtain rfl := Except.ok.inj hf
  exact ⟨hstate, rfl⟩

theorem storedFor_eq {contract : Address} {name : Blob} {state : V8State}
    (hc : w.contractOf n tx info = .ok contract) (hname : contract.getBinaryString = .ok name)
    (hstate : w.leveldbV8.findV8State name = .ok state) :
    w.storedFor n tx info = .ok (name, state) := by
  simp only [storedFor, hc, hname, hstate, Bind.bind, Except.bind, Pure.pure, Except.pure]

/-- **A script transaction** leaves the outcome it has on the state of the database. -/
theorem processScript_leaves {s s' : ScriptState} {r : Option TransactionStatus.Kind}
    (hn : NothingSaved s.batchStates) (h : (w.processScript n tx info).exec s = (.ok r, s')) :
    ∃ name state c, w.storedFor n tx info = .ok (name, state) ∧
      (isAlreadySaved (false, state) n = false → w.outcome n tx info state = .ok c) ∧
      Leaves s s' (if isAlreadySaved (false, state) n then none else c.map (Prod.mk name)) := by
  -- a `run` and a `pay` differ in their type only
  have hrun : info.type = .run ∨ info.type = .pay →
      (w.processRun n tx info).exec s = (.ok r, s') → ∃ name state c,
      w.storedFor n tx info = .ok (name, state) ∧
      (isAlreadySaved (false, state) n = false → w.outcome n tx info state = .ok c) ∧
      Leaves s s' (if isAlreadySaved (false, state) n then none else c.map (Prod.mk name)) := by
    intro htype h
    have hcontract : w.contractOf n tx info = .ok tx.toAddress := by
      unfold contractOf
      rcases htype with ht | ht <;> rw [ht]
    have hout : ∀ prev, w.outcome n tx info prev = (w.runState n prev tx info).map
        (fun c => if c.errorType = .ok then some c else none) := by
      intro prev
      unfold outcome
      rcases htype with ht | ht <;> rw [ht]
    obtain ⟨found, name, hf, hname, hcase⟩ := processRun_leaves h
    obtain ⟨hstate, heq⟩ := found_eq hn hname hf
    rcases hcase with ⟨hsaved, hl⟩ | ⟨hsaved, c, hc, hl⟩
    · rw [heq] at hsaved
      refine ⟨name, found.2, none, storedFor_eq hcontract hname hstate, ?_, ?_⟩
      · intro hno
        rw [hsaved] at hno
        exact absurd hno (by simp)
      · rw [if_pos hsaved]
        exact hl
    · rw [heq] at hsaved
      refine ⟨name, found.2, if c.errorType = .ok then some c else none,
        storedFor_eq hcontract hname hstate, ?_, ?_⟩
      · intro _
        rw [hout, hc]
        rfl
      · rw [hsaved]
        by_cases hok : c.errorType = .ok
        · simpa [hok] using hl
        · simpa [hok] using hl
  unfold processScript at h
  -- One case for each type of a script.
  cases htype : info.type with
  | compile =>
      rw [htype] at h
      obtain ⟨c, found, name, hc, hf, hname, hl⟩ := processCompile_leaves h
      obtain ⟨hstate, heq⟩ := found_eq hn hname hf
      have hcontract : w.contractOf n tx info = .ok c.address := by
        unfold contractOf
        rw [htype, hc]
        rfl
      rw [heq] at hl
      refine ⟨name, found.2, if found.2.state.isEmpty ∧ c.errorType = .ok then some c else none,
        storedFor_eq hcontract hname hstate, ?_, ?_⟩
      · intro _
        unfold outcome
        rw [htype, hc]
        cases found.2.state.isEmpty <;> simp [Except.map]
      · by_cases hok : found.2.state.isEmpty = true ∧ c.errorType = .ok
        · rw [if_pos hok] at hl ⊢
          exact hl
        · rw [if_neg hok] at hl ⊢
          exact hl
  | run =>
      rw [htype] at h
      exact hrun (Or.inl htype) h
  | pay =>
      rw [htype] at h
      exact hrun (Or.inr htype) h
  | unknown =>
      rw [htype] at h
      obtain ⟨found, hf, hl⟩ := processUnknown_leaves h
      obtain ⟨name, hname, _⟩ := bind_eq_ok.mp hf
      obtain ⟨hstate, _⟩ := found_eq hn hname hf
      have hcontract : w.contractOf n tx info = .ok tx.toAddress := by
        unfold contractOf
        rw [htype]
      refine ⟨name, found.2, none, storedFor_eq hcontract hname hstate, ?_, ?_⟩
      · intro _
        unfold outcome
        rw [htype]
      · simpa using hl

theorem worksOn_eq {name : Blob} {state : V8State} (hinfo : tx.scriptInfo = some info)
    (hstored : w.storedFor n tx info = .ok (name, state)) :
    w.worksOn n tx = if isAlreadySaved (false, state) n then none else some name := by
  unfold worksOn
  simp only [hinfo, hstored]

/-- **A transaction** writes what it leaves when it is given the state of the database. -/
theorem processTransaction_write {s s' : ScriptState} {u : Unit} (hn : NothingSaved s.batchStates)
    (h : (w.processTransaction n tx).exec s = (.ok u, s')) :
    NothingSaved s'.batchStates ∧ w.pending s'.batchStates =
      (w.contracts n).write w.leveldbV8.findV8State (w.pending s.batchStates) tx := by
  unfold processTransaction at h
  -- A transaction without a script works on no cell.
  cases hinfo : tx.scriptInfo with
  | none =>
      simp only [hinfo] at h
      obtain ⟨_, rfl⟩ := exec_pure_ok.mp h
      refine ⟨hn, ?_⟩
      have hcell : (w.contracts n).cell tx = none := by
        show w.worksOn n tx = none
        unfold worksOn
        rw [hinfo]
      unfold CellProgram.write
      rw [hcell]
  | some info =>
      simp only [hinfo] at h
      obtain ⟨status, t, hscript, h⟩ := exec_bind_ok.mp h
      obtain ⟨name, state, c, hstored, hout, hleaves⟩ := processScript_leaves hn hscript
      have hleaves' : Leaves s s'
          (if isAlreadySaved (false, state) n then none else c.map (Prod.mk name)) := by
        refine hleaves.then_keeps ?_
        cases status with
        | none => exact Keeps.of_exec h (keeps_pure _)
        | some status => exact Keeps.of_exec h keeps_saveStatus
      refine ⟨hleaves'.nothingSaved hn, ?_⟩
      rw [hleaves'.pending]
      have hcell : (w.contracts n).cell tx = _ := worksOn_eq hinfo hstored
      obtain ⟨contract, hc, hrest⟩ := bind_eq_ok.mp hstored
      obtain ⟨name', hname, hrest⟩ := bind_eq_ok.mp hrest
      obtain ⟨state', hstate, hrest⟩ := bind_eq_ok.mp hrest
      obtain ⟨rfl, rfl⟩ := Prod.mk.inj (Except.ok.inj hrest)
      unfold CellProgram.write
      rw [hcell]
      -- The cell is written unless it was saved in this block.
      cases hsaved : isAlreadySaved (false, state') n with
      | true => rfl
      | false =>
          have hleft : (w.contracts n).left tx (w.leveldbV8.findV8State name') =
              c.map (fun st => .ok st.stored) := by
            show (match tx.scriptInfo, w.leveldbV8.findV8State name' with
              | some info, .ok prev => _
              | _, _ => _) = _
            simp only [hinfo, hstate, hout hsaved]
            cases c <;> rfl
          simp only [Bool.false_eq_true, if_false, hleft]
          cases c <;> rfl

/-- **The loop** writes what the transactions leave when all are given the states of the
database. -/
theorem each_processTransaction {txs : List TransactionInfo} {s s' : ScriptState}
    (hn : NothingSaved s.batchStates)
    (h : (each (w.processTransaction n) txs).exec s = (.ok (), s')) :
    NothingSaved s'.batchStates ∧ w.pending s'.batchStates =
      (w.contracts n).snapshotRun w.leveldbV8.findV8State (w.pending s.batchStates) txs := by
  have hstart : NothingSaved s.batchStates ∧ w.pending s.batchStates =
      (w.contracts n).snapshotRun w.leveldbV8.findV8State (w.pending s.batchStates) [] := ⟨hn, rfl⟩
  have hloop := exec_each_ok (I := fun done t => NothingSaved t.batchStates ∧
    w.pending t.batchStates =
      (w.contracts n).snapshotRun w.leveldbV8.findV8State (w.pending s.batchStates) done)
    ?_ hstart h
  · simpa using hloop
  · rintro done tx t t' ⟨hnt, hpend⟩ htx
    obtain ⟨hnt', hwrite⟩ := processTransaction_write hnt htx
    refine ⟨hnt', ?_⟩
    rw [hwrite, hpend]
    unfold CellProgram.snapshotRun
    rw [List.foldl_append, List.foldl_cons, List.foldl_nil]

/-! ## A block -/

/-- The state of the worker before the first transaction of a block. -/
def blockStart (memory : ScriptMemory) : ScriptState := { memory, batchStates := Batch.new }

/-- The transactions of a block had the effect that they have one after the other. -/
structure Sequential (w : WorkerScript) (memory : ScriptMemory) (bi : BlockInfo) (db : LevelDb) :
    Prop where
  /-- Every transaction that is not passed over was given the state left by those before it. -/
  given : ∀ {pre post : List TransactionInfo} {tx : TransactionInfo} {info : ScriptInfo}
    {contract : Address} {name : Blob} {found : Bool × V8State} {s : ScriptState},
    bi.txs = pre ++ tx :: post → tx.scriptInfo = some info →
    (each (w.processTransaction bi.blockNumber) pre).exec (blockStart memory) = (.ok (), s) →
    w.contractOf bi.blockNumber tx info = .ok contract → contract.getBinaryString = .ok name →
    w.findV8StateF s.batchStates contract = .ok found →
    isAlreadySaved found bi.blockNumber = false →
    (w.contracts bi.blockNumber).run w.leveldbV8.findV8State pre name = .ok found.2
  /-- The database has the states left by all of them. -/
  left : ∀ name, db.findV8State name =
    (w.contracts bi.blockNumber).run w.leveldbV8.findV8State bi.txs name

/-- A transaction that works on a contract is given what the database has for it. -/
theorem given_of_worksOn {b : Batch} (hn : NothingSaved b) {name : Blob}
    (h : w.worksOn n tx = some name) :
    ∃ info contract found, tx.scriptInfo = some info ∧ w.contractOf n tx info = .ok contract ∧
      contract.getBinaryString = .ok name ∧ w.findV8StateF b contract = .ok found ∧
      isAlreadySaved found n = false ∧ w.leveldbV8.findV8State name = .ok found.2 := by
  unfold worksOn at h
  cases hinfo : tx.scriptInfo with
  | none => simp [hinfo] at h
  | some info =>
      simp only [hinfo] at h
      cases hstored : w.storedFor n tx info with
      | error e => simp [hstored] at h
      | ok r =>
          obtain ⟨name', state⟩ := r
          simp only [hstored] at h
          obtain ⟨contract, hc, hrest⟩ := bind_eq_ok.mp hstored
          obtain ⟨name'', hname, hrest⟩ := bind_eq_ok.mp hrest
          obtain ⟨state', hstate, hrest⟩ := bind_eq_ok.mp hrest
          obtain ⟨rfl, rfl⟩ := Prod.mk.inj (Except.ok.inj hrest)
          cases hsaved : isAlreadySaved (false, state') n with
          | true => simp [hsaved] at h
          | false =>
              simp only [hsaved, Bool.false_eq_true, if_false] at h
              obtain rfl := Option.some.inj h
              refine ⟨info, contract, (false, state'), rfl, hc, hname, ?_, hsaved, hstate⟩
              rw [findV8StateF_nothingSaved hn]
              simp only [hname, hstate, Bind.bind, Except.bind, Pure.pure, Except.pure]

/--
**The script transactions of a block have their sequential effect exactly when
none of them works on a contract that one before it changed.**
-/
theorem work_sequential_iff {memory memory' : ScriptMemory} {bi : BlockInfo} {db : LevelDb}
    (hsimple : bi.header.isSimpleBlock = true)
    (h : w.work memory bi = (.written (), db, memory')) :
    w.Sequential memory bi db ↔
      (w.contracts bi.blockNumber).Unshared w.leveldbV8.findV8State bi.txs := by
  have hwork := guardedRound_written h
  split at hwork
  · exact absurd (Prod.mk.inj hwork).1 (by simp)
  rename_i s hexec
  obtain ⟨rfl, _⟩ := Prod.mk.inj (Prod.mk.inj hwork).2
  obtain ⟨_, t, htxs, hblock⟩ := exec_bind_ok.mp hexec
  have hloop : (each (w.processTransaction bi.blockNumber) bi.txs).exec (blockStart memory) =
      (.ok (), t) := by
    unfold processTransactions at htxs
    rwa [if_pos hsimple] at htxs
  have hnew : NothingSaved (blockStart memory).batchStates := fun _ _ => rfl
  -- the record of the block itself is no contract state
  have hpending : w.pending s.batchStates = w.pending t.batchStates :=
    pending_spares (Batch.Spares.addKey (by decide) (onBatch_ok hblock).1)
  have hsnap := (each_processTransaction hnew hloop).2
  -- The database stands still while the block runs: that every read is current is left.
  rw [← CellProgram.current_iff_unshared]
  constructor
  · intro hseq
    refine CellProgram.current_iff_forall.mpr ?_
    intro pre tx post htx name hcell
    rw [htx] at hloop
    obtain ⟨sp, hpre, _⟩ := exec_each_append_ok hloop
    have hsaved := (each_processTransaction hnew hpre).1
    obtain ⟨info, contract, found, hinfo, hc, hname, hf, hno, hstate⟩ :=
      given_of_worksOn hsaved hcell
    rw [hstate]
    exact hseq.given htx hinfo hpre hc hname hf hno
  · intro hcur
    refine ⟨?_, ?_⟩
    · intro pre post tx info contract name found sp htx hinfo hpre hc hname hf hno
      have hsaved := (each_processTransaction hnew hpre).1
      obtain ⟨hstate, heq⟩ := found_eq hsaved hname hf
      have hcell : (w.contracts bi.blockNumber).cell tx = some name := by
        show w.worksOn bi.blockNumber tx = some name
        rw [worksOn_eq hinfo (storedFor_eq hc hname hstate), ← heq, hno]
        rfl
      rw [← hstate]
      exact CellProgram.current_iff_forall.mp hcur pre tx post htx name hcell
    · intro name
      show w.pending s.batchStates name = _
      rw [hpending, hsnap, ← CellProgram.snapshotRun_eq_run hcur]
      rfl

/-- A server that compiles everything to one contract in state `s`, and runs into state `t`. -/
def echoServer : V8Server :=
  { requestCurl := fun request => .ok (.object [(ascii "result".toList,
      .object [(ascii "state".toList,
          .ofAscii (if request.act = "compile" then ['s'] else ['t'])),
        (ascii "address".toList, .ofAscii "0x08".toList)])])
    fromHex := fun _ => .ok [8]
    jsonToString := fun _ => ∅ }

/-- A worker that writes everything, with a server that answers all alike. -/
def echoWorker : WorkerScript :=
  { leveldbV8 := ∅, modules := ⟨true, true, true, true, true, true, true⟩, server := echoServer }

/-- It remembers nothing. -/
def echoMemory : ScriptMemory :=
  { leveldb := ∅, txsStatusCache := { map := ∅, attributes := ∅ } }

/-- A script transaction to the address that consists of this byte. -/
def scriptTx (type : ScriptType) (contract : UInt8) : TransactionInfo :=
  { (default : TransactionInfo) with
    hash := Blob.replicate 32 (contract + 1) Blob.hash_fits, blockNumber := 1
    fromAddress := Address.ofBlob (Blob.replicate 25 1 Blob.address_fits)
    toAddress := Address.ofBlob (Blob.replicate 1 contract Blob.byte_fits)
    scriptInfo := some { txRaw := ∅, type } }

/-- The first block, with these transactions. -/
def scriptBlock (txs : List TransactionInfo) : BlockInfo :=
  { header :=
      { (default : BlockHeader) with
        blockType := BLOCK_TYPE_COMMON, blockNumber := some 1
        hash := Blob.replicate 32 1 Blob.hash_fits }
    txs }

/-- What the worker makes of the first block. -/
def echoWork (txs : List TransactionInfo) : Outcome Unit × LevelDb × ScriptMemory :=
  echoWorker.work echoMemory (scriptBlock txs)

theorem echoWork_written {txs : List TransactionInfo} (h : (echoWork txs).1 = .written ()) :
    echoWorker.work echoMemory (scriptBlock txs) =
      (.written (), (echoWork txs).2.1, (echoWork txs).2.2) :=
  Prod.ext h rfl

theorem scriptBlock_number (txs : List TransactionInfo) : (scriptBlock txs).blockNumber = 1 := rfl

/-- A `compile` and a `run` of different contracts. -/
theorem work_sequential_two :
    echoWorker.Sequential echoMemory (scriptBlock [scriptTx .compile 8, scriptTx .run 9])
      (echoWork [scriptTx .compile 8, scriptTx .run 9]).2.1 := by
  refine (work_sequential_iff (by decide) (echoWork_written (by decide +kernel))).mpr ?_
  have hfirst : echoWorker.worksOn 1 (scriptTx .compile 8) =
      some (Blob.replicate 1 8 Blob.byte_fits) := by decide +kernel
  have hsecond : echoWorker.worksOn 1 (scriptTx .run 9) =
      some (Blob.replicate 1 9 Blob.byte_fits) := by decide +kernel
  rw [scriptBlock_number]
  refine List.Pairwise.cons ?_ (List.pairwise_singleton _ _)
  rintro tx htx name ⟨hcell, _⟩ hcell'
  obtain rfl := List.mem_singleton.mp htx
  have hone : some name = _ := hcell.symm.trans hfirst
  have htwo : some name = _ := hcell'.symm.trans hsecond
  exact absurd (hone.symm.trans htwo) (by decide)

/--
A `compile` and a `run` of one contract in one block: the run is not given the
compiled state, fails, and the database keeps `s` where the two lead to `t`.
-/
theorem work_not_sequential :
    (echoWork [scriptTx .compile 8, scriptTx .run 8]).1 = .written () ∧
    ¬echoWorker.Sequential echoMemory (scriptBlock [scriptTx .compile 8, scriptTx .run 8])
      (echoWork [scriptTx .compile 8, scriptTx .run 8]).2.1 := by
  refine ⟨by decide +kernel, ?_⟩
  intro hseq
  have hleft := hseq.left (Blob.replicate 1 8 Blob.byte_fits)
  rw [scriptBlock_number] at hleft
  have hne : ¬(echoWork [scriptTx .compile 8, scriptTx .run 8]).2.1.findV8State
      (Blob.replicate 1 8 Blob.byte_fits) = (echoWorker.contracts 1).run
        echoWorker.leveldbV8.findV8State [scriptTx .compile 8, scriptTx .run 8]
        (Blob.replicate 1 8 Blob.byte_fits) := by decide +kernel
  exact hne hleft

end WorkerScript

end TorrentNode
