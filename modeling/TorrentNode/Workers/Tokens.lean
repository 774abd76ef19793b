import Mathlib.Data.List.TakeWhile
import TorrentNode.Lib.Snapshot
import TorrentNode.Workers.Frames
import TorrentNode.Workers.Prefix

/-!
# Token records over the chain

What the operations on a token amount to, and how far the record that the main
worker keeps of it does. As with the contracts, the worker looks a token up in
its batch first and never finds it there, so an operation is applied to the
record of the database, not to what the block has made of it so far.
-/

namespace TorrentNode

namespace WorkerMain

open Effect GuardedLoop

/-! ## What an operation means for its token -/

/-- The operation of a successful transaction on the record of a token. -/
def tokenOperation (tx : TransactionInfo) : Option TokenInfo :=
  if tx.isIntStatusNotSuccess then none
  else match tx.tokenInfo with
    | some (.moveTokens _ _) => none
    | info => info

/-- The record that an operation leaves, given the one before; `none` when there is no token. -/
def tokenLeft (tx : TransactionInfo) (info : TokenInfo) (prev : Except Err Token) :
    Option Token :=
  match info, prev with
  | .create type owner decimals value symbol name emission _, _ =>
    some (createdToken tx type owner decimals value symbol name emission)
  | info, .ok prev => if prev.type.isEmpty then none else (tokenChange info).map (· prev)
  | _, .error _ => none

/-- The operations of a block as a program over the tokens by name. -/
def tokens : CellProgram TransactionInfo Blob (Except Err Token) where
  cell tx := (tokenOperation tx).bind (fun _ => tx.toAddress.toBdString.toOption)
  left tx prev :=
    ((tokenOperation tx).bind (fun info => tokenLeft tx info prev)).map (fun t => .ok t.stored)

/-! ## What the worker does to its batch -/

/-- What the keys of tokens start with. -/
def tokenPrefix : Bytes := ascii TOKEN_PREFIX.toList

/-- The token records if the batch was written now. -/
def pendingTokens (w : WorkerMain) (b : Batch) : Blob → Except Err Token :=
  (addBatch b w.leveldb).findToken

/-- Nothing is done to tokens. -/
def SparesTokens (s s' : MainState) : Prop :=
  DelegateKeys s → DelegateKeys s' ∧ s.batch.Spares tokenPrefix s'.batch

instance : Admits tokenPrefix SparesTokens where
  refl _ h := ⟨h, Batch.Spares.refl _ _⟩
  trans h h' hs := ⟨(h' (h hs).1).1, (h hs).2.trans (h' (h hs).1).2⟩
  batch _ _ hb h := ⟨h, hb⟩
  counter _ h := ⟨h, Batch.Spares.refl _ _⟩
  statuses _ _ h := ⟨h, Batch.Spares.refl _ _⟩
  balances _ _ h := ⟨h, Batch.Spares.refl _ _⟩
  common _ _ h := ⟨h, Batch.Spares.refl _ _⟩

theorem foreign_token : Foreign tokenPrefix := by decide

variable {w : WorkerMain} {tx : TransactionInfo} {n : UInt64}

theorem keeps_getInstantDelegateStatus :
    Keeps SparesTokens (w.getInstantDelegateStatus tx n) :=
  fun s hkeys =>
    have h := keeps_delegateStatus (p := tokenPrefix) (by decide) s hkeys
    ⟨h.keys, h.batch⟩

/-! ## A transaction -/

/-- What a step of the worker does to the token records. -/
inductive Stores (s s' : MainState) : Option (Blob × Token) → Prop where
  | nothing : SparesTokens s s' → Stores s s' none
  | record {t t' : MainState} {name : Blob} {token : Token} : SparesTokens s t →
      t.batch.addToken name token = .ok t'.batch → t'.delegateCache = t.delegateCache →
      SparesTokens t' s' → Stores s s' (some (name, token))

theorem Stores.after {s s' s'' : MainState} {c : Option (Blob × Token)} (h : SparesTokens s s')
    (h' : Stores s' s'' c) : Stores s s'' c := by
  cases h' with
  | nothing hk => exact .nothing (Frame.trans h hk)
  | record hk hadd hc hk' => exact .record (Frame.trans h hk) hadd hc hk'

theorem Stores.before {s s' s'' : MainState} {c : Option (Blob × Token)} (h : Stores s s' c)
    (h' : SparesTokens s' s'') : Stores s s'' c := by
  cases h with
  | nothing hk => exact .nothing (Frame.trans hk h')
  | record hk hadd hc hk' => exact .record hk hadd hc (Frame.trans hk' h')

/-- The token records after a change. -/
def storedToken (σ : Blob → Except Err Token) : Option (Blob × Token) → Blob → Except Err Token
  | none => σ
  | some (name, token) => Function.update σ name (.ok token.stored)

/-- What holds between the transactions of a block: no token is found in the batch. -/
structure TokensUnsaved (s : MainState) : Prop where
  unsaved : s.batch.Unsaved tokenPrefix
  keys : DelegateKeys s

theorem TokensUnsaved.spares {s s' : MainState} (h : TokensUnsaved s) (hs : SparesTokens s s') :
    TokensUnsaved s' ∧ w.pendingTokens s'.batch = w.pendingTokens s.batch := by
  obtain ⟨hkeys, hbatch⟩ := hs h.keys
  refine ⟨⟨h.unsaved.spares hbatch, hkeys⟩, ?_⟩
  exact funext (LevelDb.findNamed_congr (by decide) (fun _ hk => hbatch.find?_addBatch w.leveldb hk))

theorem TokensUnsaved.stores {s s' : MainState} {c : Option (Blob × Token)} (h : TokensUnsaved s)
    (hs : Stores s s' c) :
    TokensUnsaved s' ∧ w.pendingTokens s'.batch = storedToken (w.pendingTokens s.batch) c := by
  cases hs with
  | nothing hk => exact h.spares hk
  | record hk hadd hc hk' =>
      rename_i t t' name token
      obtain ⟨ht, hpend⟩ := h.spares (w := w) hk
      have ht' : TokensUnsaved t' := by
        refine ⟨ht.unsaved.addNamed (p := TOKEN_PREFIX) (by decide) hadd, ?_⟩
        intro pair stack hfind
        rw [hc] at hfind
        exact ht.keys pair stack hfind
      obtain ⟨hs', hpend'⟩ := ht'.spares (w := w) hk'
      refine ⟨hs', ?_⟩
      rw [hpend', ← hpend]
      exact findNamed_addBatch_addNamed (p := TOKEN_PREFIX) (by decide) w.leveldb
        (fun _ hser => Token.deserialize_stored hser) hadd

theorem takeToken_ok {s s' : MainState} {name : Blob} {token : Token} (hs : TokensUnsaved s)
    (h : (w.takeToken name).exec s = (.ok token, s')) :
    w.leveldb.findToken name = .ok token ∧ s' = s := by
  unfold takeToken at h
  rw [exec_read_bind] at h
  obtain ⟨found, hf, h⟩ := exec_lift_bind_ok.mp h
  have hne : name ≠ ∅ := by
    obtain ⟨key, hkey, _⟩ := bind_eq_ok.mp hf
    exact ((makeKey_name (p := TOKEN_PREFIX) (by decide)).mp hkey).1
  have hnone : s.batch.findToken name = .ok none :=
    Batch.Unsaved.findNamed (p := TOKEN_PREFIX) (by decide) hs.unsaved hne
  obtain rfl := Except.ok.inj (hnone.symm.trans hf)
  obtain ⟨hdb, hsame⟩ := exec_lift_ok.mp h
  exact ⟨hdb, hsame.symm⟩

/-- **An operation is applied to the record of the database.** -/
theorem processTokenOperation_stores {s s' : MainState} {token : Address} {process : Token → Token}
    {u : Unit} (hs : TokensUnsaved s)
    (h : (w.processTokenOperation token process).exec s = (.ok u, s')) :
    ∃ name prev, token.toBdString = .ok name ∧ w.leveldb.findToken name = .ok prev ∧
      Stores s s' (if prev.type.isEmpty then none else some (name, process prev)) := by
  obtain ⟨name, hname, h⟩ := exec_lift_bind_ok.mp h
  obtain ⟨prev, t, htake, hput⟩ := exec_bind_ok.mp h
  obtain ⟨hdb, hsame⟩ := takeToken_ok hs htake
  rw [hsame] at hput
  refine ⟨name, prev, hname, hdb, ?_⟩
  cases htype : prev.type.isEmpty with
  | true =>
      rw [if_pos htype] at hput
      exact .nothing (Keeps.of_exec hput (keeps_pure _))
  | false =>
      rw [if_neg (by rw [htype]; simp)] at hput
      obtain ⟨hadd, hstate⟩ := onBatch_ok hput
      have hc := congrArg MainState.delegateCache hstate
      exact .record (Frame.refl _) hadd hc (Frame.refl _)

theorem keeps_tokenHistory {address : Address} :
    Keeps SparesTokens (saveAddressTokenTransaction tx address) :=
  keeps_saveAddressTokenTransaction tokenPrefix (foreign_token.away (by decide))

/-- A change and what follows it. -/
theorem changeToken_stores {s s' t : MainState} {info : TokenInfo} {process : Token → Token}
    {u : Unit} (hs : TokensUnsaved s) (hsuccess : tx.isIntStatusNotSuccess = false)
    (hprocess : tokenChange info = some process)
    (h : (w.changeToken tx info).exec s = (.ok u, t)) (hrest : SparesTokens t s') :
    ∃ name prev, tx.toAddress.toBdString = .ok name ∧ w.leveldb.findToken name = .ok prev ∧
      Stores s s' (if prev.type.isEmpty then none else some (name, process prev)) := by
  unfold changeToken at h
  rw [if_neg (by rw [hsuccess]; simp), hprocess] at h
  obtain ⟨name, prev, hname, hprev, hst⟩ := processTokenOperation_stores hs h
  exact ⟨name, prev, hname, hprev, hst.before hrest⟩

/-- What a transaction does to the record of its token, on the database. -/
def tokenEffect (w : WorkerMain) (tx : TransactionInfo) : Option (Blob × Token) :=
  (tokens.cell tx).bind (fun name =>
    ((tokenOperation tx).bind (fun info => tokenLeft tx info (w.leveldb.findToken name))).map
      (Prod.mk name))

theorem tokens_left (v : Except Err Token) : tokens.left tx v =
    ((tokenOperation tx).bind (fun info => tokenLeft tx info v)).map (fun t => .ok t.stored) := rfl

theorem storedToken_tokenEffect (σ : Blob → Except Err Token) :
    storedToken σ (w.tokenEffect tx) = tokens.write w.leveldb.findToken σ tx := by
  unfold tokenEffect CellProgram.write
  cases tokens.cell tx with
  | none => rfl
  | some name =>
      simp only [tokens_left, Option.bind_some]
      cases (tokenOperation tx).bind (fun info => tokenLeft tx info (w.leveldb.findToken name)) <;> rfl

theorem tokenEffect_eq {info : TokenInfo} {name : Blob} (hop : tokenOperation tx = some info)
    (hname : tx.toAddress.toBdString = .ok name) :
    w.tokenEffect tx = (tokenLeft tx info (w.leveldb.findToken name)).map (Prod.mk name) := by
  have hcell : tokens.cell tx = some name := by
    show (tokenOperation tx).bind _ = _
    rw [hop, hname]
    rfl
  unfold tokenEffect
  rw [hcell, hop]
  rfl

theorem tokenEffect_none (hop : tokenOperation tx = none) : w.tokenEffect tx = none := by
  unfold tokenEffect
  rw [hop]
  cases tokens.cell tx <;> rfl

/-- The change of a record, as the effect of its transaction. -/
theorem stores_change {s s' : MainState} {info : TokenInfo} {process : Token → Token}
    (hop : tokenOperation tx = some info) (hprocess : tokenChange info = some process)
    (h : ∃ name prev, tx.toAddress.toBdString = .ok name ∧ w.leveldb.findToken name = .ok prev ∧
      Stores s s' (if prev.type.isEmpty then none else some (name, process prev))) :
    Stores s s' (w.tokenEffect tx) := by
  obtain ⟨name, prev, hname, hprev, hst⟩ := h
  have hleft : tokenLeft tx info (.ok prev) =
      if prev.type.isEmpty then none else some (process prev) := by
    cases info with
    | create => exact absurd hprocess (by simp [tokenChange])
    | _ => simp [tokenLeft, hprocess]
  rw [tokenEffect_eq hop hname, hprev, hleft]
  cases htype : prev.type.isEmpty <;> simpa [htype] using hst

/-- **The tokens of a transaction** are stored as its effect on the database says. -/
theorem saveTokenInfo_stores {s s' : MainState} {u : Unit} (hs : TokensUnsaved s)
    (h : (w.saveTokenInfo tx).exec s = (.ok u, s')) : Stores s s' (w.tokenEffect tx) := by
  unfold saveTokenInfo at h
  cases hinfo : tx.tokenInfo with
  | none =>
      rw [tokenEffect_none (by unfold tokenOperation; rw [hinfo]; split <;> rfl)]
      rw [hinfo] at h
      exact .nothing (Keeps.of_exec h (keeps_pure _))
  | some info =>
      simp only [hinfo] at h
      cases hsuccess : tx.isIntStatusNotSuccess with
      | true =>
          rw [tokenEffect_none (by unfold tokenOperation; rw [if_pos hsuccess])]
          rw [if_pos hsuccess] at h
          exact .nothing (Keeps.of_exec h (keeps_pure _))
      | false =>
          rw [if_neg (by rw [hsuccess]; simp)] at h
          -- One case per operation; the histories that are written with it touch no token.
          cases info with
          | create type owner decimals value symbol name emission beginDistribution =>
              have hop : tokenOperation tx = some
                  (.create type owner decimals value symbol name emission beginDistribution) := by
                unfold tokenOperation; rw [hsuccess, hinfo]; rfl
              obtain ⟨address, haddress, h⟩ := exec_lift_bind_ok.mp h
              obtain ⟨_, t, hput, h⟩ := exec_bind_ok.mp h
              obtain ⟨hadd, hstate⟩ := onBatch_ok hput
              have hc := congrArg MainState.delegateCache hstate
              rw [tokenEffect_eq hop haddress]
              refine .record (Frame.refl _) hadd hc (Keeps.of_exec h ?_)
              exact keeps_bind keeps_tokenHistory (fun _ => keeps_each (fun _ => keeps_tokenHistory) _)
          | changeOwner newOwner =>
              have hop : tokenOperation tx = some (.changeOwner newOwner) := by
                unfold tokenOperation; rw [hsuccess, hinfo]; rfl
              obtain ⟨_, t, hchange, h⟩ := exec_bind_ok.mp h
              refine stores_change hop rfl (changeToken_stores hs hsuccess rfl hchange
                (Keeps.of_exec h ?_))
              exact keeps_bind keeps_tokenHistory (fun _ => keeps_tokenHistory)
          | changeEmission newEmission =>
              have hop : tokenOperation tx = some (.changeEmission newEmission) := by
                unfold tokenOperation; rw [hsuccess, hinfo]; rfl
              obtain ⟨_, t, hchange, h⟩ := exec_bind_ok.mp h
              exact stores_change hop rfl (changeToken_stores hs hsuccess rfl hchange
                (Keeps.of_exec h keeps_tokenHistory))
          | addTokens toAddress value =>
              have hop : tokenOperation tx = some (.addTokens toAddress value) := by
                unfold tokenOperation; rw [hsuccess, hinfo]; rfl
              obtain ⟨_, t, hchange, h⟩ := exec_bind_ok.mp h
              exact stores_change hop rfl (changeToken_stores hs hsuccess rfl hchange
                (Keeps.of_exec h keeps_tokenHistory))
          | moveTokens toAddress value =>
              rw [tokenEffect_none (by unfold tokenOperation; rw [hsuccess, hinfo]; rfl)]
              refine .nothing (Keeps.of_exec h ?_)
              exact keeps_bind keeps_tokenHistory (fun _ => keeps_bind (keeps_lift _)
                (fun _ => keeps_ite keeps_tokenHistory (keeps_pure _)))
          | burnTokens value =>
              have hop : tokenOperation tx = some (.burnTokens value) := by
                unfold tokenOperation; rw [hsuccess, hinfo]; rfl
              obtain ⟨_, t, hchange, h⟩ := exec_bind_ok.mp h
              exact stores_change hop rfl (changeToken_stores hs hsuccess rfl hchange
                (Keeps.of_exec h keeps_tokenHistory))

/-- A transaction, with `MODULE_TXS` on. -/
theorem processTransaction_stores {s s' : MainState} {header : BlockHeader} {c : Bool}
    {status : Option TransactionStatus} (htxs : w.modules.txs = true) (hs : TokensUnsaved s)
    (h : (w.processTransaction header n c tx).exec s = (.ok status, s')) :
    Stores s s' (w.tokenEffect tx) := by
  obtain ⟨status', t, hrecords, h⟩ := exec_bind_ok.mp h
  have hend : SparesTokens t s' := Keeps.of_exec h
    (keeps_bind (keeps_addCommonBalance tokenPrefix) (fun _ => keeps_pure _))
  unfold saveRecords at hrecords
  rw [if_pos (by rw [htxs]; simp)] at hrecords
  obtain ⟨st, t₁, hstatus, hrecords⟩ := exec_bind_ok.mp hrecords
  obtain ⟨_, t₂, hboth, hrecords⟩ := exec_bind_ok.mp hrecords
  obtain ⟨_, t₃, hsave, hrecords⟩ := exec_bind_ok.mp hrecords
  have hbefore : SparesTokens s t₂ := Frame.trans (Keeps.of_exec hstatus keeps_getInstantDelegateStatus)
    (Keeps.of_exec hboth (keeps_toLeveldbBoth tokenPrefix (foreign_token.away (by decide))))
  have hafter : SparesTokens t₃ s' := Frame.trans (Keeps.of_exec hrecords
    (keeps_bind (keeps_saveTokenBalances tokenPrefix) (fun _ => keeps_pure _))) hend
  unfold saveTxs at hsave
  rw [if_pos htxs] at hsave
  obtain ⟨_, t₄, htx, hsave⟩ := exec_bind_ok.mp hsave
  obtain ⟨_, t₅, hdel, hsave⟩ := exec_bind_ok.mp hsave
  have hmid : SparesTokens s t₅ := Frame.trans hbefore (Frame.trans
    (Keeps.of_exec htx (keeps_saveTransaction tokenPrefix (foreign_token.away (by decide))))
    (Keeps.of_exec hdel (keeps_saveDelegateStatus tokenPrefix (foreign_token.away (by decide)))))
  exact ((saveTokenInfo_stores (hs.spares (w := w) hmid).1 hsave).before hafter).after hmid

/-! ## A block -/

/-- A record that was put into the batch has an owner. -/
theorem Stores.owner {s s' : MainState} {name : Blob} {token : Token}
    (h : Stores s s' (some (name, token))) : ∃ owner, token.owner.toBdString = .ok owner := by
  cases h with
  | record _ hadd _ _ =>
      obtain ⟨_, value, hser, _⟩ := Batch.addNamed_eq_ok (p := TOKEN_PREFIX) (by decide) hadd
      obtain ⟨owner, ho, _⟩ := Token.deserialize_serialize hser
      exact ⟨owner, ho⟩

/-- **The transactions of a block** have the effect that each has on the database. -/
theorem processTransactions_tokens (htxs : w.modules.txs = true) {header : BlockHeader} {c : Bool} :
    ∀ {txs : List TransactionInfo} {s s' : MainState} {statuses : List (Option TransactionStatus)},
      TokensUnsaved s → (w.processTransactions header n c txs).exec s = (.ok statuses, s') →
      TokensUnsaved s' ∧
      w.pendingTokens s'.batch =
        tokens.snapshotRun w.leveldb.findToken (w.pendingTokens s.batch) txs ∧
      ∀ tx ∈ txs, ∀ name token, w.tokenEffect tx = some (name, token) →
        ∃ owner, token.owner.toBdString = .ok owner
  | [], s, s', statuses, hs, h => by
      obtain ⟨_, rfl⟩ := exec_pure_ok.mp h
      exact ⟨hs, rfl, by simp⟩
  | tx :: txs, s, s', statuses, hs, h => by
      obtain ⟨status, t, htx, h⟩ := exec_bind_ok.mp h
      obtain ⟨statuses', t', hrest, h⟩ := exec_bind_ok.mp h
      obtain ⟨_, rfl⟩ := exec_pure_ok.mp h
      have hst := processTransaction_stores htxs hs htx
      obtain ⟨ht, hpend⟩ := hs.stores (w := w) hst
      obtain ⟨ht', hpend', howner⟩ := processTransactions_tokens htxs ht hrest
      refine ⟨ht', ?_, ?_⟩
      · rw [hpend', hpend, storedToken_tokenEffect]
        rfl
      · intro tx' htx' name token heff
        rcases List.mem_cons.mp htx' with rfl | htx'
        · rw [heff] at hst
          exact hst.owner
        · exact howner tx' htx' name token heff

theorem applies_tokens (htxs : w.modules.txs = true) {db db' : LevelDb} {bi : BlockInfo}
    (h : w.Applies db bi db') :
    db'.findToken = tokens.snapshotRun db.findToken db.findToken (blockTxs bi) ∧
      ∀ tx ∈ blockTxs bi, ∀ name token, (w.on db).tokenEffect tx = some (name, token) →
        ∃ owner, token.owner.toBdString = .ok owner := by
  obtain ⟨memory, statuses, s, hexec, rfl⟩ := h
  obtain ⟨c, t, u, hstart, htxsRun, hend⟩ := processBlock_txs_ok (R := SparesTokens) tokenPrefix
    (foreign_token.away (by decide)) hexec
  have hnew : TokensUnsaved (blockStart memory) := by
    refine ⟨fun _ _ => rfl, ?_⟩
    intro pair stack hfind
    exact absurd hfind (by simp [blockStart])
  obtain ⟨ht, hpt⟩ := hnew.spares (w := w.on db) hstart
  obtain ⟨hu, hpu, howner⟩ := processTransactions_tokens (w := w.on db) htxs ht htxsRun
  obtain ⟨_, hps⟩ := hu.spares (w := w.on db) hend
  refine ⟨?_, howner⟩
  show (w.on db).pendingTokens s.batch = _
  rw [hps, hpu, hpt]
  rfl

/-- The operations of a block on the token of a name. -/
def operationsOn (name : Blob) (bi : BlockInfo) : List TokenInfo :=
  ((blockTxs bi).filter (fun tx => tokens.cell tx = some name)).filterMap tokenOperation

/-- With one operation on a token at most, the block does to its record what that one says. -/
theorem applies_token_cases (htxs : w.modules.txs = true) {db db' : LevelDb} {bi : BlockInfo}
    {name : Blob} (h : w.Applies db bi db') (hone : (operationsOn name bi).length ≤ 1) :
    (operationsOn name bi = [] ∧ db'.findToken name = db.findToken name) ∨
    ∃ tx info, operationsOn name bi = [info] ∧ tokenOperation tx = some info ∧
      match tokenLeft tx info (db.findToken name) with
      | none => db'.findToken name = db.findToken name
      | some token => ∃ owner, token.owner.toBdString = .ok owner ∧
          db'.findToken name = .ok { token with owner := Address.ofBlob owner } := by
  obtain ⟨hrun, howner⟩ := applies_tokens htxs h
  have hat := congrFun hrun name
  rw [CellProgram.snapshotRun_apply] at hat
  unfold operationsOn at hone ⊢
  -- every transaction on the cell has an operation
  have hop : ∀ tx ∈ (blockTxs bi).filter (fun tx => tokens.cell tx = some name),
      ∃ info, tokenOperation tx = some info ∧ tx.toAddress.toBdString = .ok name := by
    intro tx htx
    have hcell : tokens.cell tx = some name := by simpa using (List.mem_filter.mp htx).2
    obtain ⟨info, hinfo, hname⟩ := Option.bind_eq_some_iff.mp hcell
    refine ⟨info, hinfo, ?_⟩
    cases ha : tx.toAddress.toBdString with
    | error e => simp [ha, Except.toOption] at hname
    | ok a =>
        simp only [ha, Except.toOption, Option.some.injEq] at hname
        rw [hname]
  have hmem : ∀ tx ∈ (blockTxs bi).filter (fun tx => tokens.cell tx = some name),
      tx ∈ blockTxs bi := fun tx htx => (List.mem_filter.mp htx).1
  -- At most one transaction of the block is on the cell.
  rcases hf : (blockTxs bi).filter (fun tx => tokens.cell tx = some name) with _ | ⟨tx, rest⟩
  · rw [hf] at hat
    exact Or.inl ⟨rfl, hat⟩
  · obtain ⟨info, hinfo, hname⟩ := hop tx (by rw [hf]; exact List.mem_cons_self)
    rw [hf, List.filterMap_cons_some hinfo, List.length_cons] at hone
    have hrest : rest.filterMap tokenOperation = [] := List.length_eq_zero_iff.mp (by omega)
    have hnil : rest = [] := by
      cases rest with
      | nil => rfl
      | cons tx' rest' =>
          obtain ⟨info', hinfo', _⟩ := hop tx' (by rw [hf]; simp)
          rw [List.filterMap_cons_some hinfo'] at hrest
          exact absurd hrest (by simp)
    subst hnil
    rw [hf, List.foldl_cons, List.foldl_nil, tokens_left, hinfo, Option.bind_some] at hat
    refine Or.inr ⟨tx, info, by rw [List.filterMap_cons_some hinfo]; rfl, hinfo, ?_⟩
    have heff := tokenEffect_eq (w := w.on db) hinfo hname
    change _ = (tokenLeft tx info (db.findToken name)).map (Prod.mk name) at heff
    cases hl : tokenLeft tx info (db.findToken name) with
    | none =>
        rw [hl] at hat
        exact hat
    | some token =>
        rw [hl] at hat heff
        obtain ⟨owner, ho⟩ := howner tx (hmem tx (by rw [hf]; exact List.mem_cons_self)) name token heff
        refine ⟨owner, ho, hat.trans ?_⟩
        simp only [Option.map_some, Option.getD_some]
        unfold Token.stored
        rw [ho]

/-! ## The fold -/

/-- What an operation adds to the tokens there are. -/
def minted : TokenInfo → Int
  | .create _ _ _ value _ _ _ _ => value.toNat
  | .addTokens _ value => value.toNat
  | _ => 0

/-- How much of the token an operation destroys. -/
def burned : TokenInfo → Int
  | .burnTokens value => value.toNat
  | _ => 0

/-- The owner that an operation sets. -/
def ownerSet : TokenInfo → Option Address
  | .create _ owner _ _ _ _ _ _ => some owner
  | .changeOwner newOwner => some newOwner
  | _ => none

/-- The emission that an operation sets. -/
def emissionSet : TokenInfo → Option Bool
  | .create _ _ _ _ _ _ emission _ => some emission
  | .changeEmission newEmission => some newEmission
  | _ => none

/-- The record is what the operations, from the first on, amount to. -/
structure IsFold (ops : List TokenInfo) (token : Token) : Prop where
  allValue : (token.allValue.toNat : Int) = ((ops.map minted).sum - (ops.map burned).sum) % 2 ^ 64
  owner : ∃ last name, (ops.filterMap ownerSet).getLast? = some last ∧
    last.toBdString = .ok name ∧ token.owner = Address.ofBlob name
  emission : (ops.filterMap emissionSet).getLast? = some token.emission

theorem IsFold.create {tx : TransactionInfo} {type : Blob} {owner : Address} {decimals : UInt32}
    {value : UInt64} {symbol name : Blob} {emission : Bool}
    {beginDistribution : List (Address × UInt64)} {ownerName : Blob}
    (ho : owner.toBdString = .ok ownerName) :
    IsFold [.create type owner decimals value symbol name emission beginDistribution]
      { createdToken tx type owner decimals value symbol name emission with
        owner := Address.ofBlob ownerName } where
  allValue := by
    have := value.toNat_lt
    simp only [createdToken, List.map_cons, List.map_nil, minted, burned, List.sum_cons,
      List.sum_nil]
    omega
  owner := ⟨owner, ownerName, rfl, ho, rfl⟩
  emission := rfl

/-- The name of an owner that was stored and read back. -/
theorem IsFold.ownerName {ops : List TokenInfo} {token : Token} (h : IsFold ops token) :
    ∃ last name, (ops.filterMap ownerSet).getLast? = some last ∧ last.toBdString = .ok name ∧
      token.owner = Address.ofBlob name ∧ token.owner.toBdString = .ok name := by
  obtain ⟨last, name, hlast, hname, htoken⟩ := h.owner
  refine ⟨last, name, hlast, hname, htoken, ?_⟩
  rw [htoken]
  exact Address.getBinaryString_ofBlob name
    (Blob.isEmpty_eq_false.mpr (Address.getBinaryString_ne hname))

/-- What one more operation adds to the tokens there are, and what it takes from them. -/
theorem net_append (ops : List TokenInfo) (info : TokenInfo) :
    ((ops ++ [info]).map minted).sum - ((ops ++ [info]).map burned).sum =
      (ops.map minted).sum - (ops.map burned).sum + (minted info - burned info) := by
  simp only [List.map_append, List.sum_append, List.map_cons, List.map_nil, List.sum_cons,
    List.sum_nil]
  omega

theorem toNat_add_emod {x : Int} {a : UInt64} (v : UInt64) (h : (a.toNat : Int) = x % 2 ^ 64) :
    ((a + v).toNat : Int) = (x + v.toNat) % 2 ^ 64 := by
  rw [UInt64.toNat_add]
  omega

theorem toNat_sub_emod {x : Int} {a : UInt64} (v : UInt64) (h : (a.toNat : Int) = x % 2 ^ 64) :
    ((a - v).toNat : Int) = (x - v.toNat) % 2 ^ 64 := by
  have hv := v.toNat_lt
  have ha := a.toNat_lt
  rw [UInt64.toNat_sub]
  omega

/-- The last of what some operations set, after one more. -/
theorem last_append {α : Type} (set : TokenInfo → Option α) (ops : List TokenInfo)
    (info : TokenInfo) :
    ((ops ++ [info]).filterMap set).getLast? =
      (set info).or (ops.filterMap set).getLast? := by
  rw [List.filterMap_append, List.getLast?_append]
  cases h : set info with
  | none => rw [List.filterMap_cons_none h]; rfl
  | some a => rw [List.filterMap_cons_some h]; rfl

/-- **One more operation** is taken into the record by its change. -/
theorem IsFold.change {ops : List TokenInfo} {info : TokenInfo} {process : Token → Token}
    {prev : Token} (h : IsFold ops prev) (hprocess : tokenChange info = some process)
    {ownerName : Blob} (ho : (process prev).owner.toBdString = .ok ownerName) :
    IsFold (ops ++ [info]) { process prev with owner := Address.ofBlob ownerName } := by
  obtain ⟨last, name, hlast, hname, _, hsame⟩ := h.ownerName
  -- an operation that leaves the owner stores the one there was
  have hkept : (process prev).owner = prev.owner → ownerName = name := by
    intro he
    rw [he, hsame] at ho
    exact (Except.ok.inj ho).symm
  have hnet : ∀ x : Int, (minted info - burned info) = x →
      ((process prev).allValue.toNat : Int) =
        ((ops.map minted).sum - (ops.map burned).sum + x) % 2 ^ 64 →
      ((process prev).allValue.toNat : Int) =
        (((ops ++ [info]).map minted).sum - ((ops ++ [info]).map burned).sum) % 2 ^ 64 := by
    intro x hx hsum
    rw [hsum, net_append, hx]
  have howner : ownerSet info = none → (process prev).owner = prev.owner →
      ∃ last name, ((ops ++ [info]).filterMap ownerSet).getLast? = some last ∧
        last.toBdString = .ok name ∧ Address.ofBlob ownerName = Address.ofBlob name := by
    intro hset he
    rw [last_append, hset]
    exact ⟨last, name, hlast, hname, congrArg _ (hkept he)⟩
  have hemission : emissionSet info = none →
      ((ops ++ [info]).filterMap emissionSet).getLast? = some prev.emission := by
    intro hset
    rw [last_append, hset]
    exact h.emission
  -- Each operation changes one of the three values.
  cases info with
  | changeOwner newOwner =>
      obtain rfl := Option.some.inj hprocess
      refine ⟨hnet 0 rfl ?_, ⟨newOwner, ownerName, ?_, ho, rfl⟩, hemission rfl⟩
      · rw [add_zero]
        exact h.allValue
      · rw [last_append]
        rfl
  | changeEmission newEmission =>
      obtain rfl := Option.some.inj hprocess
      refine ⟨hnet 0 rfl ?_, howner rfl rfl, ?_⟩
      · rw [add_zero]
        exact h.allValue
      · rw [last_append]
        rfl
  | addTokens toAddress value =>
      obtain rfl := Option.some.inj hprocess
      exact ⟨hnet value.toNat (sub_zero _) (toNat_add_emod value h.allValue), howner rfl rfl,
        hemission rfl⟩
  | burnTokens value =>
      obtain rfl := Option.some.inj hprocess
      exact ⟨hnet (-value.toNat) (zero_sub _) (toNat_sub_emod value h.allValue), howner rfl rfl,
        hemission rfl⟩
  | create => exact absurd hprocess (by simp [tokenChange])
  | moveTokens => exact absurd hprocess (by simp [tokenChange])

/-- The operations of the blocks 1, …, n on a token. -/
def operationsTo (blk : Nat → BlockInfo) (name : Blob) : Nat → List TokenInfo
  | 0 => []
  | n + 1 => operationsTo blk name n ++ operationsOn name (blk (n + 1))

/-- The type of the token that a `Create` makes. -/
def createdType : TokenInfo → Option Blob
  | .create type _ _ _ _ _ _ _ => some type
  | _ => none

/-- The first operation creates the token, with the type that is checked where it is read, and no
other one does. -/
structure CreatedOnce (ops : List TokenInfo) : Prop where
  first : ∀ info ∈ ops.head?, ∃ type, createdType info = some type ∧ type.isEmpty = false
  rest : ∀ info ∈ ops.tail, createdType info = none

theorem CreatedOnce.of_append {ops more : List TokenInfo} (h : CreatedOnce (ops ++ more)) :
    CreatedOnce ops := by
  cases ops with
  | nil => exact ⟨by simp, by simp⟩
  | cons info ops => exact ⟨h.first, fun x hx => h.rest x (List.mem_append_left _ hx)⟩

theorem tokenChange_of_operation {tx : TransactionInfo} {info : TokenInfo}
    (h : tokenOperation tx = some info) (hcreate : createdType info = none) :
    ∃ process, tokenChange info = some process := by
  cases info with
  | create => exact absurd hcreate (by simp [createdType])
  | moveTokens toAddress value =>
      unfold tokenOperation at h
      split at h
      · exact absurd h (by simp)
      · split at h
        · exact absurd h (by simp)
        · rename_i hmove
          exact absurd h (hmove toAddress value)
  | _ => exact ⟨_, rfl⟩

theorem tokenChange_type {info : TokenInfo} {process : Token → Token}
    (h : tokenChange info = some process) (t : Token) : (process t).type = t.type := by
  cases info with
  | create => exact absurd h (by simp [tokenChange])
  | moveTokens => exact absurd h (by simp [tokenChange])
  | _ => obtain rfl := Option.some.inj h; rfl

/-- A record that is the fold of its operations and can be changed further. -/
def Tracks (ops : List TokenInfo) (record : Except Err Token) : Prop :=
  ∃ token, record = .ok token ∧ IsFold ops token ∧ token.type.isEmpty = false

/-- **One block** with one operation on the token at most. -/
theorem tracks_block (htxs : w.modules.txs = true) {db db' : LevelDb} {bi : BlockInfo}
    {name : Blob} {ops : List TokenInfo} (h : w.Applies db bi db')
    (hone : (operationsOn name bi).length ≤ 1)
    (hcreated : CreatedOnce (ops ++ operationsOn name bi))
    (htrack : ops ≠ [] → Tracks ops (db.findToken name))
    (hne : ops ++ operationsOn name bi ≠ []) :
    Tracks (ops ++ operationsOn name bi) (db'.findToken name) := by
  rcases applies_token_cases htxs h hone with ⟨hnone, hsame⟩ | ⟨tx, info, hops, hop, hleft⟩
  · rw [hnone, List.append_nil] at hne ⊢
    rw [hsame]
    exact htrack hne
  · rw [hops] at hcreated ⊢
    -- The first operation creates the token, and the others change it.
    cases ops with
    | nil =>
        obtain ⟨type, htype, hfull⟩ := hcreated.first info rfl
        cases info with
        | create type owner decimals value symbol name emission beginDistribution =>
            obtain rfl := Option.some.inj htype
            obtain ⟨ownerName, ho, hrecord⟩ := hleft
            exact ⟨_, hrecord, IsFold.create ho, hfull⟩
        | _ => exact absurd htype (by simp [createdType])
    | cons first rest =>
        obtain ⟨prev, hprev, hfold, hfull⟩ := htrack (List.cons_ne_nil _ _)
        have hchange : createdType info = none := hcreated.rest info (by simp)
        obtain ⟨process, hprocess⟩ := tokenChange_of_operation hop hchange
        have hl : tokenLeft tx info (db.findToken name) = some (process prev) := by
          rw [hprev]
          cases info with
          | create => exact absurd hchange (by simp [createdType])
          | _ => simp [tokenLeft, hfull, hprocess]
        rw [hl] at hleft
        obtain ⟨ownerName, ho, hrecord⟩ := hleft
        refine ⟨_, hrecord, hfold.change hprocess ho, ?_⟩
        show (process prev).type.isEmpty = false
        rw [tokenChange_type hprocess, hfull]

theorem tracks_run (htxs : w.modules.txs = true) {blk : Nat → BlockInfo} {d₀ d : LevelDb}
    {name : Blob} {k : Nat} (hrun : w.loop.Folded blk d₀ k d)
    (hone : ∀ i, 1 ≤ i → i ≤ k → (operationsOn name (blk i)).length ≤ 1)
    (hcreated : CreatedOnce (operationsTo blk name k)) (hne : operationsTo blk name k ≠ []) :
    Tracks (operationsTo blk name k) (d.findToken name) := by
  induction hrun with
  | nil => exact absurd rfl hne
  | snoc hfold happ ih =>
      rename_i k d d'
      refine tracks_block htxs happ (hone (k + 1) (by omega) (le_refl _)) hcreated ?_ hne
      exact fun hops => ih (fun i hi hk => hone i hi (by omega)) hcreated.of_append hops

/--
**The record of a token is the fold of its operations**, however they are spread
over the blocks, as long as no block has two of them.
-/
theorem token_is_fold {w : WorkerMain} (htxs : w.modules.txs = true) {blk : Nat → BlockInfo}
    {d₀ d : LevelDb} {name : Blob} {n : Nat} (hrun : w.loop.Folded blk d₀ n d)
    (hone : ∀ i, 1 ≤ i → i ≤ n → (operationsOn name (blk i)).length ≤ 1)
    (hcreated : CreatedOnce (operationsTo blk name n)) (hne : operationsTo blk name n ≠ []) :
    ∃ token, d.findToken name = .ok token ∧ IsFold (operationsTo blk name n) token := by
  obtain ⟨token, hrecord, hfold, _⟩ := tracks_run htxs hrun hone hcreated hne
  exact ⟨token, hrecord, hfold⟩

/-- An operation on the token whose address is made of twos, in the block of a number. -/
def plainOperation (blockNumber : UInt64) (info : TokenInfo) : TransactionInfo :=
  { plainDelegation with
    blockNumber, filePos := ⟨0, Blob.replicate 1 97 Blob.byte_fits⟩
    intStatus := some 0, delegate := none, tokenInfo := some info }

/-- The address of a token. -/
def plainToken : Blob := Blob.replicate 25 2 Blob.address_fits

/-- An address of one byte repeated. -/
def plainOwner (byte : UInt8) : Address := Address.ofBlob (Blob.replicate 25 byte Blob.address_fits)

/-- Blocks that hold these operations, the first one a creation of 100 tokens. -/
def tokenBlocks (later : Nat → List TokenInfo) (i : Nat) : BlockInfo :=
  { plainChain [] i with
    txs := (if i = 1 then
        [.create (Blob.replicate 2 77 (by decide)) (plainOwner 3) 2 100 ∅ ∅ true []]
      else later i).map (plainOperation (UInt64.ofNat i)) }

/-- The worker on a block, with its counter at the start. -/
def plainRound (db : LevelDb) (bi : BlockInfo) :
    Except Err (List (Option TransactionStatus)) × MainState :=
  ((plainMain.on db).processBlock bi bi.blockNumber).exec (blockStart (startMemory default))

/-- The database after the first blocks. -/
def tokenRun (later : Nat → List TokenInfo) : Nat → LevelDb
  | 0 => ∅
  | n + 1 =>
    addBatch (plainRound (tokenRun later n) (tokenBlocks later (n + 1))).2.batch
      (tokenRun later n)

theorem tokenRun_folded (later : Nat → List TokenInfo) :
    ∀ n, (∀ i < n, (plainRound (tokenRun later i) (tokenBlocks later (i + 1))).1.isOk) →
      plainMain.loop.Folded (tokenBlocks later) ∅ n (tokenRun later n)
  | 0, _ => Folded.nil
  | n + 1, h => by
      refine Folded.snoc (tokenRun_folded later n (fun i hi => h i (by omega))) ?_
      have hok := h n (by omega)
      rcases hr : plainRound (tokenRun later n) (tokenBlocks later (n + 1)) with ⟨r, s⟩
      rw [hr] at hok
      cases r with
      | error e => exact absurd hok (by simp [Except.isOk, Except.toBool])
      | ok statuses =>
          refine ⟨startMemory default, statuses, s, hr, ?_⟩
          rw [tokenRun, hr]

/-- Operations in blocks of their own. -/
def spreadOperations : Nat → List TokenInfo
  | 2 => [.addTokens (plainOwner 4) 5]
  | 3 => [.burnTokens 7]
  | 4 => [.changeOwner (plainOwner 5)]
  | _ => []

/-- A creation, 5 more, 7 less and a new owner, a block each. -/
theorem token_is_fold_four : ∃ token,
    (tokenRun spreadOperations 4).findToken plainToken = .ok token ∧
    IsFold (operationsTo (tokenBlocks spreadOperations) plainToken 4) token := by
  refine token_is_fold rfl (tokenRun_folded spreadOperations 4 (by decide +kernel)) ?_ ?_ ?_
  · intro i hi hn
    have hi' : i = 1 ∨ i = 2 ∨ i = 3 ∨ i = 4 := by omega
    rcases hi' with rfl | rfl | rfl | rfl <;> decide +kernel
  · exact ⟨by decide +kernel, by decide +kernel⟩
  · decide +kernel

/-- Two operations in one block. -/
def groupedOperations : Nat → List TokenInfo
  | 2 => [.addTokens (plainOwner 4) 5, .addTokens (plainOwner 4) 7]
  | _ => []

/-- **The first of two operations in a block is lost**: 100 and 5 and 7 are recorded as 107. -/
theorem second_operation_overwrites :
    plainMain.loop.Folded (tokenBlocks groupedOperations) ∅ 2 (tokenRun groupedOperations 2) ∧
    CreatedOnce (operationsTo (tokenBlocks groupedOperations) plainToken 2) ∧
    ((tokenRun groupedOperations 2).findToken plainToken).map Token.allValue = .ok 107 ∧
    ¬∃ token, (tokenRun groupedOperations 2).findToken plainToken = .ok token ∧
      IsFold (operationsTo (tokenBlocks groupedOperations) plainToken 2) token := by
  have hvalue : ((tokenRun groupedOperations 2).findToken plainToken).map Token.allValue =
      .ok 107 := by decide +kernel
  refine ⟨tokenRun_folded groupedOperations 2 (by decide +kernel), ⟨?_, ?_⟩, hvalue, ?_⟩
  · decide +kernel
  · decide +kernel
  · rintro ⟨token, hrecord, hfold⟩
    rw [hrecord] at hvalue
    have h107 : token.allValue = 107 := Except.ok.inj hvalue
    have hsum := hfold.allValue
    rw [h107] at hsum
    exact absurd hsum (by decide +kernel)

end WorkerMain

end TorrentNode
