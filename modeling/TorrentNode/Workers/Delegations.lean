import TorrentNode.Storage.DelegateRecords
import TorrentNode.Workers.Runs

/-!
# Delegations as stacks

What the delegations between two addresses are meant to be: a stack, from which
an undelegation takes the latest one back. The worker holds such a stack in three
places, its cache of keys, the batch and the database, and finds the top by
looking into them in this order.
-/

namespace TorrentNode

namespace WorkerMain

open Effect

/-! ## The stacks -/

/-- The delegations of every pair, the latest first. -/
abbrev Stacks : Type := DelegatePair → List DelegateState

/-- The pair of a transaction. -/
def pairOf (tx : TransactionInfo) : Option DelegatePair :=
  match tx.fromAddress.getBinaryString, tx.toAddress.getBinaryString with
  | .ok keyFrom, .ok keyTo =>
    if h : keyFrom.size = 25 ∧ keyTo.size = 25 then some ⟨keyFrom, keyTo, h.1, h.2⟩ else none
  | _, _ => none

/-- What a transaction does to the stacks, and the status it gets. -/
def delegationStep (blockNumber : UInt64) (tx : TransactionInfo) (σ : Stacks) :
    Stacks × Option TransactionStatus :=
  match tx.delegate, pairOf tx with
  | some info, some P =>
    let txStatus := TransactionStatus.new tx.hash blockNumber
    if info.isDelegate then
      if tx.isIntStatusNotSuccess then (σ, some { txStatus with status := .delegate })
      else (Function.update σ P (⟨info.value, tx.hash⟩ :: σ P),
        some { txStatus with isSuccess := true, status := .delegate })
    else
      let top := (σ P).headD default
      (Function.update σ P (σ P).tail,
        some { txStatus with isSuccess := true, status := .unDelegate top.value top.hash })
  | _, _ => (σ, none)

/-- What the transactions of a block make of what is delegated, and their statuses. -/
def delegationRun (blockNumber : UInt64) :
    List TransactionInfo → Stacks → Stacks × List (Option TransactionStatus)
  | [], σ => (σ, [])
  | tx :: txs, σ =>
    let (σ', status) := delegationStep blockNumber tx σ
    let (σ'', statuses) := delegationRun blockNumber txs σ'
    (σ'', status :: statuses)

/-! ## Where they are held -/

/-- What the keys of delegations start with. -/
def delegatePrefix : Bytes := literalKey DELEGATE_PREFIX

/-- Delegations stand under pairs, with numbers above `n`. -/
def Numbered (db : LevelDb) (n : Int) : Prop :=
  ∀ k v, delegatePrefix <+: k → db.find? k = some v →
    ∃ (P : DelegatePair) (c : UInt64), k = P.key c ∧ n < c.toNat

/-- The database holds these stacks. -/
structure Holds (db : LevelDb) (n : Int) (σ : Stacks) : Prop where
  numbered : Numbered db n
  stack : ∀ P : DelegatePair,
    (db.under P.scan).map (fun e => DelegateState.deserialize e.2) = (σ P).map .ok

/-- The keys that the cache has for a pair. -/
def cachedKeys (s : MainState) (P : DelegatePair) : List Bytes :=
  (s.delegateCache.find? P.name).getD []

theorem takeDelegate_of_nil {w : WorkerMain} {s : MainState} {P : DelegatePair}
    (h : cachedKeys s P = []) :
    (w.takeDelegate P.name).exec s = (w.takeFromLeveldb P.name).exec s := by
  unfold cachedKeys at h
  rw [takeDelegate, exec_read_bind, h]

theorem takeDelegate_of_cons {w : WorkerMain} {s : MainState} {P : DelegatePair} {key : Bytes}
    {keys : List Bytes} (h : cachedKeys s P = key :: keys) :
    (w.takeDelegate P.name).exec s = (takeFromBatch P.name key).exec s := by
  unfold cachedKeys at h
  rw [takeDelegate, exec_read_bind, h]

/--
In the middle of a block: the records that this block has put in front, which the
cache and the batch know, and behind them what it has left of the database.
-/
structure Working (db : LevelDb) (s : MainState) (σ : Stacks) : Prop where
  holds : Holds (addBatch s.batch db) s.memory.countVal σ
  base : Numbered db s.memory.countVal
  fresh : ∀ (P : DelegatePair) (c : UInt64), (c.toNat : Int) ≤ s.memory.countVal →
    s.batch.save.find? (P.key c) = none
  small : s.memory.countVal < 2 ^ 64
  cached : ∀ P : DelegatePair, ∃ es : List (Bytes × Blob),
    (addBatch s.batch db).under P.scan =
      es ++ (db.under P.scan).filter (fun e => e.1 ∉ s.batch.deleted) ∧
    es.map Prod.fst = cachedKeys s P ∧
    ∀ e ∈ es, s.batch.save.find? e.1 = some e.2 ∧ db.find? e.1 = none

theorem Numbered.mono {db : LevelDb} {n m : Int} (h : Numbered db n) (hm : m ≤ n) :
    Numbered db m := by
  intro k v hk hf
  obtain ⟨P, c, rfl, hc⟩ := h k v hk hf
  exact ⟨P, c, rfl, by omega⟩

/-- The number of a record of a pair. -/
theorem Numbered.of_under {db : LevelDb} {n : Int} (h : Numbered db n) {P : DelegatePair}
    {e : Bytes × Blob} (he : e ∈ db.under P.scan) : ∃ c : UInt64, e.1 = P.key c ∧ n < c.toNat := by
  obtain ⟨hpre, hf⟩ := OrdMap.mem_under.mp he
  obtain ⟨Q, c, hkey, hc⟩ := h e.1 e.2 (P.prefix_scan.trans hpre) hf
  obtain rfl := DelegatePair.scan_prefix_key.mp (hkey ▸ hpre)
  exact ⟨c, hkey, hc⟩

theorem Numbered.find?_eq_none {db : LevelDb} {n : Int} (h : Numbered db n) {P : DelegatePair}
    {c : UInt64} (hc : (c.toNat : Int) ≤ n) : db.find? (P.key c) = none := by
  cases hf : db.find? (P.key c) with
  | none => rfl
  | some v =>
      obtain ⟨Q, c', hkey, hc'⟩ := h _ v (P.prefix_key c) hf
      obtain ⟨_, rfl⟩ := DelegatePair.key_inj hkey
      omega

/-- Nothing is done to delegations. -/
structure SparesDelegations (s s' : MainState) : Prop where
  batch : s.batch.Spares delegatePrefix s'.batch
  cache : s'.delegateCache = s.delegateCache
  counter : s'.memory.countVal ≤ s.memory.countVal

instance : Admits delegatePrefix SparesDelegations where
  refl _ := ⟨Batch.Spares.refl _ _, rfl, le_refl _⟩
  trans h h' := ⟨h.batch.trans h'.batch, h'.cache.trans h.cache, h'.counter.trans h.counter⟩
  batch _ _ hb := ⟨hb, rfl, le_refl _⟩
  counter _ := ⟨Batch.Spares.refl _ _, rfl, Int.sub_le_self _ (by decide)⟩
  statuses _ _ := ⟨Batch.Spares.refl _ _, rfl, le_refl _⟩
  balances _ _ := ⟨Batch.Spares.refl _ _, rfl, le_refl _⟩
  common _ _ := ⟨Batch.Spares.refl _ _, rfl, le_refl _⟩

theorem foreign_delegate : Foreign delegatePrefix := by decide

theorem apart_token : Apart delegatePrefix (ascii TOKEN_PREFIX.toList) := by decide

variable {w : WorkerMain} {db : LevelDb} {s s' : MainState} {σ : Stacks} {P : DelegatePair}

theorem Working.spares (h : Working db s σ) (hs : SparesDelegations s s') : Working db s' σ := by
  have hcount := hs.counter
  have hunder : ∀ P : DelegatePair,
      (addBatch s'.batch db).under P.scan = (addBatch s.batch db).under P.scan := fun P =>
    OrdMap.under_congr (fun _ hk => hs.batch.find?_addBatch db (P.prefix_scan.trans hk))
  constructor
  · constructor
    · intro k v hk hf
      rw [hs.batch.find?_addBatch db hk] at hf
      exact (h.holds.numbered.mono hcount) k v hk hf
    · intro P
      rw [hunder P]
      exact h.holds.stack P
  · exact h.base.mono hcount
  -- Keys above the counter are fresh as before.
  · intro P c hc
    rw [hs.batch.save _ (P.prefix_key c)]
    exact h.fresh P c (by omega)
  · have := h.small
    omega
  · intro P
    obtain ⟨es, hes, hkeys, hsave⟩ := h.cached P
    refine ⟨es, ?_, ?_, ?_⟩
    · rw [hunder P, hes]
      refine congrArg (es ++ ·) (List.filter_congr (fun e he => ?_))
      have hpre := P.prefix_scan.trans (OrdMap.mem_under.mp he).1
      rw [decide_eq_decide, hs.batch.deleted _ hpre]
    · rw [hkeys]
      unfold cachedKeys
      rw [hs.cache]
    · intro e he
      have hmem : e ∈ (addBatch s.batch db).under P.scan := by
        rw [hes]; exact List.mem_append_left _ he
      rw [hs.batch.save _ (P.prefix_scan.trans (OrdMap.mem_under.mp hmem).1)]
      exact hsave e he

/-! ## Push -/

theorem name_inj {Q : DelegatePair} (h : P.name = Q.name) : P = Q :=
  DelegatePair.eq_of_scan (by unfold DelegatePair.scan; rw [h])

/-- A new record goes in front of the others of its pair. -/
theorem Working.push (h : Working db s σ) {c : UInt64} (hc : (c.toNat : Int) = s.memory.countVal)
    {value : Blob} {d : DelegateState} (hvalue : DelegateState.deserialize value = .ok d)
    (hbatch : s'.batch = s.batch.addKeyInternal (P.key c) value true)
    (hcache : s'.delegateCache = s.delegateCache.insert P.name (P.key c :: cachedKeys s P))
    (hcount : s'.memory.countVal = s.memory.countVal - 1) :
    Working db s' (Function.update σ P (d :: σ P)) := by
  have hnone : s.batch.save.find? (P.key c) = none := h.fresh P c (by omega)
  have hdb : db.find? (P.key c) = none := h.base.find?_eq_none (by omega)
  have hpending : addBatch s'.batch db = (addBatch s.batch db).insert (P.key c) value := by
    rw [hbatch, addBatch_addKeyInternal]
  have hfirst : ∀ e ∈ (addBatch s.batch db).under P.scan, P.key c < e.1 := by
    intro e he
    obtain ⟨c', hkey, hc'⟩ := h.holds.numbered.of_under he
    rw [hkey, DelegatePair.key_lt_key]
    omega
  -- A later counter gives a smaller key, so the record is the first of its pair,
  have hself : (addBatch s'.batch db).under P.scan =
      (P.key c, value) :: (addBatch s.batch db).under P.scan := by
    rw [hpending, OrdMap.under_insert_first (P.scan_prefix c) hfirst]
  -- and those of the other pairs do not change.
  have hother : ∀ Q : DelegatePair, Q ≠ P →
      (addBatch s'.batch db).under Q.scan = (addBatch s.batch db).under Q.scan := by
    intro Q hQ
    rw [hpending]
    refine OrdMap.under_congr (fun k hk => OrdMap.find?_insert_ne ?_)
    rintro rfl
    exact hQ (DelegatePair.scan_prefix_key.mp hk)
  constructor
  · constructor
    · intro k v hk hf
      rw [hpending, OrdMap.find?_insert] at hf
      split at hf
      · rename_i heq
        exact ⟨P, c, heq, by omega⟩
      · exact (h.holds.numbered.mono (by omega)) k v hk hf
    · intro Q
      by_cases hQ : Q = P
      · subst hQ
        rw [hself, Function.update_self, List.map_cons, List.map_cons, hvalue, h.holds.stack]
      · rw [hother Q hQ, Function.update_of_ne hQ, h.holds.stack]
  · exact h.base.mono (by omega)
  -- Above the new counter all keys are still free.
  · intro Q c' hc'
    have hne : Q.key c' ≠ P.key c := by
      intro heq
      obtain ⟨_, rfl⟩ := DelegatePair.key_inj heq
      omega
    rw [hbatch]
    exact (OrdMap.find?_emplace_ne hne).trans (h.fresh Q c' (by omega))
  · have := h.small
    omega
  · intro Q
    obtain ⟨es, hes, hkeys, hsave⟩ := h.cached Q
    have hdeleted : s'.batch.deleted = s.batch.deleted := by rw [hbatch]; rfl
    have hsave' : ∀ e ∈ es, s'.batch.save.find? e.1 = some e.2 ∧ db.find? e.1 = none := by
      intro e he
      have hne : e.1 ≠ P.key c := by
        intro heq
        rw [← heq, (hsave e he).1] at hnone
        exact absurd hnone (by simp)
      rw [hbatch]
      exact ⟨(OrdMap.find?_emplace_ne hne).trans (hsave e he).1, (hsave e he).2⟩
    -- The cache of the pair has the key in front.
    by_cases hQ : Q = P
    · subst hQ
      refine ⟨(Q.key c, value) :: es, ?_, ?_, ?_⟩
      · rw [hself, hes, hdeleted, List.cons_append]
      · unfold cachedKeys
        rw [hcache, OrdMap.find?_insert_self, List.map_cons, hkeys, Option.getD_some]
      · intro e he
        rcases List.mem_cons.mp he with rfl | he
        · rw [hbatch]
          refine ⟨?_, hdb⟩
          show (s.batch.save.emplace _ _).find? _ = _
          rw [OrdMap.find?_emplace_of_none hnone, if_pos rfl]
        · exact hsave' e he
    · refine ⟨es, ?_, ?_, hsave'⟩
      · rw [hother Q hQ, hes, hdeleted]
      · rw [hkeys]
        unfold cachedKeys
        rw [hcache, OrdMap.find?_insert_ne (fun heq => hQ (name_inj heq))]

/-! ## Pop -/

theorem mem_deleted_removeValue {b : Batch} {key k : Bytes} :
    k ∈ (b.removeValue key).deleted ↔ k = key ∨ k ∈ b.deleted := by
  unfold Batch.removeValue
  split
  · rename_i hmem
    exact ⟨Or.inr, fun h => h.elim (fun heq => heq ▸ hmem) id⟩
  · exact List.mem_cons

/-- The record on top of a stack is taken away, wherever it is. -/
theorem Working.pop (h : Working db s σ) {e : Bytes × Blob} {rest : List (Bytes × Blob)}
    (htop : (addBatch s.batch db).under P.scan = e :: rest)
    (hbatch : s'.batch = s.batch.removeValue e.1)
    (hcache : ∀ Q, cachedKeys s' Q = (cachedKeys s Q).filter (fun k => k ≠ e.1))
    (hcount : s'.memory.countVal = s.memory.countVal) :
    Working db s' (Function.update σ P (σ P).tail) := by
  have hpending : addBatch s'.batch db = (addBatch s.batch db).erase e.1 := by
    rw [hbatch, addBatch_removeValue]
  have hpre : P.scan <+: e.1 :=
    (OrdMap.mem_under.mp (by rw [htop]; exact List.mem_cons_self)).1
  constructor
  · constructor
    · intro k v hk hf
      rw [hpending, OrdMap.find?_erase] at hf
      split at hf
      · exact absurd hf (by simp)
      · rw [hcount]
        exact h.holds.numbered k v hk hf
    · intro Q
      by_cases hQ : Q = P
      · subst hQ
        have hstack := h.holds.stack Q
        rw [hpending, OrdMap.under_erase_first htop, Function.update_self]
        rw [htop, List.map_cons] at hstack
        rw [List.map_tail, ← hstack, List.tail_cons]
      · rw [Function.update_of_ne hQ, ← h.holds.stack, hpending]
        refine congrArg (List.map _) (OrdMap.under_congr (fun k hk => OrdMap.find?_erase_ne ?_))
        rintro rfl
        exact hQ (DelegatePair.eq_of_prefix hk hpre)
  · rw [hcount]
    exact h.base
  -- A key that is taken out of the batch was not fresh.
  · intro Q c hc
    rw [hbatch]
    show (s.batch.save.erase e.1).find? _ = none
    rw [OrdMap.find?_erase]
    split
    · rfl
    · exact h.fresh Q c (by omega)
  · rw [hcount]
    exact h.small
  · intro Q
    obtain ⟨es, hes, hkeys, hsave⟩ := h.cached Q
    -- What the batch holds of a pair loses the record, if it has it.
    refine ⟨es.filter (fun e' => e'.1 ≠ e.1), ?_, ?_, ?_⟩
    · rw [hpending, OrdMap.under_erase, hes, List.filter_append, List.filter_filter, hbatch]
      refine congrArg (_ ++ ·) (List.filter_congr (fun e' _ => ?_))
      rw [Bool.eq_iff_iff, Bool.and_eq_true]
      simp [mem_deleted_removeValue]
    · rw [hcache Q, ← hkeys, List.filter_map]
      rfl
    · intro e' he'
      obtain ⟨hmem, hne⟩ := List.mem_filter.mp he'
      rw [hbatch]
      exact ⟨(OrdMap.find?_erase_ne (of_decide_eq_true hne)).trans (hsave e' hmem).1,
        (hsave e' hmem).2⟩

/-! ## What the worker does -/

/-- **A delegation** is put on the stack of its pair. -/
theorem Working.putDelegate {value : UInt64} {hash : Blob} {u : Unit} (h : Working db s σ)
    (hexec : (putDelegate P.name value hash).exec s = (.ok u, s'))
    (hcount : 0 ≤ s'.memory.countVal) :
    Working db s' (Function.update σ P (⟨value, hash⟩ :: σ P)) := by
  obtain ⟨c, t, hget, hexec⟩ := exec_bind_ok.mp hexec
  obtain ⟨rfl, rfl⟩ := getCountVal_ok hget
  obtain ⟨key, t, hadd, hpush⟩ := exec_bind_ok.mp hexec
  have hmap := exec_tryModify_ok.mp hadd
  obtain ⟨⟨key', b⟩, hb, hr⟩ := map_eq_ok.mp hmap
  obtain ⟨rfl, rfl⟩ := Prod.mk.inj hr
  obtain ⟨key'', hkey, hb⟩ := bind_eq_ok.mp hb
  rw [P.makeKey_key] at hkey
  obtain rfl := Except.ok.inj hkey
  obtain ⟨b', hb', hb⟩ := bind_eq_ok.mp hb
  obtain ⟨rfl, rfl⟩ := Prod.mk.inj (Except.ok.inj hb)
  obtain ⟨blob, hser, rfl⟩ := Batch.addKey_eq_ok hb'
  obtain ⟨_, rfl⟩ := Prod.mk.inj hpush
  have hbound : 0 ≤ s.memory.countVal - 1 := hcount
  exact h.push (toNat_ofInt (by omega) h.small) (DelegateState.deserialize_serialize hser) rfl rfl rfl

theorem Working.nodup_cachedKeys (h : Working db s σ) (P : DelegatePair) :
    (cachedKeys s P).Nodup := by
  obtain ⟨es, hes, hkeys, _⟩ := h.cached P
  have hinc : OrdMap.Increasing es := by
    refine List.Pairwise.sublist ?_ (OrdMap.increasing_under (m := addBatch s.batch db) (p := P.scan))
    rw [hes]
    exact List.sublist_append_left _ _
  rw [← hkeys]
  exact (List.pairwise_map.mpr hinc).imp (fun hlt => hlt.ne)

theorem Working.cachedKeys_scan (h : Working db s σ) {Q : DelegatePair} {k : Bytes}
    (hk : k ∈ cachedKeys s Q) : Q.scan <+: k := by
  obtain ⟨es, hes, hkeys, _⟩ := h.cached Q
  rw [← hkeys] at hk
  obtain ⟨e, he, rfl⟩ := List.mem_map.mp hk
  exact (OrdMap.mem_under.mp (by rw [hes]; exact List.mem_append_left _ he)).1

/-- The latest delegation of this block is taken back. -/
theorem Working.takeFromBatch {key : Bytes} {rest : List Bytes} {d : DelegateState}
    (h : Working db s σ) (hcached : cachedKeys s P = key :: rest)
    (hexec : (takeFromBatch P.name key).exec s = (.ok d, s')) :
    d = (σ P).headD default ∧ Working db s' (Function.update σ P (σ P).tail) := by
  obtain ⟨es, hes, hkeys, hsave⟩ := h.cached P
  rw [hcached] at hkeys
  -- The cache holds a key, so the batch has a record of the pair.
  cases es with
  | nil => exact absurd hkeys (by simp)
  | cons e es =>
      obtain ⟨rfl, _⟩ := List.cons.inj hkeys
      have hstack := h.holds.stack P
      rw [hes, List.cons_append, List.map_cons] at hstack
      -- the key on top of the cache is the first record of the pair
      obtain ⟨_, t, hpop, hexec⟩ := exec_bind_ok.mp hexec
      obtain ⟨_, rfl⟩ := Prod.mk.inj hpop
      rw [exec_read_bind] at hexec
      obtain ⟨found, hfound, hexec⟩ := exec_lift_bind_ok.mp hexec
      have hsome : s.batch.findDelegateKey e.1 = (DelegateState.deserialize e.2).map some := by
        unfold Batch.findDelegateKey Batch.findValueInBatch
        rw [(hsave e List.mem_cons_self).1]
      obtain ⟨d', hd', rfl⟩ := map_eq_ok.mp (hsome.symm.trans hfound)
      obtain ⟨_, _, hexec⟩ := exec_lift_bind_ok.mp hexec
      obtain ⟨_, t, hremove, hexec⟩ := exec_bind_ok.mp hexec
      obtain rfl := Except.ok.inj (exec_tryUpdate_ok.mp hremove)
      obtain ⟨rfl, rfl⟩ := exec_pure_ok.mp hexec
      constructor
      · cases hσ : σ P with
        | nil => rw [hσ] at hstack; exact absurd hstack (by simp)
        | cons top tail =>
            rw [hσ, List.map_cons, hd'] at hstack
            exact Except.ok.inj (List.cons.inj hstack).1
      · refine h.pop hes rfl (fun Q => ?_) rfl
        have hnodup := h.nodup_cachedKeys P
        rw [hcached] at hnodup
        unfold cachedKeys
        show Option.getD ((s.delegateCache.insert P.name (cachedKeys s P).tail).find? Q.name) [] = _
        by_cases hQ : Q = P
        · subst hQ
          rw [OrdMap.find?_insert_self, Option.getD_some, show
            (s.delegateCache.find? Q.name).getD [] = e.1 :: rest from hcached, hcached,
            List.tail_cons, List.filter_cons_of_neg (by simp), eq_comm, List.filter_eq_self]
          intro k hk
          exact decide_eq_true (fun heq => (List.nodup_cons.mp hnodup).1 (heq ▸ hk))
        · rw [OrdMap.find?_insert_ne (fun heq => hQ (name_inj heq)), eq_comm, List.filter_eq_self]
          intro k hk
          refine decide_eq_true (fun heq => hQ ?_)
          refine DelegatePair.eq_of_prefix (heq ▸ h.cachedKeys_scan hk) ?_
          exact h.cachedKeys_scan (by rw [hcached]; exact List.mem_cons_self)

/-- With nothing of this block left, the records are those of the database. -/
theorem Working.under_of_cachedKeys_nil (h : Working db s σ) (hcached : cachedKeys s P = []) :
    (addBatch s.batch db).under P.scan =
      (db.under P.scan).filter (fun e => e.1 ∉ s.batch.deleted) := by
  obtain ⟨es, hes, hkeys, _⟩ := h.cached P
  rw [hcached, List.map_eq_nil_iff] at hkeys
  rw [hes, hkeys, List.nil_append]

/-- The latest delegation of the database is taken back. -/
theorem Working.takeFromLeveldb {d : DelegateState} (h : Working w.leveldb s σ)
    (hcached : cachedKeys s P = [])
    (hexec : (w.takeFromLeveldb P.name).exec s = (.ok d, s')) :
    d = (σ P).headD default ∧ Working w.leveldb s' (Function.update σ P (σ P).tail) := by
  have hunder := h.under_of_cachedKeys_nil hcached
  have hstack := h.holds.stack P
  unfold WorkerMain.takeFromLeveldb at hexec
  rw [exec_read_bind] at hexec
  obtain ⟨⟨key, value⟩, hfind, hexec⟩ := exec_lift_bind_ok.mp hexec
  obtain ⟨_, hscan, hfind⟩ := bind_eq_ok.mp hfind
  obtain rfl := Except.ok.inj (P.makeKey_scan.symm.trans hscan)
  have hfirst : w.leveldb.findFirstOf P.scan s.batch.getDeletedDelegate =
      ((addBatch s.batch w.leveldb).under P.scan).head? := by
    rw [LevelDb.findFirstOf_eq, hunder, List.head?_filter]
    rfl
  rw [hfirst] at hfind
  -- With an empty cache the database has what there is of the pair.
  cases htop : (addBatch s.batch w.leveldb).under P.scan with
  | nil =>
      rw [htop] at hfind hstack
      obtain ⟨rfl, rfl⟩ := Prod.mk.inj (Except.ok.inj hfind)
      obtain ⟨rfl, rfl⟩ := exec_pure_ok.mp hexec
      have hσ : σ P = [] := List.map_eq_nil_iff.mp hstack.symm
      refine ⟨by rw [hσ]; rfl, ?_⟩
      rw [hσ, List.tail_nil, ← hσ, Function.update_eq_self]
      exact h
  | cons e rest =>
      rw [htop] at hfind hstack
      obtain ⟨state, hstate, hfind⟩ := bind_eq_ok.mp hfind
      obtain ⟨rfl, rfl⟩ := Prod.mk.inj (Except.ok.inj hfind)
      have hpre : P.scan <+: e.1 :=
        (OrdMap.mem_under.mp (by rw [htop]; exact List.mem_cons_self)).1
      have hkey : e.1.isEmpty = false := by
        obtain ⟨t, ht⟩ := hpre
        have hlen := congrArg List.length ht
        rw [List.length_append, P.length_scan] at hlen
        cases he : e.1 with
        | nil => rw [he, List.length_nil] at hlen; omega
        | cons a l => rfl
      simp only [hkey, Bool.false_eq_true, if_false] at hexec
      obtain ⟨_, _, hexec⟩ := exec_lift_bind_ok.mp hexec
      obtain ⟨_, t, hremove, hexec⟩ := exec_bind_ok.mp hexec
      obtain rfl := Except.ok.inj (exec_tryUpdate_ok.mp hremove)
      obtain ⟨rfl, rfl⟩ := exec_pure_ok.mp hexec
      constructor
      · cases hσ : σ P with
        | nil => rw [hσ] at hstack; exact absurd hstack (by simp)
        | cons top tail =>
            rw [hσ, List.map_cons, List.map_cons, hstate] at hstack
            exact Except.ok.inj (List.cons.inj hstack).1
      · refine h.pop htop rfl (fun Q => ?_) rfl
        rw [eq_comm]
        refine List.filter_eq_self.mpr (fun k hk => decide_eq_true (fun heq => ?_))
        -- a key in the cache of this pair there is none, and others stand elsewhere
        have hQ : Q = P := DelegatePair.eq_of_prefix (heq ▸ h.cachedKeys_scan hk) hpre
        rw [hQ, hcached] at hk
        exact absurd hk (by simp)

/-- **An undelegation** takes the top off the stack of its pair. -/
theorem Working.takeDelegate {d : DelegateState} (h : Working w.leveldb s σ)
    (hexec : (w.takeDelegate P.name).exec s = (.ok d, s')) :
    d = (σ P).headD default ∧ Working w.leveldb s' (Function.update σ P (σ P).tail) := by
  cases hcached : cachedKeys s P with
  | nil =>
      rw [takeDelegate_of_nil hcached] at hexec
      exact h.takeFromLeveldb hcached hexec
  | cons key rest =>
      rw [takeDelegate_of_cons hcached] at hexec
      exact h.takeFromBatch hcached hexec

/-! ## Transactions -/

variable {tx : TransactionInfo} {n : UInt64}

/-- Delegations are between addresses of the full length. -/
def BetweenAddresses (tx : TransactionInfo) : Prop := tx.delegate.isSome → (pairOf tx).isSome

instance (tx : TransactionInfo) : Decidable (BetweenAddresses tx) :=
  inferInstanceAs (Decidable (_ → _))

theorem pairOf_eq_some (h : pairOf tx = some P) :
    tx.fromAddress.getBinaryString = .ok P.keyFrom ∧
      tx.toAddress.getBinaryString = .ok P.keyTo := by
  unfold pairOf at h
  split at h
  · rename_i keyFrom keyTo hfrom hto
    split at h
    · obtain rfl := Option.some.inj h
      exact ⟨hfrom, hto⟩
    · exact absurd h (by simp)
  · exact absurd h (by simp)

/-- The status of a delegation and what becomes of the stacks. -/
theorem Working.calcTransactionStatusDelegate {info : DelegateInfo} {status : TransactionStatus}
    (h : Working w.leveldb s σ) (hinfo : tx.delegate = some info) (hpair : pairOf tx = some P)
    (hexec : (w.calcTransactionStatusDelegate tx n).exec s = (.ok status, s'))
    (hcount : 0 ≤ s'.memory.countVal) :
    Working w.leveldb s' (delegationStep n tx σ).1 ∧ some status = (delegationStep n tx σ).2 := by
  obtain ⟨hfrom, hto⟩ := pairOf_eq_some hpair
  unfold WorkerMain.calcTransactionStatusDelegate at hexec
  unfold delegationStep
  simp only [hinfo, hpair] at hexec ⊢
  obtain ⟨keyFrom, hkeyFrom, hexec⟩ := exec_lift_bind_ok.mp hexec
  obtain ⟨keyTo, hkeyTo, hexec⟩ := exec_lift_bind_ok.mp hexec
  obtain rfl := Except.ok.inj (hfrom.symm.trans hkeyFrom)
  obtain rfl := Except.ok.inj (hto.symm.trans hkeyTo)
  obtain ⟨name, hname, hexec⟩ := exec_lift_bind_ok.mp hexec
  obtain rfl := Except.ok.inj (P.makeKeyDelegatePair_eq.symm.trans hname)
  split at hexec
  -- A delegation that succeeded is put on its stack;
  · rename_i hdelegate
    rw [if_pos hdelegate]
    split at hexec
    · rename_i hfailed
      obtain ⟨rfl, rfl⟩ := exec_pure_ok.mp hexec
      rw [if_pos hfailed]
      exact ⟨h, rfl⟩
    · rename_i hsuccess
      obtain ⟨_, t, hput, hexec⟩ := exec_bind_ok.mp hexec
      obtain ⟨rfl, rfl⟩ := exec_pure_ok.mp hexec
      rw [if_neg hsuccess]
      exact ⟨h.putDelegate hput hcount, rfl⟩
  -- an undelegation takes the last one off.
  · rename_i hundelegate
    rw [if_neg hundelegate]
    obtain ⟨d, t, htake, hexec⟩ := exec_bind_ok.mp hexec
    obtain ⟨rfl, rfl⟩ := exec_pure_ok.mp hexec
    obtain ⟨rfl, hw⟩ := h.takeDelegate htake
    exact ⟨hw, rfl⟩

theorem Working.getInstantDelegateStatus {status : Option TransactionStatus}
    (h : Working w.leveldb s σ) (hpair : BetweenAddresses tx)
    (hexec : (w.getInstantDelegateStatus tx n).exec s = (.ok status, s'))
    (hcount : 0 ≤ s'.memory.countVal) :
    Working w.leveldb s' (delegationStep n tx σ).1 ∧ status = (delegationStep n tx σ).2 := by
  unfold WorkerMain.getInstantDelegateStatus at hexec
  cases hinfo : tx.delegate with
  | none =>
      rw [hinfo] at hexec
      obtain ⟨rfl, rfl⟩ := exec_pure_ok.mp hexec
      unfold delegationStep
      rw [hinfo]
      exact ⟨h, rfl⟩
  | some info =>
      obtain ⟨P, hP⟩ := Option.isSome_iff_exists.mp (hpair (by rw [hinfo]; rfl))
      rw [hinfo] at hexec
      obtain ⟨_, _, hexec⟩ := exec_lift_bind_ok.mp hexec
      obtain ⟨status', t, hstatus, hexec⟩ := exec_bind_ok.mp hexec
      obtain ⟨rfl, rfl⟩ := exec_pure_ok.mp hexec
      exact h.calcTransactionStatusDelegate hinfo hP hstatus hcount

/-- **The transactions of a block** move the stacks as they say. -/
theorem Working.processTransactions
    (hon : (w.modules.balance || w.modules.txs || w.modules.addrTxs) = true)
    {header : BlockHeader} {c : Bool} :
    ∀ {txs : List TransactionInfo} {s s' : MainState} {σ : Stacks}
      {statuses : List (Option TransactionStatus)}, Working w.leveldb s σ →
      (∀ tx ∈ txs, BetweenAddresses tx) →
      (w.processTransactions header n c txs).exec s = (.ok statuses, s') →
      0 ≤ s'.memory.countVal →
      Working w.leveldb s' (delegationRun n txs σ).1 ∧ statuses = (delegationRun n txs σ).2
  | [], _, _, _, _, h, _, hexec, _ => by
      obtain ⟨rfl, rfl⟩ := exec_pure_ok.mp hexec
      exact ⟨h, rfl⟩
  | tx :: txs, s, s', σ, statuses, h, hpairs, hexec, hcount => by
      obtain ⟨status, t, htx, hexec⟩ := exec_bind_ok.mp hexec
      obtain ⟨statuses', t', hrest, hexec⟩ := exec_bind_ok.mp hexec
      obtain ⟨rfl, rfl⟩ := exec_pure_ok.mp hexec
      obtain ⟨u, hstatus, hspares⟩ := processTransaction_ok (R := SparesDelegations) delegatePrefix
        foreign_delegate apart_token hon htx
      have hdown : t'.memory.countVal ≤ t.memory.countVal :=
        Keeps.of_exec (R := CountsDown) hrest (keeps_processTransactions delegatePrefix
          foreign_delegate apart_token countsDown_status txs)
      have hdown' := hspares.counter
      obtain ⟨hu, rfl⟩ := h.getInstantDelegateStatus (hpairs tx List.mem_cons_self) hstatus
        (by omega)
      obtain ⟨ht', rfl⟩ := processTransactions hon (hu.spares hspares)
        (fun tx' htx' => hpairs tx' (List.mem_cons_of_mem _ htx')) hrest hcount
      exact ⟨ht', rfl⟩

/-! ## Blocks -/

theorem Holds.start {memory : MainMemory} (h : Holds db memory.countVal σ)
    (hsmall : memory.countVal < 2 ^ 64) : Working db (blockStart memory) σ where
  holds := h
  base := h.numbered
  fresh _ _ _ := rfl
  small := hsmall
  cached P := by
    refine ⟨[], ?_, rfl, by simp⟩
    have hall : (db.under P.scan).filter (fun e => e.1 ∉ (blockStart memory).batch.deleted) =
        db.under P.scan := List.filter_eq_self.mpr (fun _ _ => decide_eq_true List.not_mem_nil)
    rw [List.nil_append, hall]
    rfl

/-- **A block** that is worked through. -/
theorem Holds.processBlock (hon : (w.modules.balance || w.modules.txs || w.modules.addrTxs) = true)
    {memory : MainMemory} {bi : BlockInfo} {statuses : List (Option TransactionStatus)}
    (h : Holds w.leveldb memory.countVal σ) (hsmall : memory.countVal < 2 ^ 64)
    (hpairs : ∀ tx ∈ blockTxs bi, BetweenAddresses tx)
    (hexec : (w.processBlock bi n).exec (blockStart memory) = (.ok statuses, s))
    (hcount : 0 ≤ s.memory.countVal) :
    Working w.leveldb s (delegationRun n (blockTxs bi) σ).1 ∧
      statuses = (delegationRun n (blockTxs bi) σ).2 := by
  obtain ⟨c, t, u, hstart, htxs, hend⟩ := processBlock_txs_ok (R := SparesDelegations)
    delegatePrefix (foreign_delegate.away (by decide)) hexec
  have hdown := hend.counter
  obtain ⟨hu, hstatuses⟩ := ((h.start hsmall).spares hstart).processTransactions hon hpairs htxs
    (by omega)
  exact ⟨hu.spares hend, hstatuses⟩

/-- The stacks after these blocks. -/
def stacksAfter (blocks : List BlockInfo) : Stacks :=
  blocks.foldl (fun σ bi => (delegationRun bi.blockNumber (blockTxs bi) σ).1) (fun _ => [])

/-- The delegations of a block are between addresses of the full length. -/
def BlockBetweenAddresses (bi : BlockInfo) : Prop := ∀ tx ∈ blockTxs bi, BetweenAddresses tx

instance (bi : BlockInfo) : Decidable (BlockBetweenAddresses bi) :=
  inferInstanceAs (Decidable (∀ tx ∈ _, _))

/-- What a run keeps: the database holds the stacks, below the numbers that the memory and the
record have left. -/
abbrev RunHolds : LevelDb → MainMemory → List BlockInfo → Prop :=
  Kept (fun d n blocks => Holds d n (stacksAfter blocks))

theorem Holds.mono {n m : Int} (h : Holds db n σ) (hm : m ≤ n) : Holds db m σ :=
  ⟨h.numbered.mono hm, h.stack⟩

theorem holds_empty (n : Int) : Holds ∅ n (fun _ => []) :=
  ⟨fun _ _ _ hf => absurd hf (by simp), fun _ => rfl⟩

/-- **Every run** whose counter does not pass zero keeps it. -/
theorem runHolds (hon : (w.modules.balance || w.modules.txs || w.modules.addrTxs) = true)
    {d : LevelDb} {m : MainMemory} {blocks : List BlockInfo}
    (h : Reached w (fun n => 0 ≤ n) d m blocks)
    (hpairs : ∀ bi ∈ blocks, BlockBetweenAddresses bi) : RunHolds d m blocks := by
  refine h.kept holds_empty (fun h hle => h.mono hle) ?_ hpairs
  intro d blocks bi statuses s m hholds hsmall hgood hexec hcount
  have hstacks : stacksAfter (blocks ++ [bi]) =
      (delegationRun bi.blockNumber (blockTxs bi) (stacksAfter blocks)).1 := by
    unfold stacksAfter
    rw [List.foldl_append]
    rfl
  have hworking := (Holds.processBlock (w := w.on d) hon hholds hsmall hgood hexec hcount).1
  exact hstacks ▸ hworking.holds

/-! ## What is listed -/

/-- The list holds the stacks of an address, each from the top. -/
structure ListsStacks (keyFrom : Blob) (l : List (Address × DelegateState)) (σ : Stacks) :
    Prop where
  known : ∀ e ∈ l, ∃ P : DelegatePair, P.keyFrom = keyFrom ∧ e.1 = Address.ofBlob P.keyTo
  stack : ∀ P : DelegatePair, P.keyFrom = keyFrom →
    (l.filter (fun e => e.1 = Address.ofBlob P.keyTo)).map Prod.snd = σ P

/-- How one record is listed. -/
def listDelegate (keyFrom : Blob) (e : Bytes × Blob) : Except Err (Address × DelegateState) := do
  let secondAddress ← getSecondOnKeyDelegatePair keyFrom e.1
  check (!secondAddress.isEmpty) "Delegate pair address empty"
  let state ← DelegateState.deserialize e.2
  pure (Address.ofBlob secondAddress, state)

theorem size_ne_empty {b : Blob} (h : b.size = 25) : b ≠ ∅ := by
  rintro rfl
  exact absurd h (by decide)

/-- A record of an address belongs to one of its pairs and reads as one of that stack. -/
theorem Holds.listed {n : Int} (h : Holds db n σ) {keyFrom : Blob} (hsize : keyFrom.size = 25)
    {e : Bytes × Blob} (he : e ∈ db.under (DelegatePair.scanFrom keyFrom)) :
    ∃ P : DelegatePair, P.keyFrom = keyFrom ∧ P.scan <+: e.1 ∧ ∃ state,
      DelegateState.deserialize e.2 = .ok state ∧
      listDelegate keyFrom e = .ok (Address.ofBlob P.keyTo, state) := by
  obtain ⟨hpre, hf⟩ := OrdMap.mem_under.mp he
  obtain ⟨P, c, hkey, _⟩ := h.numbered e.1 e.2
    ((DelegatePair.prefix_scanFrom keyFrom).trans hpre) hf
  rw [hkey] at hpre
  have hfrom := DelegatePair.keyFrom_of_scanFrom hsize hpre
  have hscan : P.scan <+: e.1 := hkey ▸ P.scan_prefix c
  have hmem : DelegateState.deserialize e.2 ∈ (σ P).map Except.ok := by
    rw [← h.stack P]
    exact List.mem_map_of_mem (OrdMap.mem_under.mpr ⟨hscan, hf⟩)
  obtain ⟨state, _, hstate⟩ := List.mem_map.mp hmem
  refine ⟨P, hfrom, hscan, state, hstate.symm, ?_⟩
  unfold listDelegate
  rw [hkey, ← hfrom, P.getSecondOnKeyDelegatePair_key, ← hstate]
  have hne : P.keyTo.isEmpty = false := Blob.isEmpty_eq_false.mpr (size_ne_empty P.size_to)
  simp [Bind.bind, Except.bind, hne, Pure.pure, Except.pure]

/-- **The list of the delegations of an address** is its stacks. -/
theorem Holds.getDelegateStates {n : Int} (h : Holds db n σ) {keyFrom : Blob}
    (hsize : keyFrom.size = 25) :
    ∃ l, WorkerMain.getDelegateStates db (Address.ofBlob keyFrom) = .ok l ∧ ListsStacks keyFrom l σ := by
  have hne := size_ne_empty hsize
  -- what each record is listed as, all of them being listed
  let g : Bytes × Blob → Address × DelegateState := fun e =>
    (listDelegate keyFrom e).toOption.getD (Address.unset, default)
  have hg : ∀ e ∈ db.under (DelegatePair.scanFrom keyFrom), listDelegate keyFrom e = .ok (g e) := by
    intro e he
    obtain ⟨P, _, _, state, _, hl⟩ := h.listed hsize he
    show _ = Except.ok ((listDelegate keyFrom e).toOption.getD _)
    rw [hl]
    rfl
  refine ⟨(db.under (DelegatePair.scanFrom keyFrom)).map g, ?_, ?_, ?_⟩
  · unfold WorkerMain.getDelegateStates
    rw [Address.getBinaryString_ofBlob keyFrom (Blob.isEmpty_eq_false.mpr hne)]
    show (db.findAllDelegatedPairKeys keyFrom >>= fun result => result.mapM (listDelegate keyFrom)) = _
    rw [LevelDb.findAllDelegatedPairKeys_eq db hne]
    exact mapM_eq_ok hg
  -- Every entry of the list is a record of a pair of this address,
  · intro x hx
    obtain ⟨e, he, rfl⟩ := List.mem_map.mp hx
    obtain ⟨P, hfrom, _, state, _, hl⟩ := h.listed hsize he
    exact ⟨P, hfrom, congrArg Prod.fst (Except.ok.inj ((hg e he).symm.trans hl))⟩
  · intro P hfrom
    -- and those of one pair are the records under its own prefix.
    have hselect : ((db.under (DelegatePair.scanFrom keyFrom)).filter
        (fun e => (g e).1 = Address.ofBlob P.keyTo)) = db.under P.scan := by
      refine OrdMap.Increasing.ext (OrdMap.increasing_under.filter _) OrdMap.increasing_under ?_
      intro e
      rw [List.mem_filter, decide_eq_true_iff]
      constructor
      · rintro ⟨he, hto⟩
        obtain ⟨Q, hQ, hscan, state, _, hl⟩ := h.listed hsize he
        rw [congrArg Prod.fst (Except.ok.inj ((hg e he).symm.trans hl))] at hto
        have hPQ : Q = P := by
          cases Q; cases P
          simp only at hQ hfrom
          simp only [Address.ofBlob, Address.mk.injEq, and_true] at hto
          subst hQ hto
          simp [hfrom]
        exact OrdMap.mem_under.mpr ⟨hPQ ▸ hscan, (OrdMap.mem_under.mp he).2⟩
      · intro he
        obtain ⟨hscan, hf⟩ := OrdMap.mem_under.mp he
        have he' : e ∈ db.under (DelegatePair.scanFrom keyFrom) :=
          OrdMap.mem_under.mpr ⟨hfrom ▸ P.scanFrom_prefix.trans hscan, hf⟩
        obtain ⟨Q, _, hQ, state, _, hl⟩ := h.listed hsize he'
        obtain rfl := DelegatePair.eq_of_prefix hQ hscan
        exact ⟨he', congrArg Prod.fst (Except.ok.inj ((hg e he').symm.trans hl))⟩
    rw [List.filter_map]
    show List.map Prod.snd (List.map g (List.filter (fun e => decide ((g e).1 = _)) _)) = σ P
    rw [hselect]
    -- each record reads as its delegation
    have hstates : (db.under P.scan).map (fun e => (Except.ok (g e).2 : Except Err DelegateState)) =
        (σ P).map .ok := by
      rw [← h.stack P]
      refine List.map_congr_left (fun e he => ?_)
      have he' : e ∈ db.under (DelegatePair.scanFrom keyFrom) := by
        obtain ⟨hscan, hf⟩ := OrdMap.mem_under.mp he
        exact OrdMap.mem_under.mpr ⟨hfrom ▸ P.scanFrom_prefix.trans hscan, hf⟩
      obtain ⟨Q, _, _, state, hstate, hl⟩ := h.listed hsize he'
      rw [hstate, congrArg Prod.snd (Except.ok.inj ((hg e he').symm.trans hl))]
    have hinj : Function.Injective (Except.ok : DelegateState → Except Err DelegateState) :=
      fun _ _ h => Except.ok.inj h
    rw [List.map_map]
    refine List.map_injective_iff.mpr hinj ?_
    rw [List.map_map]
    exact hstates

/--
**The delegations are stacks.** In every run in which the counter does not pass
zero the database lists the stacks of the blocks written, and the statuses that
the next block gives its delegations are those of the stacks.
-/
theorem delegations_are_stacks {w : WorkerMain}
    (hon : (w.modules.balance || w.modules.txs || w.modules.addrTxs) = true) {d : LevelDb}
    {m : MainMemory} {blocks : List BlockInfo} (hrun : Reached w (fun n => 0 ≤ n) d m blocks)
    (hpairs : ∀ bi ∈ blocks, BlockBetweenAddresses bi) :
    (∀ keyFrom : Blob, keyFrom.size = 25 → ∃ l,
      WorkerMain.getDelegateStates d (Address.ofBlob keyFrom) = .ok l ∧
        ListsStacks keyFrom l (stacksAfter blocks)) ∧
    ∀ bi statuses d' m', (w.on d).worker m bi = (.written statuses, d', m') → 0 ≤ m'.countVal →
      BlockBetweenAddresses bi →
      statuses = (delegationRun bi.blockNumber (blockTxs bi) (stacksAfter blocks)).2 := by
  have h := runHolds hon hrun hpairs
  refine ⟨fun keyFrom hsize => h.holds.getDelegateStates hsize, ?_⟩
  intro bi statuses d' m' hround hcount hbi
  rcases worker_cases hround with ⟨statuses', s, heq, hexec, _, hm⟩ | ⟨hnot, _⟩
  · obtain rfl := Outcome.written.inj heq
    exact (Holds.processBlock (w := w.on d) hon h.holds h.small hbi hexec (by omega)).2
  · exact absurd rfl (hnot statuses)

/-! ## Runs on fixed blocks -/

/-- A delegation, or an undelegation, from the address of ones to the address of twos. -/
def plainDelegate (isDelegate : Bool) (value : UInt64) : TransactionInfo :=
  { plainDelegation with
    blockNumber := 1, filePos := ⟨0, Blob.replicate 1 97 Blob.byte_fits⟩
    hash := Blob.replicate 32 value.toUInt8 Blob.hash_fits
    intStatus := some 0, delegate := some { value, isDelegate } }

/-- Two addresses. -/
def plainPair : DelegatePair :=
  ⟨Blob.replicate 25 1 Blob.address_fits, Blob.replicate 25 2 Blob.address_fits, rfl, rfl⟩

/-- What `plainDelegate` puts on the stack. -/
def plainState (value : UInt64) : DelegateState :=
  ⟨value, Blob.replicate 32 value.toUInt8 Blob.hash_fits⟩

/-- With these modules only delegations take numbers. -/
def plainTxs : WorkerMain :=
  { plainMain with modules := ⟨false, true, false, false, false, false, false⟩ }

/-- The stored delegation of this value. -/
def plainBlob (value : UInt64) : Blob :=
  ⟨serializeUInt64 value ++ serializeString (plainState value).hash, by
    rw [List.length_append, length_serializeUInt64, length_serializeString]
    show 8 + (8 + 32) < 2 ^ 63
    decide⟩

/-- Two delegations in the first block, one undelegation in the second. -/
def delegatingBlocks (i : Nat) : BlockInfo :=
  { plainChain [] i with
    txs := if i = 1 then [plainDelegate true 5, plainDelegate true 7] else [plainDelegate false 9] }

/-- What the worker leaves of the first block. -/
def afterOne : Outcome (List (Option TransactionStatus)) × LevelDb × MainMemory :=
  (plainTxs.on ∅).worker (startMemory default) (delegatingBlocks 1)

/-- The second block, after a restart. -/
def afterTwo : Outcome (List (Option TransactionStatus)) × LevelDb × MainMemory :=
  (plainTxs.on afterOne.2.1).worker
    (startMemory (afterOne.2.1.findMainBlock.toOption.getD default)) (delegatingBlocks 2)

theorem delegations_are_stacks_two : ∃ l,
    getDelegateStates afterTwo.2.1 (Address.ofBlob plainPair.keyFrom) = .ok l ∧
      ListsStacks plainPair.keyFrom l (stacksAfter [delegatingBlocks 1, delegatingBlocks 2]) := by
  have hone : Reached plainTxs (fun n => 0 ≤ n) afterOne.2.1 afterOne.2.2 [delegatingBlocks 1] := by
    unfold afterOne
    exact Reached.next Reached.start (delegatingBlocks 1) (by decide +kernel) (by decide +kernel)
  have hrestart := Reached.restart hone
    (show afterOne.2.1.findMainBlock = .ok (afterOne.2.1.findMainBlock.toOption.getD default) by
      decide +kernel)
    (Or.inr (by decide +kernel))
  have htwo : Reached plainTxs (fun n => 0 ≤ n) afterTwo.2.1 afterTwo.2.2
      [delegatingBlocks 1, delegatingBlocks 2] := by
    unfold afterTwo
    exact Reached.next hrestart (delegatingBlocks 2) (by decide +kernel) (by decide +kernel)
  have hpairs : ∀ bi ∈ [delegatingBlocks 1, delegatingBlocks 2], BlockBetweenAddresses bi := by
    intro bi hbi
    rcases List.mem_cons.mp hbi with rfl | hbi
    · decide
    · rw [List.mem_singleton.mp hbi]
      decide
  have hlists := (delegations_are_stacks (w := plainTxs) rfl htwo hpairs).1
  exact hlists plainPair.keyFrom rfl

/-! ## The numbers around -/

/-- A delegation of the block of this number. -/
def delegateIn (n : UInt64) (isDelegate : Bool) (value : UInt64) : TransactionInfo :=
  { plainDelegate isDelegate value with blockNumber := n }

/-- The status of such a transaction. -/
def plainStatus (n value : UInt64) (status : TransactionStatus.Kind) : TransactionStatus :=
  { TransactionStatus.new (plainState value).hash n with isSuccess := true, status }

theorem addTransaction_delegateIn {n : UInt64} (hn : n ≠ 0) (isDelegate : Bool) (value : UInt64)
    (b : Batch) : ∃ v, b.addTransaction (plainState value).hash (delegateIn n isDelegate value) =
      .ok (b.addKeyInternal (literalKey TRANSACTION_PREFIX ++ (plainState value).hash.val) v false) := by
  have hset : check (n != 0) "block number not setted" = .ok () := by simp [check, hn]
  have hser : ∃ v : Blob, (delegateIn n isDelegate value).serialize = .ok v.val := by
    unfold TransactionInfo.serialize
    show ∃ v : Blob, (check (n != 0) _ >>= _) = _
    rw [hset]
    refine ⟨⟨_, ?_⟩, rfl⟩
    simp only [List.length_append, length_serializeUInt64, length_serializeString]
    show 8 + 1 + 8 + 8 + 8 < 2 ^ 63
    decide
  obtain ⟨v, hv⟩ := hser
  exact ⟨v, Batch.addKey_of_serialized hv b _ false⟩

/-- The records of such a transaction, once its status is known. -/
theorem plainTxs_saveTxs {n : UInt64} (hn : n ≠ 0) (isDelegate : Bool) {value : UInt64} {d : LevelDb}
    (header : BlockHeader) (c : Bool) {s t : MainState} {kind : TransactionStatus.Kind}
    (hstatus : ((plainTxs.on d).getInstantDelegateStatus (delegateIn n isDelegate value) n).exec s =
      (.ok (some (plainStatus n value kind)), t))
    (hkind : (∃ v h, kind = .unDelegate v (plainState h).hash) ∨ kind = .delegate) :
    ∃ u v v', ((plainTxs.on d).processTransaction header n c (delegateIn n isDelegate value)).exec s =
        (.ok (some (plainStatus n value kind)), u) ∧
      u.memory.countVal = t.memory.countVal ∧
      u.batch = (t.batch.addKeyInternal
          (literalKey TRANSACTION_PREFIX ++ (plainState value).hash.val) v false).addKeyInternal
        (literalKey TRANSACTION_STATUS_PREFIX ++ (plainState value).hash.val) v' false := by
  obtain ⟨v, hv⟩ := addTransaction_delegateIn hn isDelegate value t.batch
  generalize hb : t.batch.addKeyInternal
    (literalKey TRANSACTION_PREFIX ++ (plainState value).hash.val) v false = b at hv
  have hsave : (saveTransaction (delegateIn n isDelegate value)).exec t =
      (.ok (), { t with batch := b }) := by
    unfold saveTransaction onBatch
    refine exec_tryUpdate_ok.mpr ?_
    show (t.batch.addTransaction (plainState value).hash (delegateIn n isDelegate value)).map _ = _
    rw [hv]
    rfl
  -- The transaction, its status and what the status says of it are written one by one.
  have hrest : ∃ u v', (saveTransactionStatus (plainStatus n value kind) n).exec
      { t with batch := b } = (.ok (), u) ∧ u.memory.countVal = t.memory.countVal ∧
      u.batch = b.addKeyInternal
        (literalKey TRANSACTION_STATUS_PREFIX ++ (plainState value).hash.val) v' false := by
    rcases hkind with ⟨_, _, rfl⟩ | rfl
    · exact ⟨_, _, rfl, rfl, rfl⟩
    · exact ⟨_, _, rfl, rfl, rfl⟩
  obtain ⟨u, v', hu, hcount, hbatch⟩ := hrest
  have htxs : ((plainTxs.on d).saveTxs n (delegateIn n isDelegate value)
      (some (plainStatus n value kind))).exec t = (.ok (), u) :=
    exec_bind_ok.mpr ⟨(), _, hsave, exec_bind_ok.mpr ⟨(), u, hu, rfl⟩⟩
  have hrecords : ((plainTxs.on d).saveRecords header n (delegateIn n isDelegate value)).exec s =
      (.ok (some (plainStatus n value kind)), u) :=
    exec_bind_ok.mpr ⟨_, t, hstatus, exec_bind_ok.mpr ⟨(), t, rfl,
      exec_bind_ok.mpr ⟨(), u, htxs, rfl⟩⟩⟩
  exact ⟨u, v, v', exec_bind_ok.mpr ⟨_, u, hrecords, rfl⟩, hcount, by rw [hbatch, hb]⟩

/-- Apart from the records of such a transaction. -/
theorem spares_saveTxs {p : Bytes} (htx : Apart p (ascii TRANSACTION_PREFIX.toList))
    (hstatus : Apart p (ascii TRANSACTION_STATUS_PREFIX.toList)) (b : Batch) (hash : Blob)
    (v v' : Blob) : b.Spares p ((b.addKeyInternal (literalKey TRANSACTION_PREFIX ++ hash.val) v
      false).addKeyInternal (literalKey TRANSACTION_STATUS_PREFIX ++ hash.val) v' false) :=
  (Batch.Spares.addKeyInternal (htx.not_prefix (List.prefix_append _ _)) v false).trans
    (Batch.Spares.addKeyInternal (hstatus.not_prefix (List.prefix_append _ _)) v' false)

/-- **A delegation** takes a number and stands under it. -/
theorem plainTxs_delegate {n : UInt64} (hn : n ≠ 0) (value : UInt64) (d : LevelDb)
    (header : BlockHeader) (c : Bool) (s : MainState) :
    ∃ u, ((plainTxs.on d).processTransaction header n c (delegateIn n true value)).exec s =
        (.ok (some (plainStatus n value .delegate)), u) ∧
      u.memory.countVal = s.memory.countVal - 1 ∧
      ∀ p, Apart p (ascii TRANSACTION_PREFIX.toList) →
        Apart p (ascii TRANSACTION_STATUS_PREFIX.toList) →
        (s.batch.addKeyInternal (plainPair.key (UInt64.ofInt s.memory.countVal))
          (plainBlob value) true).Spares p u.batch := by
  have hstatus : ∃ t, ((plainTxs.on d).getInstantDelegateStatus (delegateIn n true value) n).exec s =
      (.ok (some (plainStatus n value .delegate)), t) ∧
      t.memory.countVal = s.memory.countVal - 1 ∧
      t.batch = s.batch.addKeyInternal (plainPair.key (UInt64.ofInt s.memory.countVal))
        (plainBlob value) true := ⟨_, rfl, rfl, rfl⟩
  obtain ⟨t, ht, hcount, hbatch⟩ := hstatus
  obtain ⟨u, v, v', hu, hcount', hbatch'⟩ := plainTxs_saveTxs hn true header c ht (Or.inr rfl)
  refine ⟨u, hu, hcount'.trans hcount, fun p htx hst => ?_⟩
  rw [hbatch', ← hbatch]
  exact spares_saveTxs htx hst _ _ _ _

/-- **An undelegation** takes the first record of the database, in a block that did not delegate. -/
theorem plainTxs_undelegate {n : UInt64} (hn : n ≠ 0) {d : LevelDb} (header : BlockHeader) (c : Bool)
    (m : MainMemory) {e : Bytes × Blob} {rest : List (Bytes × Blob)} {value : UInt64}
    (htop : d.under plainPair.scan = e :: rest)
    (hvalue : DelegateState.deserialize e.2 = .ok (plainState value)) :
    ∃ u, ((plainTxs.on d).processTransaction header n c (delegateIn n false 9)).exec (blockStart m) =
      (.ok (some (plainStatus n 9 (.unDelegate value (plainState value).hash))), u) := by
  have hfind : (plainTxs.on d).leveldb.findDelegateKey plainPair.name
      (blockStart m).batch.getDeletedDelegate = .ok (e.1, plainState value) := by
    refine bind_eq_ok.mpr ⟨_, plainPair.makeKey_scan, ?_⟩
    have hfirst : (plainTxs.on d).leveldb.findFirstOf plainPair.scan
        (blockStart m).batch.getDeletedDelegate = some e := by
      show d.findFirstOf _ _ = _
      rw [LevelDb.findFirstOf_eq, htop]
      rfl
    simp only [hfirst]
    exact bind_eq_ok.mpr ⟨_, hvalue, rfl⟩
  have hkey : e.1.isEmpty = false := by
    have hpre := (OrdMap.mem_under.mp (show e ∈ d.under plainPair.scan from
      htop ▸ List.mem_cons_self)).1
    cases he : e.1 with
    | nil => rw [he] at hpre; exact absurd hpre (by decide)
    | cons a l => rfl
  -- The record is found in the database and taken out.
  have htake : ∃ t, ((plainTxs.on d).takeDelegate plainPair.name).exec (blockStart m) =
      (.ok (plainState value), t) := by
    refine ⟨{ blockStart m with batch := (blockStart m).batch.removeValue e.1 }, ?_⟩
    rw [takeDelegate_of_nil rfl]
    unfold takeFromLeveldb
    rw [exec_read_bind]
    refine exec_lift_bind_ok.mpr ⟨_, hfind, ?_⟩
    simp only [hkey, Bool.false_eq_true, if_false]
    rfl
  obtain ⟨t, ht⟩ := htake
  have hstatus : ((plainTxs.on d).getInstantDelegateStatus (delegateIn n false 9) n).exec
      (blockStart m) = (.ok (some (plainStatus n 9 (.unDelegate value (plainState value).hash))), t) :=
    exec_lift_bind_ok.mpr ⟨(), rfl, exec_bind_ok.mpr ⟨_, t, exec_lift_bind_ok.mpr ⟨_, rfl,
      exec_lift_bind_ok.mpr ⟨_, rfl, exec_lift_bind_ok.mpr ⟨_, rfl,
        exec_bind_ok.mpr ⟨_, t, ht, rfl⟩⟩⟩⟩, rfl⟩⟩
  obtain ⟨u, _, _, hu, _⟩ := plainTxs_saveTxs hn false header c hstatus (Or.inl ⟨value, value, rfl⟩)
  exact ⟨u, hu⟩

theorem apart_common : Apart (literalKey COMMON_BALANCE_KEY) delegatePrefix := by decide

/-- Delegations on end take a number each. -/
theorem plainTxs_replicate {n : UInt64} (hn : n ≠ 0) (d : LevelDb) (header : BlockHeader) (c : Bool) :
    ∀ (k : Nat) (s : MainState), ∃ statuses s', ((plainTxs.on d).processTransactions header n c
        (List.replicate k (delegateIn n true 5))).exec s = (.ok statuses, s') ∧
      s'.memory.countVal = s.memory.countVal - k ∧
      s.batch.Spares (literalKey COMMON_BALANCE_KEY) s'.batch
  | 0, s => ⟨[], s, rfl, by simp, Batch.Spares.refl _ _⟩
  | k + 1, s => by
      obtain ⟨t, htx, hcount, hspares⟩ := plainTxs_delegate hn 5 d header c s
      obtain ⟨statuses, s', hrest, hcount', hspares'⟩ := plainTxs_replicate hn d header c k t
      refine ⟨_, s', exec_bind_ok.mpr ⟨_, t, htx, exec_bind_ok.mpr ⟨statuses, s', hrest, rfl⟩⟩,
        ?_, ?_⟩
      · rw [hcount', hcount]
        push_cast
        omega
      · have hkey := apart_common.not_prefix (plainPair.prefix_key (UInt64.ofInt s.memory.countVal))
        exact ((Batch.Spares.addKeyInternal hkey _ true).trans
          (hspares _ (by decide) (by decide))).trans hspares'

/-- A block of as many delegations of 5. -/
def delegatingBlock (size height : Nat) : BlockInfo :=
  chainBlock (List.replicate size (delegateIn (UInt64.ofNat height) true 5)) height

/-- So many of them, one after the other. -/
def delegatingChain (count size : Nat) : List BlockInfo :=
  (List.range count).map (fun i => delegatingBlock size (i + 1))

/-- A block that delegates 7. -/
def lastDelegation (height : Nat) : BlockInfo :=
  chainBlock [delegateIn (UInt64.ofNat height) true 7] height

/-- A block that takes back one delegation. -/
def undelegatingBlock (height : Nat) : BlockInfo :=
  chainBlock [delegateIn (UInt64.ofNat height) false 9] height

theorem delegatingBlock_stacks (size height : Nat) (σ : Stacks) :
    (delegationRun (UInt64.ofNat height) (blockTxs (delegatingBlock size height)) σ).1 plainPair =
      List.replicate size (plainState 5) ++ σ plainPair := by
  show (delegationRun _ (List.replicate size _) σ).1 plainPair = _
  induction size generalizing σ with
  | zero => rfl
  | succ size ih =>
      have hstep : (delegationStep (UInt64.ofNat height)
          (delegateIn (UInt64.ofNat height) true 5) σ).1 =
            Function.update σ plainPair (plainState 5 :: σ plainPair) := rfl
      show (delegationRun (UInt64.ofNat height)
        (List.replicate size (delegateIn (UInt64.ofNat height) true 5)) (delegationStep
          (UInt64.ofNat height) (delegateIn (UInt64.ofNat height) true 5) σ).1).1 plainPair = _
      rw [ih, hstep, Function.update_self, List.replicate_succ', List.append_assoc]
      rfl

theorem delegatingChain_stacks (size : Nat) : ∀ count : Nat,
    stacksAfter (delegatingChain count size) plainPair =
      List.replicate (count * size) (plainState 5)
  | 0 => by rw [Nat.zero_mul]; rfl
  | count + 1 => by
      have hchain : delegatingChain (count + 1) size =
          delegatingChain count size ++ [delegatingBlock size (count + 1)] := by
        unfold delegatingChain
        rw [List.range_succ, List.map_append]
        rfl
      rw [hchain, Nat.succ_mul, Nat.add_comm (count * size), List.replicate_add,
        ← delegatingChain_stacks size count]
      unfold stacksAfter
      rw [List.foldl_append]
      exact delegatingBlock_stacks size (count + 1) _

/-- What is to be taken back behind the last delegation is its 7. -/
theorem undelegatingBlock_stacks (blocks : List BlockInfo) (height : Nat) :
    (delegationRun (undelegatingBlock (height + 1)).blockNumber
      (blockTxs (undelegatingBlock (height + 1)))
      (stacksAfter (blocks ++ [lastDelegation height]))).2 =
        [some (plainStatus (UInt64.ofNat (height + 1)) 9 (.unDelegate 7 (plainState 7).hash))] := by
  have hpush : ∀ σ : Stacks, (delegationRun (lastDelegation height).blockNumber
      (blockTxs (lastDelegation height)) σ).1 plainPair = plainState 7 :: σ plainPair := by
    intro σ
    have hstep : (delegationStep (UInt64.ofNat height)
        (delegateIn (UInt64.ofNat height) true 7) σ).1 =
          Function.update σ plainPair (plainState 7 :: σ plainPair) := rfl
    show (delegationStep (UInt64.ofNat height)
      (delegateIn (UInt64.ofNat height) true 7) σ).1 plainPair = _
    rw [hstep, Function.update_self]
  have hσ : stacksAfter (blocks ++ [lastDelegation height]) plainPair =
      plainState 7 :: stacksAfter blocks plainPair := by
    unfold stacksAfter
    rw [List.foldl_append]
    exact hpush _
  generalize stacksAfter (blocks ++ [lastDelegation height]) = σ at hσ ⊢
  show [some { TransactionStatus.new (plainState 9).hash (UInt64.ofNat (height + 1)) with
    isSuccess := true
    status := .unDelegate ((σ plainPair).headD default).value ((σ plainPair).headD default).hash }] = _
  rw [hσ]
  rfl

/-- The blocks of 5 are taken in, with all numbers but one used up. -/
theorem reached_delegatingChain {count size : Nat} (hall : count * size = 2 ^ 64 - 1)
    (hcount : count < 2 ^ 64) : ∃ d m,
      Reached plainTxs (fun n => 0 ≤ n) d m (delegatingChain count size) ∧
      d.find? (literalKey COMMON_BALANCE_KEY) = none ∧ m.countVal = 0 ∧ StandsAt d count ∧
      d.findMainBlock = .ok ⟨UInt64.ofNat count, heightHash count, 0⟩ := by
  have hblock : ∀ (d : LevelDb) (m : MainMemory) (i : Nat), i ≠ 0 → i < 2 ^ 64 →
      d.find? (literalKey COMMON_BALANCE_KEY) = none → ∃ statuses s,
      ((plainTxs.on d).processBlock (delegatingBlock size i) (UInt64.ofNat i)).exec (blockStart m) =
        (.ok statuses, s) ∧ s.memory.countVal = m.countVal - size ∧
        (addBatch s.batch d).find? (literalKey COMMON_BALANCE_KEY) = none := by
    intro d m i hi hi' hnone
    have hn := ofNat_ne_zero hi hi'
    obtain ⟨statuses, u, htxs, hu, hspares⟩ := plainTxs_replicate hn d
      (delegatingBlock size i).header (decide (0 < UInt64.ofNat i)) size (blockStart m)
    obtain ⟨s, v, hs, hcount, hbatch⟩ := processBlock_chainBlock rfl rfl hnone hn htxs
    refine ⟨statuses, s, hs, hcount.trans hu, ?_⟩
    rw [hbatch, find?_addBatch_addKeyInternal, if_neg (by decide),
      hspares.find?_addBatch d (List.prefix_refl _)]
    exact hnone
  exact @reached_all _ (fun d => d.find? (literalKey COMMON_BALANCE_KEY) = none)
    (fun i => List.replicate size (delegateIn (UInt64.ofNat i) true 5)) _ _ hall hcount rfl hblock

theorem delegatingBlock_between (size height : Nat) :
    BlockBetweenAddresses (delegatingBlock size height) ∧
      (delegatingBlock size height).txs.length = size := by
  refine ⟨fun tx htx => ?_, List.length_replicate⟩
  rw [List.eq_of_mem_replicate (show tx ∈ List.replicate size _ from htx)]
  exact fun _ => rfl

theorem lastBlocks_between (height : Nat) :
    (BlockBetweenAddresses (lastDelegation height) ∧ (lastDelegation height).txs.length = 1) ∧
    (BlockBetweenAddresses (undelegatingBlock height) ∧
      (undelegatingBlock height).txs.length = 1) := by
  refine ⟨⟨fun tx htx => ?_, rfl⟩, ⟨fun tx htx => ?_, rfl⟩⟩
  · rw [List.mem_singleton.mp htx]
    exact fun _ => rfl
  · rw [List.mem_singleton.mp htx]
    exact fun _ => rfl

/-- After a restart the next delegation gets the largest number again, behind all others. -/
theorem delegatingChain_around {count size : Nat} (hall : count * size = 2 ^ 64 - 1)
    (hcount : count + 2 < 2 ^ 64) : ∃ d m statuses d' m',
      Reached plainTxs (fun _ => True) d m
        (delegatingChain count size ++ [lastDelegation (count + 1)]) ∧
      (plainTxs.on d).worker m (undelegatingBlock (count + 2)) = (.written statuses, d', m') ∧
      statuses =
        [some (plainStatus (UInt64.ofNat (count + 2)) 9 (.unDelegate 5 (plainState 5).hash))] := by
  obtain ⟨d, m, hrun, hnone, hm, hstands, hrecord⟩ := reached_delegatingChain hall (by omega)
  have hbetween : ∀ bi ∈ delegatingChain count size, BlockBetweenAddresses bi := by
    intro bi hbi
    obtain ⟨i, _, rfl⟩ := List.mem_map.mp hbi
    exact (delegatingBlock_between size (i + 1)).1
  have hholds : Holds d m.countVal (stacksAfter (delegatingChain count size)) :=
    (runHolds rfl hrun hbetween).holds
  -- the first two of the records, the second not above the largest number
  have hstack := hholds.stack plainPair
  obtain ⟨k, hk⟩ : ∃ k, count * size = k + 1 + 1 := ⟨2 ^ 64 - 3, by omega⟩
  rw [delegatingChain_stacks, hk, List.replicate_succ, List.replicate_succ] at hstack
  obtain ⟨e, e', rest, htop⟩ : ∃ e e' rest, d.under plainPair.scan = e :: e' :: rest := by
    cases hu : d.under plainPair.scan with
    | nil => rw [hu] at hstack; exact absurd hstack (by simp)
    | cons e l =>
        cases l with
        | nil => rw [hu] at hstack; exact absurd hstack (by simp)
        | cons e' rest => exact ⟨e, e', rest, rfl⟩
  rw [htop] at hstack
  have hvalue : DelegateState.deserialize e.2 = .ok (plainState 5) := (List.cons.inj hstack).1
  have hbehind : e.1 < plainPair.key (UInt64.ofInt (2 ^ 64 - 1)) := by
    have hinc : OrdMap.Increasing (e :: e' :: rest) := htop ▸ OrdMap.increasing_under
    have hlt := (List.pairwise_cons.mp hinc).1 e' List.mem_cons_self
    obtain ⟨c, hc, _⟩ := hholds.numbered.of_under (P := plainPair) (e := e)
      (by rw [htop]; exact List.mem_cons_self)
    obtain ⟨c', hc', _⟩ := hholds.numbered.of_under (P := plainPair) (e := e')
      (by rw [htop]; exact List.mem_cons_of_mem _ List.mem_cons_self)
    rw [hc, hc', DelegatePair.key_lt_key] at hlt
    rw [hc, DelegatePair.key_lt_key]
    have hmax : (UInt64.ofInt (2 ^ 64 - 1)).toNat = 2 ^ 64 - 1 := by decide
    have := c'.toNat_lt
    omega
  obtain ⟨m₀, hrestart, hcount₀⟩ := hrun.restart_zero hrecord rfl
  -- the 7
  have hn₁ : UInt64.ofNat (count + 1) ≠ 0 := ofNat_ne_zero (by omega) (by omega)
  obtain ⟨u₁, htx₁, _, hspares⟩ := plainTxs_delegate hn₁ 7 d (lastDelegation (count + 1)).header
    (decide (0 < UInt64.ofNat (count + 1))) (blockStart m₀)
  have htxs₁ : ((plainTxs.on d).processTransactions (lastDelegation (count + 1)).header
      (UInt64.ofNat (count + 1)) (decide (0 < UInt64.ofNat (count + 1)))
      [delegateIn (UInt64.ofNat (count + 1)) true 7]).exec (blockStart m₀) = (.ok [_], u₁) :=
    exec_bind_ok.mpr ⟨_, u₁, htx₁, exec_bind_ok.mpr ⟨[], u₁, rfl, rfl⟩⟩
  obtain ⟨s₁, v₁, hexec₁, _, hbatch₁⟩ := processBlock_chainBlock rfl rfl hnone hn₁ htxs₁
  obtain ⟨m₁, _, _, hrun₁, hstands₁, _⟩ :=
    hrestart.next_chainBlock (by omega) hstands hexec₁ trivial
  have hdb : ∀ p, Apart p (ascii TRANSACTION_PREFIX.toList) →
      Apart p (ascii TRANSACTION_STATUS_PREFIX.toList) →
      Apart p (literalKey MAIN_BLOCK_NUMBER_PREFIX) → ∀ k, p <+: k →
      (addBatch s₁.batch d).find? k =
        (d.insert (plainPair.key (UInt64.ofInt (2 ^ 64 - 1))) (plainBlob 7)).find? k := by
    intro p htx hst hblock k hk
    have hmain : ¬p <+: literalKey MAIN_BLOCK_NUMBER_PREFIX := hblock.not_prefix (List.prefix_refl _)
    rw [hbatch₁, (Batch.Spares.addKeyInternal hmain v₁ false).find?_addBatch d hk,
      (hspares p htx hst).find?_addBatch d hk, addBatch_addKeyInternal]
    show (OrdMap.insert _ (plainPair.key (UInt64.ofInt m₀.countVal)) _).find? k = _
    rw [hcount₀]
    rfl
  obtain ⟨rest', htop₁⟩ : ∃ rest', (addBatch s₁.batch d).under plainPair.scan = e :: rest' := by
    obtain ⟨rest', hrest'⟩ := OrdMap.under_insert_behind (v := plainBlob 7) htop hbehind
    refine ⟨rest', hrest' ▸ OrdMap.under_congr (fun k hk => ?_)⟩
    exact hdb delegatePrefix (by decide) (by decide) (by decide) k (plainPair.prefix_scan.trans hk)
  have hnone₁ : (addBatch s₁.batch d).find? (literalKey COMMON_BALANCE_KEY) = none := by
    have hkey : literalKey COMMON_BALANCE_KEY ≠ plainPair.key (UInt64.ofInt (2 ^ 64 - 1)) := by
      decide
    rw [hdb (literalKey COMMON_BALANCE_KEY) (by decide) (by decide) (by decide) _
      (List.prefix_refl _), OrdMap.find?_insert_ne hkey, hnone]
  -- and what is taken back
  have hn₂ : UInt64.ofNat (count + 2) ≠ 0 := ofNat_ne_zero (by omega) (by omega)
  obtain ⟨u₂, htx₂⟩ := plainTxs_undelegate hn₂ (undelegatingBlock (count + 2)).header
    (decide (0 < UInt64.ofNat (count + 2))) m₁ htop₁ hvalue
  have htxs₂ : ((plainTxs.on (addBatch s₁.batch d)).processTransactions
      (undelegatingBlock (count + 2)).header (UInt64.ofNat (count + 2))
      (decide (0 < UInt64.ofNat (count + 2)))
      [delegateIn (UInt64.ofNat (count + 2)) false 9]).exec (blockStart m₁) = (.ok [_], u₂) :=
    exec_bind_ok.mpr ⟨_, u₂, htx₂, exec_bind_ok.mpr ⟨[], u₂, rfl, rfl⟩⟩
  obtain ⟨s₂, v₂, hexec₂, _, hbatch₂⟩ := processBlock_chainBlock rfl rfl hnone₁ hn₂ htxs₂
  obtain ⟨m₂, hwritten, _⟩ := hrun₁.next_chainBlock (by omega) hstands₁ hexec₂ trivial
  exact ⟨_, m₁, _, _, m₂, hrun₁, hwritten, rfl⟩

/--
**Once the counter has gone around** a delegation stands behind the older ones, and one of these
is taken back in its place: after 2^64 - 1 delegations of 5, 65535 a block, and a restart, 7 is
delegated and a 5 taken back.
-/
theorem counter_around :
    (∀ bi ∈ delegatingChain 281479271743489 65535 ++ [lastDelegation 281479271743490,
      undelegatingBlock 281479271743491], BlockBetweenAddresses bi ∧ bi.txs.length ≤ 65535) ∧
    ∃ d m statuses d' m', Reached plainTxs (fun _ => True) d m
        (delegatingChain 281479271743489 65535 ++ [lastDelegation 281479271743490]) ∧
      (plainTxs.on d).worker m (undelegatingBlock 281479271743491) = (.written statuses, d', m') ∧
      statuses ≠ (delegationRun (undelegatingBlock 281479271743491).blockNumber
        (blockTxs (undelegatingBlock 281479271743491))
        (stacksAfter (delegatingChain 281479271743489 65535 ++
          [lastDelegation 281479271743490]))).2 := by
  constructor
  · intro bi hbi
    rcases List.mem_append.mp hbi with hbi | hbi
    · obtain ⟨i, _, rfl⟩ := List.mem_map.mp hbi
      exact ⟨(delegatingBlock_between _ _).1, (delegatingBlock_between _ _).2.le⟩
    · rcases List.mem_cons.mp hbi with rfl | hbi
      · obtain ⟨hpair, hlen⟩ := (lastBlocks_between 281479271743490).1
        exact ⟨hpair, by omega⟩
      · rw [List.mem_singleton.mp hbi]
        obtain ⟨hpair, hlen⟩ := (lastBlocks_between 281479271743491).2
        exact ⟨hpair, by omega⟩
  · obtain ⟨d, m, statuses, d', m', hrun, hround, hstatuses⟩ :=
      @delegatingChain_around 281479271743489 65535 (by decide) (by decide)
    refine ⟨d, m, statuses, d', m', hrun, hround, ?_⟩
    rw [hstatuses, undelegatingBlock_stacks]
    decide

end WorkerMain

end TorrentNode
