import Mathlib.Data.List.TakeWhile
import TorrentNode.Storage.Frames
import TorrentNode.Workers.Main

/-!
# What the main worker leaves alone

Most of what the main worker does to a block has nothing to do with tokens or
with delegations. Such a step puts records of other kinds into the batch, takes
a number off the counter, or changes the cache, the balances or the sums it
keeps: a relation that admits these changes holds over any run of such steps.
-/

namespace TorrentNode

namespace WorkerMain

open Effect

/-- Apart from the prefixes of these kinds of records. -/
def AwayFrom (kinds : List String) (p : Bytes) : Prop := ∀ q ∈ kinds, Apart p (ascii q.toList)

instance (kinds : List String) (p : Bytes) : Decidable (AwayFrom kinds p) :=
  inferInstanceAs (Decidable (∀ q ∈ _, _))

theorem AwayFrom.mono {kinds kinds' : List String} {p : Bytes} (h : AwayFrom kinds p)
    (hsub : ∀ q ∈ kinds', q ∈ kinds) : AwayFrom kinds' p := fun q hq => h q (hsub q hq)

/-- Apart from the prefixes of every kind of record but tokens and delegations. -/
def Foreign (p : Bytes) : Prop :=
  ∀ q ∈ [ADDRESS_PREFIX, ADDRESS_TOKEN_PREFIX, ADDRESS_STATUS_PREFIX, BALANCE_PREFIX,
    TRANSACTION_PREFIX, TRANSACTION_STATUS_PREFIX, MAIN_BLOCK_NUMBER_PREFIX, COMMON_BALANCE_KEY,
    FORGING_SUMS_ALL], Apart p (ascii q.toList)

instance (p : Bytes) : Decidable (Foreign p) := inferInstanceAs (Decidable (∀ q ∈ _, _))

theorem Foreign.away {kinds : List String} {p : Bytes} (h : Foreign p)
    (hsub : ∀ q ∈ kinds, q ∈ [ADDRESS_PREFIX, ADDRESS_TOKEN_PREFIX, ADDRESS_STATUS_PREFIX,
      BALANCE_PREFIX, TRANSACTION_PREFIX, TRANSACTION_STATUS_PREFIX, MAIN_BLOCK_NUMBER_PREFIX,
      COMMON_BALANCE_KEY, FORGING_SUMS_ALL]) : AwayFrom kinds p := fun q hq => h q (hsub q hq)

theorem onBatch_ok {f : Batch → Except Err Batch} {s s' : MainState} {u : Unit}
    (h : (onBatch f).exec s = (.ok u, s')) :
    f s.batch = .ok s'.batch ∧ s' = { s with batch := s'.batch } := by
  have hmap := exec_tryUpdate_ok.mp h
  obtain ⟨b, hb, rfl⟩ := map_eq_ok.mp hmap
  exact ⟨hb, rfl⟩

/-- Relations that admit what does not concern the prefix `p`. -/
class Admits (p : Bytes) (R : MainState → MainState → Prop) : Prop extends Frame R where
  batch : ∀ (s : MainState) (b : Batch), s.batch.Spares p b → R s { s with batch := b }
  counter : ∀ s : MainState,
    R s { s with memory := { s.memory with countVal := s.memory.countVal - 1 } }
  statuses : ∀ (s : MainState) (c : StatusCache),
    R s { s with memory := { s.memory with txsStatusCache := c } }
  balances : ∀ (s : MainState) (b : OrdMap Blob BalanceInfo), R s { s with balances := b }
  common : ∀ (s : MainState) (c : CommonBalance), R s { s with commonBalance := c }

/-- Two relations at once. -/
def Both (R R' : MainState → MainState → Prop) (s s' : MainState) : Prop := R s s' ∧ R' s s'

instance {R R' : MainState → MainState → Prop} [Frame R] [Frame R'] : Frame (Both R R') where
  refl s := ⟨Frame.refl s, Frame.refl s⟩
  trans h h' := ⟨Frame.trans h.1 h'.1, Frame.trans h.2 h'.2⟩

instance {p : Bytes} {R R' : MainState → MainState → Prop} [Admits p R] [Admits p R'] :
    Admits p (Both R R') where
  batch s b hb := ⟨Admits.batch s b hb, Admits.batch s b hb⟩
  counter s := ⟨Admits.counter p s, Admits.counter p s⟩
  statuses s c := ⟨Admits.statuses p s c, Admits.statuses p s c⟩
  balances s b := ⟨Admits.balances p s b, Admits.balances p s b⟩
  common s c := ⟨Admits.common p s c, Admits.common p s c⟩

variable {p : Bytes} {R : MainState → MainState → Prop} [Admits p R]

section Steps

theorem keeps_onBatch {f : Batch → Except Err Batch} (p : Bytes) [Admits p R]
    (h : ∀ b b', f b = .ok b' → b.Spares p b') : Keeps R (onBatch f) := by
  refine keeps_tryUpdate ?_
  intro s _ hs
  obtain ⟨b, hb, rfl⟩ := map_eq_ok.mp hs
  exact Admits.batch s b (h _ _ hb)

/-- A record under a prefix that is apart from `p`. -/
theorem keeps_addKey {q : String} {args : List KeyPart} {serialized : Except Err Bytes}
    {isSave : Bool} (p : Bytes) [Admits p R] (hq : Apart p (ascii q.toList)) :
    Keeps R (onBatch (fun b => do
      let key ← makeKey (.lit q :: args)
      b.addKey key serialized isSave)) :=
  keeps_onBatch p (fun _ _ h => Batch.Spares.addKey_makeKey hq h)

/-- A record whose key is a literal. -/
theorem keeps_addLiteral {q : String} {serialized : Except Err Bytes} (p : Bytes) [Admits p R]
    (hq : Apart p (ascii q.toList)) :
    Keeps R (onBatch (fun b => b.addKey (literalKey q) serialized false)) :=
  keeps_onBatch p (fun _ _ h => Batch.Spares.addKey (hq.not_prefix (List.prefix_refl _)) h)

theorem keeps_getCountVal (p : Bytes) [Admits p R] : Keeps R getCountVal :=
  keeps_bind (keeps_read _) (fun _ => keeps_bind (keeps_update (Admits.counter p))
    (fun _ => keeps_pure _))

theorem keeps_onBalance {address : Address} {f : BalanceInfo → Except Err BalanceInfo} (p : Bytes)
    [Admits p R] : Keeps R (onBalance address f) := by
  refine keeps_bind (keeps_lift _) (fun name => keeps_tryUpdate ?_)
  intro s _ hs
  obtain ⟨b, _, rfl⟩ := map_eq_ok.mp hs
  exact Admits.balances p s _

end Steps

/-! ## Delegations -/

/-- The keys on the stacks of delegations are keys of delegations. -/
def DelegateKeys (s : MainState) : Prop :=
  ∀ pair stack, s.delegateCache.find? pair = some stack →
    ∀ key ∈ stack, ascii DELEGATE_PREFIX.toList <+: key

/-- Nothing is done to the records under a prefix, and the counter only runs down. -/
structure LeavesRecords (p : Bytes) (s s' : MainState) : Prop where
  keys : DelegateKeys s'
  batch : s.batch.Spares p s'.batch
  counter : s'.memory.countVal ≤ s.memory.countVal

/-- The same, as far as the stacks of delegations are in order. -/
def SparesRecords (p : Bytes) (s s' : MainState) : Prop := DelegateKeys s → LeavesRecords p s s'

instance : Admits p (SparesRecords p) where
  refl _ h := ⟨h, Batch.Spares.refl _ _, le_refl _⟩
  trans h h' hs := ⟨(h' (h hs).keys).keys, (h hs).batch.trans (h' (h hs).keys).batch,
    (h' (h hs).keys).counter.trans (h hs).counter⟩
  batch _ _ hb h := ⟨h, hb, le_refl _⟩
  counter _ h := ⟨h, Batch.Spares.refl _ _, Int.sub_le_self _ (by decide)⟩
  statuses _ _ h := ⟨h, Batch.Spares.refl _ _, le_refl _⟩
  balances _ _ h := ⟨h, Batch.Spares.refl _ _, le_refl _⟩
  common _ _ h := ⟨h, Batch.Spares.refl _ _, le_refl _⟩

section Delegations

variable {w : WorkerMain} {tx : TransactionInfo} {n : UInt64}

theorem DelegateKeys.insert {s : MainState} (h : DelegateKeys s) {pair : Blob}
    {stack : List Bytes} (hstack : ∀ key ∈ stack, ascii DELEGATE_PREFIX.toList <+: key) :
    DelegateKeys { s with delegateCache := s.delegateCache.insert pair stack } := by
  intro pair' stack' hfind
  rw [OrdMap.find?_insert] at hfind
  split at hfind
  · rw [← Option.some.inj hfind]
    exact hstack
  · exact h pair' stack' hfind

theorem DelegateKeys.stack {s : MainState} (h : DelegateKeys s) (pair : Blob) :
    ∀ key ∈ (s.delegateCache.find? pair).getD [], ascii DELEGATE_PREFIX.toList <+: key := by
  cases hf : s.delegateCache.find? pair with
  | none => simp
  | some stack => exact h pair stack hf

theorem keeps_pushDelegate {pair : Blob} {key : Bytes}
    (hkey : ascii DELEGATE_PREFIX.toList <+: key) :
    Keeps (SparesRecords p) (pushDelegate pair key) := by
  refine keeps_update (fun s h => ⟨h.insert ?_, Batch.Spares.refl _ _, le_refl _⟩)
  intro k hk
  rcases List.mem_cons.mp hk with rfl | hk
  · exact hkey
  · exact h.stack pair k hk

theorem keeps_popDelegate {pair : Blob} : Keeps (SparesRecords p) (popDelegate pair) :=
  keeps_update (fun _ h => ⟨h.insert (fun k hk => h.stack pair k (List.mem_of_mem_tail hk)),
    Batch.Spares.refl _ _, le_refl _⟩)

theorem addDelegateKey_under {b b' : Batch} {pair : Blob} {value : DelegateState}
    {counter : UInt64} {key : Bytes} (hd : Apart p (ascii DELEGATE_PREFIX.toList))
    (h : b.addDelegateKey pair value counter = .ok (key, b')) :
    ascii DELEGATE_PREFIX.toList <+: key ∧ b.Spares p b' := by
  obtain ⟨key', hkey, h⟩ := bind_eq_ok.mp h
  obtain ⟨b'', hadd, h⟩ := bind_eq_ok.mp h
  obtain ⟨rfl, rfl⟩ := Prod.mk.inj (Except.ok.inj h)
  have hpre := prefix_makeKey hkey
  exact ⟨hpre, Batch.Spares.addKey (hd.not_prefix hpre) hadd⟩

theorem findFirstOf_under {db : LevelDb} {key : Bytes} {excluded : List Bytes}
    {e : Bytes × Blob} (h : db.findFirstOf key excluded = some e) : key <+: e.1 := by
  have hmem := List.mem_of_find?_eq_some h
  have hpre := List.mem_takeWhile_imp hmem
  exact List.isPrefixOf_iff_prefix.mp hpre

theorem findDelegateKey_under {db : LevelDb} {pair : Blob} {excluded : List Bytes} {key : Bytes}
    {value : DelegateState} (h : db.findDelegateKey pair excluded = .ok (key, value)) :
    key = [] ∨ ascii DELEGATE_PREFIX.toList <+: key := by
  obtain ⟨key', hkey, h⟩ := bind_eq_ok.mp h
  cases hf : db.findFirstOf key' excluded with
  | none =>
      simp only [hf] at h
      exact Or.inl (Prod.mk.inj (Except.ok.inj h)).1.symm
  | some e =>
      simp only [hf] at h
      obtain ⟨state, _, h⟩ := bind_eq_ok.mp h
      obtain ⟨rfl, _⟩ := Prod.mk.inj (Except.ok.inj h)
      exact Or.inr ((prefix_makeKey hkey).trans (findFirstOf_under hf))

theorem keeps_removeDelegate (hd : Apart p (ascii DELEGATE_PREFIX.toList)) {key : Bytes}
    (hkey : ascii DELEGATE_PREFIX.toList <+: key) :
    Keeps (SparesRecords p) (onBatch (fun b => .ok (b.removeDelegateKey key))) := by
  refine keeps_onBatch p (fun b b' h => ?_)
  obtain rfl := Except.ok.inj h
  exact Batch.Spares.removeValue (hd.not_prefix hkey)

theorem keeps_putDelegate (hd : Apart p (ascii DELEGATE_PREFIX.toList)) {pair hash : Blob}
    {value : UInt64} : Keeps (SparesRecords p) (putDelegate pair value hash) := by
  refine keeps_bind (keeps_getCountVal p) (fun counter => keeps_bind_of ?_ ?_)
  · refine keeps_tryModify ?_
    intro s key s' hs hkeys
    obtain ⟨⟨key', b⟩, hadd, hr⟩ := map_eq_ok.mp hs
    obtain ⟨rfl, rfl⟩ := Prod.mk.inj hr
    exact ⟨hkeys, (addDelegateKey_under hd hadd).2, le_refl _⟩
  · intro s key s' hs
    have hmap := exec_tryModify_ok.mp hs
    obtain ⟨⟨key', b⟩, hadd, hr⟩ := map_eq_ok.mp hmap
    obtain ⟨rfl, rfl⟩ := Prod.mk.inj hr
    exact keeps_pushDelegate (addDelegateKey_under hd hadd).1 _

theorem keeps_takeFromBatch (hd : Apart p (ascii DELEGATE_PREFIX.toList)) {pair : Blob}
    {key : Bytes} (hkey : ascii DELEGATE_PREFIX.toList <+: key) :
    Keeps (SparesRecords p) (takeFromBatch pair key) := by
  refine keeps_bind keeps_popDelegate (fun _ => keeps_bind (keeps_read _) (fun _ =>
    keeps_bind (keeps_lift _) (fun found => ?_)))
  cases found with
  | none => exact keeps_lift _
  | some value => exact keeps_bind (keeps_lift _) (fun _ =>
      keeps_bind (keeps_removeDelegate hd hkey) (fun _ => keeps_pure _))

theorem keeps_takeFromLeveldb (hd : Apart p (ascii DELEGATE_PREFIX.toList)) {pair : Blob} :
    Keeps (SparesRecords p) (w.takeFromLeveldb pair) := by
  refine keeps_bind (keeps_read _) (fun b => keeps_bind_of (keeps_lift _) ?_)
  intro t found t' hlift
  obtain ⟨key, value⟩ := found
  obtain ⟨hfind, rfl⟩ := exec_lift_ok.mp hlift
  cases hkey : key.isEmpty with
  | true =>
      simp only [hkey, if_true]
      exact keeps_pure _ t
  | false =>
      have hpre : ascii DELEGATE_PREFIX.toList <+: key := by
        rcases findDelegateKey_under hfind with rfl | h
        · exact absurd hkey (by simp)
        · exact h
      simp only [hkey, Bool.false_eq_true, if_false]
      exact keeps_bind (keeps_lift _) (fun _ =>
        keeps_bind (keeps_removeDelegate hd hpre) (fun _ => keeps_pure _)) t

theorem keeps_takeDelegate (hd : Apart p (ascii DELEGATE_PREFIX.toList)) {pair : Blob} :
    Keeps (SparesRecords p) (w.takeDelegate pair) := by
  refine keeps_read_bind (fun s hs => ?_)
  have hstack := DelegateKeys.stack hs pair
  cases hc : (s.delegateCache.find? pair).getD [] with
  | nil => exact keeps_takeFromLeveldb hd s hs
  | cons key rest =>
      exact keeps_takeFromBatch hd (hstack key (by rw [hc]; exact List.mem_cons_self)) s hs

theorem keeps_calcTransactionStatusDelegate (hd : Apart p (ascii DELEGATE_PREFIX.toList)) :
    Keeps (SparesRecords p) (w.calcTransactionStatusDelegate tx n) := by
  unfold calcTransactionStatusDelegate
  cases tx.delegate with
  | none => exact keeps_lift _
  | some info =>
      refine keeps_bind (keeps_lift _) (fun _ => keeps_bind (keeps_lift _) (fun _ =>
        keeps_bind (keeps_lift _) (fun _ => keeps_ite (keeps_ite (keeps_pure _) ?_) ?_)))
      · exact keeps_bind (keeps_putDelegate hd) (fun _ => keeps_pure _)
      · exact keeps_bind (keeps_takeDelegate hd) (fun _ => keeps_pure _)

/-- **A delegation spares the records of other kinds.** -/
theorem keeps_delegateStatus (hd : Apart p (ascii DELEGATE_PREFIX.toList)) :
    Keeps (SparesRecords p) (w.getInstantDelegateStatus tx n) :=
  keeps_ite (keeps_bind (keeps_lift _) (fun _ =>
    keeps_bind (keeps_calcTransactionStatusDelegate hd) (fun _ => keeps_pure _))) (keeps_pure _)

end Delegations

/-! ## Records of a transaction -/

variable (p) {w : WorkerMain} {tx : TransactionInfo} {n : UInt64}

include p

theorem keeps_saveTransactionStatus (hp : AwayFrom [TRANSACTION_STATUS_PREFIX] p)
    {status : TransactionStatus} {attr : UInt64} : Keeps R (saveTransactionStatus status attr) :=
  keeps_bind (keeps_addKey p (hp _ (by decide)))
    (fun _ => keeps_update (fun s => Admits.statuses p s _))

theorem keeps_saveTransaction (hp : AwayFrom [TRANSACTION_PREFIX] p) : Keeps R (saveTransaction tx) :=
  keeps_addKey p (hp _ (by decide))

theorem keeps_saveUnderAddress {pre : String} (hpre : Apart p (ascii pre.toList))
    {address : Address} :
    Keeps R (saveUnderAddress (fun b => b.addAddressUnder pre) tx address) :=
  keeps_bind (keeps_lift _) (fun _ => keeps_bind (keeps_getCountVal p)
    (fun _ => keeps_addKey p hpre))

theorem keeps_saveAddressTransaction (hp : AwayFrom [ADDRESS_PREFIX] p) {address : Address} :
    Keeps R (saveAddressTransaction tx address) :=
  keeps_saveUnderAddress p (hp _ (by decide))

theorem keeps_saveAddressTokenTransaction (hp : AwayFrom [ADDRESS_TOKEN_PREFIX] p)
    {address : Address} : Keeps R (saveAddressTokenTransaction tx address) :=
  keeps_saveUnderAddress p (hp _ (by decide))

theorem keeps_saveAddressStatus (hp : AwayFrom [ADDRESS_STATUS_PREFIX] p)
    {status : TransactionStatus} {address : Address} : Keeps R (saveAddressStatus status address) := by
  have hapart : Apart p (ascii ADDRESS_STATUS_PREFIX.toList) := hp _ (by decide)
  refine keeps_bind (keeps_lift _) (fun name => keeps_onBatch p (fun _ _ h => ?_))
  refine Batch.Spares.addKey (hapart.not_prefix ?_) h
  unfold makeAddressStatusKey literalKey
  rw [List.append_assoc, List.append_assoc]
  exact List.prefix_append _ _

theorem keeps_saveHistory (hp : AwayFrom [ADDRESS_PREFIX, ADDRESS_STATUS_PREFIX] p)
    {address : Address} {status : Option TransactionStatus} :
    Keeps R (w.saveHistory address tx status) := by
  refine keeps_ite (keeps_bind (keeps_saveAddressTransaction p (hp.mono (by decide)))
    (fun _ => ?_)) (keeps_pure _)
  cases status with
  | none => exact keeps_pure _
  | some status => exact keeps_saveAddressStatus p (hp.mono (by decide))

theorem keeps_saveAddressBalanceDelegate {status : TransactionStatus} {address : Address} :
    Keeps R (saveAddressBalanceDelegate tx status address) := by
  unfold saveAddressBalanceDelegate
  cases tx.delegate with
  | none => exact keeps_lift _
  | some info => exact keeps_bind (keeps_lift _) (fun _ => keeps_onBalance p)

theorem keeps_saveBalance {isForging : Bool} {address : Address}
    {status : Option TransactionStatus} : Keeps R (w.saveBalance isForging address tx status) := by
  refine keeps_ite (keeps_bind (keeps_onBalance p) (fun _ => ?_)) (keeps_pure _)
  cases tx.delegate with
  | none => exact keeps_pure _
  | some info =>
      cases status with
      | none => exact keeps_pure _
      | some status => exact keeps_saveAddressBalanceDelegate p

theorem keeps_toLeveldb (hp : AwayFrom [ADDRESS_PREFIX, ADDRESS_STATUS_PREFIX] p)
    {isForging : Bool} {address : Address} {status : Option TransactionStatus} :
    Keeps R (w.toLeveldb isForging address tx status) :=
  keeps_bind (keeps_lift _) (fun _ => keeps_ite (keeps_pure _)
    (keeps_bind (keeps_saveHistory p hp) (fun _ => keeps_saveBalance p)))

theorem keeps_toLeveldbBoth (hp : AwayFrom [ADDRESS_PREFIX, ADDRESS_STATUS_PREFIX] p)
    {isForging : Bool} {status : Option TransactionStatus} : Keeps R (w.toLeveldbBoth isForging tx status) :=
  keeps_bind (keeps_toLeveldb p hp) (fun _ => keeps_bind (keeps_lift _)
    (fun _ => keeps_ite (keeps_toLeveldb p hp) (keeps_pure _)))

theorem keeps_saveDelegateStatus (hp : AwayFrom [TRANSACTION_STATUS_PREFIX] p)
    {status : Option TransactionStatus} : Keeps R (saveDelegateStatus n status) := by
  cases status with
  | none => exact keeps_pure _
  | some status => exact keeps_saveTransactionStatus p hp

/-! ## Balances of tokens -/

theorem keeps_saveAddressBalanceCreateToken : Keeps R (saveAddressBalanceCreateToken tx) := by
  unfold saveAddressBalanceCreateToken
  split
  · exact keeps_bind (keeps_each (fun _ => keeps_onBalance p) _) (fun _ => keeps_onBalance p)
  · exact keeps_pure _

theorem keeps_saveAddressBalanceAddToken : Keeps R (saveAddressBalanceAddToken tx) := by
  unfold saveAddressBalanceAddToken
  split
  · exact keeps_onBalance p
  · exact keeps_pure _

theorem keeps_saveAddressBalanceMoveToken : Keeps R (saveAddressBalanceMoveToken tx) := by
  unfold saveAddressBalanceMoveToken
  split
  · exact keeps_bind (keeps_onBalance p) (fun _ => keeps_bind (keeps_lift _)
      (fun _ => keeps_ite (keeps_onBalance p) (keeps_pure _)))
  · exact keeps_pure _

theorem keeps_saveAddressBalanceBurnToken : Keeps R (saveAddressBalanceBurnToken tx) := by
  unfold saveAddressBalanceBurnToken
  split
  · exact keeps_onBalance p
  · exact keeps_pure _

theorem keeps_saveTokenBalances : Keeps R (w.saveTokenBalances tx) :=
  keeps_ite (keeps_bind (keeps_saveAddressBalanceCreateToken p) (fun _ =>
    keeps_bind (keeps_saveAddressBalanceAddToken p) (fun _ =>
      keeps_bind (keeps_saveAddressBalanceMoveToken p)
        (fun _ => keeps_saveAddressBalanceBurnToken p)))) (keeps_pure _)

/-! ## The rest of a block -/

theorem keeps_addCommonBalance {header : BlockHeader} {updateCommonBalance : Bool} :
    Keeps R (w.addCommonBalance header n updateCommonBalance tx) :=
  keeps_ite (keeps_bind (keeps_lift _) (fun _ =>
    keeps_ite (keeps_update (fun s => Admits.common p s _)) (keeps_pure _))) (keeps_pure _)

theorem keeps_saveForgingSums (hp : AwayFrom [FORGING_SUMS_ALL] p) {bi : BlockInfo} :
    Keeps R (w.saveForgingSums bi n) :=
  keeps_ite (keeps_bind (keeps_lift _) (fun _ => keeps_addLiteral p (hp _ (by decide))))
    (keeps_pure _)

theorem keeps_mergeBalance (hp : AwayFrom [BALANCE_PREFIX] p) {e : Blob × BalanceInfo} :
    Keeps R (w.mergeBalance n e) :=
  keeps_bind (keeps_lift _) (fun _ => keeps_ite (keeps_addKey p (hp _ (by decide))) (keeps_pure _))

theorem keeps_saveBalances (hp : AwayFrom [BALANCE_PREFIX] p) : Keeps R (w.saveBalances n) :=
  keeps_ite (keeps_bind (keeps_read _) (fun _ =>
    keeps_each (fun _ => keeps_mergeBalance p hp) _)) (keeps_pure _)

theorem keeps_saveCommonBalance (hp : AwayFrom [COMMON_BALANCE_KEY] p) : Keeps R w.saveCommonBalance :=
  keeps_ite (keeps_bind (keeps_read _) (fun _ => keeps_addLiteral p (hp _ (by decide))))
    (keeps_pure _)

theorem keeps_saveMainBlock (hp : AwayFrom [MAIN_BLOCK_NUMBER_PREFIX] p) {bi : BlockInfo} : Keeps R (saveMainBlock bi n) :=
  keeps_bind (keeps_read _) (fun _ => keeps_addLiteral p (hp _ (by decide)))

/-! ## Tokens, for relations that do not look at them either -/

theorem keeps_takeToken (htoken : Apart p (ascii TOKEN_PREFIX.toList)) {name : Blob} :
    Keeps R (w.takeToken name) := by
  refine keeps_bind (keeps_read _) (fun _ => keeps_bind (keeps_lift _) (fun found => ?_))
  cases found with
  | none => exact keeps_lift _
  | some token =>
      refine keeps_bind (keeps_onBatch p (fun b b' h => ?_)) (fun _ => keeps_pure _)
      obtain ⟨key, hkey, h⟩ := bind_eq_ok.mp h
      obtain rfl := Except.ok.inj h
      exact Batch.Spares.removeValue (htoken.not_prefix (prefix_makeKey hkey))

theorem keeps_changeToken (htoken : Apart p (ascii TOKEN_PREFIX.toList)) {info : TokenInfo} :
    Keeps R (w.changeToken tx info) := by
  unfold changeToken
  refine keeps_ite (keeps_pure _) ?_
  cases tokenChange info with
  | none => exact keeps_pure _
  | some process => exact keeps_bind (keeps_lift _) (fun _ =>
      keeps_bind (keeps_takeToken p htoken)
        (fun _ => keeps_ite (keeps_pure _) (keeps_addKey p htoken)))

theorem keeps_saveToken (hp : AwayFrom [ADDRESS_TOKEN_PREFIX] p)
    (htoken : Apart p (ascii TOKEN_PREFIX.toList)) {info : TokenInfo} : Keeps R (w.saveToken tx info) := by
  have hhistory : ∀ {address : Address}, Keeps R (saveAddressTokenTransaction tx address) :=
    keeps_saveAddressTokenTransaction p hp
  cases info with
  | create => exact keeps_bind (keeps_lift _) (fun _ => keeps_bind (keeps_addKey p htoken)
      (fun _ => keeps_bind hhistory (fun _ => keeps_each (fun _ => hhistory) _)))
  | changeOwner => exact keeps_bind (keeps_changeToken p htoken) (fun _ =>
      keeps_bind hhistory (fun _ => hhistory))
  | moveTokens => exact keeps_bind hhistory (fun _ => keeps_bind (keeps_lift _)
      (fun _ => keeps_ite hhistory (keeps_pure _)))
  | _ => exact keeps_bind (keeps_changeToken p htoken) (fun _ => hhistory)

theorem keeps_saveTxs (hp : AwayFrom [TRANSACTION_PREFIX, TRANSACTION_STATUS_PREFIX,
    ADDRESS_TOKEN_PREFIX] p) (htoken : Apart p (ascii TOKEN_PREFIX.toList))
    {status : Option TransactionStatus} : Keeps R (w.saveTxs n tx status) := by
  refine keeps_ite (keeps_bind (keeps_saveTransaction p (hp.mono (by decide))) (fun _ =>
    keeps_bind (keeps_saveDelegateStatus p (hp.mono (by decide))) (fun _ => ?_))) (keeps_pure _)
  unfold saveTokenInfo
  cases tx.tokenInfo with
  | none => exact keeps_pure _
  | some info =>
      exact keeps_ite (keeps_pure _) (keeps_saveToken p (hp.mono (by decide)) htoken)

/-- The steps of a transaction: the status of its delegation, what its two addresses get, and the
rest. -/
theorem processTransaction_parts (hp : AwayFrom [TRANSACTION_PREFIX, TRANSACTION_STATUS_PREFIX,
    ADDRESS_TOKEN_PREFIX] p) (htoken : Apart p (ascii TOKEN_PREFIX.toList))
    {header : BlockHeader} {c : Bool} {s s' : MainState} {status : Option TransactionStatus}
    (hon : (w.modules.balance || w.modules.txs || w.modules.addrTxs) = true)
    (h : (w.processTransaction header n c tx).exec s = (.ok status, s')) :
    ∃ t u, (w.getInstantDelegateStatus tx n).exec s = (.ok status, t) ∧
      (w.toLeveldbBoth header.isForgingBlock tx status).exec t = (.ok (), u) ∧ R u s' := by
  obtain ⟨status', t', hrecords, h⟩ := exec_bind_ok.mp h
  obtain ⟨_, t'', hcommon, h⟩ := exec_bind_ok.mp h
  obtain ⟨rfl, rfl⟩ := exec_pure_ok.mp h
  unfold saveRecords at hrecords
  rw [if_pos hon] at hrecords
  obtain ⟨status'', t, hstatus, hrecords⟩ := exec_bind_ok.mp hrecords
  obtain ⟨_, u, hboth, hrecords⟩ := exec_bind_ok.mp hrecords
  have hrest : R u t' := Keeps.of_exec hrecords
    (keeps_bind (keeps_saveTxs p hp htoken)
      (fun _ => keeps_bind (keeps_saveTokenBalances p) (fun _ => keeps_pure _)))
  obtain ⟨_, _, _, hrecords⟩ := exec_bind_ok.mp hrecords
  obtain ⟨_, _, _, hrecords⟩ := exec_bind_ok.mp hrecords
  obtain ⟨rfl, _⟩ := exec_pure_ok.mp hrecords
  exact ⟨t, u, hstatus, hboth,
    Frame.trans hrest (Keeps.of_exec hcommon (keeps_addCommonBalance p))⟩

/-- The records of a transaction once the status of its delegation is there. -/
theorem processTransaction_ok (hp : Foreign p) (htoken : Apart p (ascii TOKEN_PREFIX.toList))
    {header : BlockHeader} {c : Bool} {s s' : MainState} {status : Option TransactionStatus}
    (hon : (w.modules.balance || w.modules.txs || w.modules.addrTxs) = true)
    (h : (w.processTransaction header n c tx).exec s = (.ok status, s')) :
    ∃ t, (w.getInstantDelegateStatus tx n).exec s = (.ok status, t) ∧ R t s' := by
  obtain ⟨t, u, hstatus, hboth, hrest⟩ :=
    processTransaction_parts (R := R) p (hp.away (by decide)) htoken hon h
  exact ⟨t, hstatus,
    Frame.trans (Keeps.of_exec hboth (keeps_toLeveldbBoth p (hp.away (by decide)))) hrest⟩

/-- A relation that also admits delegations holds over the transactions of a block. -/
theorem keeps_processTransactions (hp : Foreign p) (htoken : Apart p (ascii TOKEN_PREFIX.toList))
    {header : BlockHeader} {c : Bool}
    (hdelegate : ∀ tx, Keeps R (w.getInstantDelegateStatus tx n)) :
    ∀ txs, Keeps R (w.processTransactions header n c txs)
  | [] => keeps_pure _
  | tx :: txs => by
      refine keeps_bind (keeps_bind (keeps_ite ?_ (keeps_pure _)) (fun _ =>
        keeps_bind (keeps_addCommonBalance p) (fun _ => keeps_pure _))) (fun _ =>
        keeps_bind (keeps_processTransactions hp htoken hdelegate txs) (fun _ => keeps_pure _))
      exact keeps_bind (hdelegate tx) (fun _ => keeps_bind (keeps_toLeveldbBoth p (hp.away (by decide)))
        (fun _ => keeps_bind (keeps_saveTxs p (hp.away (by decide)) htoken) (fun _ =>
          keeps_bind (keeps_saveTokenBalances p) (fun _ => keeps_pure _))))

/-! ## Blocks -/

/-- The transactions of a block that are worked through. -/
def blockTxs (bi : BlockInfo) : List TransactionInfo :=
  if bi.header.isForgingBlock || bi.header.isSimpleBlock then bi.txs else []

/-- A relation that also admits delegations holds over a block, also one that fails. -/
theorem keeps_processBlock (hp : Foreign p) (htoken : Apart p (ascii TOKEN_PREFIX.toList))
    (hdelegate : ∀ tx, Keeps R (w.getInstantDelegateStatus tx n)) {bi : BlockInfo} :
    Keeps R (w.processBlock bi n) := by
  refine keeps_bind (keeps_bind (keeps_lift _) (fun common => keeps_bind
    (keeps_update (fun s => Admits.common p s common)) (fun _ => keeps_bind ?_ (fun _ =>
      keeps_bind (keeps_saveForgingSums p (hp.away (by decide))) (fun _ =>
        keeps_bind (keeps_saveBalances p (hp.away (by decide))) (fun _ =>
          keeps_bind (keeps_saveCommonBalance p (hp.away (by decide))) (fun _ =>
            keeps_pure _)))))))
    (fun _ => keeps_bind (keeps_saveMainBlock p (hp.away (by decide))) (fun _ => keeps_pure _))
  exact keeps_ite (keeps_processTransactions p hp htoken hdelegate _)
    (keeps_ite (keeps_bind (keeps_lift _) (fun _ => keeps_pure _)) (keeps_pure _))

/-- What follows the transactions. -/
theorem processBlock_ok (hp : AwayFrom [FORGING_SUMS_ALL, BALANCE_PREFIX, COMMON_BALANCE_KEY,
    MAIN_BLOCK_NUMBER_PREFIX] p) {bi : BlockInfo} {s s' : MainState}
    {statuses : List (Option TransactionStatus)}
    (h : (w.processBlock bi n).exec s = (.ok statuses, s')) :
    ∃ c t u, R s t ∧ (w.processKind bi n c).exec t = (.ok statuses, u) ∧ R u s' := by
  obtain ⟨statuses', s₁, hcontent, h⟩ := exec_bind_ok.mp h
  obtain ⟨_, s₂, hsave, h⟩ := exec_bind_ok.mp h
  obtain ⟨rfl, rfl⟩ := exec_pure_ok.mp h
  obtain ⟨common, _, hcontent⟩ := exec_lift_bind_ok.mp hcontent
  rw [exec_update_bind] at hcontent
  obtain ⟨statuses, u, hkind, hrest⟩ := exec_bind_ok.mp hcontent
  have hu : R u s₁ := Keeps.of_exec hrest
    (keeps_bind (keeps_saveForgingSums p (hp.mono (by decide))) (fun _ =>
      keeps_bind (keeps_saveBalances p (hp.mono (by decide))) (fun _ =>
        keeps_bind (keeps_saveCommonBalance p (hp.mono (by decide))) (fun _ => keeps_pure _))))
  obtain ⟨_, s₃, _, hrest⟩ := exec_bind_ok.mp hrest
  obtain ⟨_, s₄, _, hrest⟩ := exec_bind_ok.mp hrest
  obtain ⟨_, s₅, _, hrest⟩ := exec_bind_ok.mp hrest
  obtain ⟨rfl, _⟩ := exec_pure_ok.mp hrest
  exact ⟨_, _, u, Admits.common p s common, hkind,
    Frame.trans hu (Keeps.of_exec hsave (keeps_saveMainBlock p (hp.mono (by decide))))⟩

/-- What surrounds the transactions of a block that are worked through. -/
theorem processBlock_txs_ok (hp : AwayFrom [FORGING_SUMS_ALL, BALANCE_PREFIX, COMMON_BALANCE_KEY,
    MAIN_BLOCK_NUMBER_PREFIX] p) {bi : BlockInfo} {s s' : MainState}
    {statuses : List (Option TransactionStatus)}
    (h : (w.processBlock bi n).exec s = (.ok statuses, s')) :
    ∃ c t u, R s t ∧
      (w.processTransactions bi.header n c (blockTxs bi)).exec t = (.ok statuses, u) ∧ R u s' := by
  obtain ⟨c, t, u, hstart, hkind, hend⟩ := processBlock_ok (R := R) p hp h
  refine ⟨c, t, u, hstart, ?_, hend⟩
  unfold processKind at hkind
  unfold blockTxs
  split at hkind
  · rename_i hkindOf
    rw [if_pos hkindOf]
    exact hkind
  · rename_i hkindOf
    rw [if_neg hkindOf]
    split at hkind
    · obtain ⟨_, _, hrest⟩ := exec_lift_bind_ok.mp hkind
      exact hrest
    · exact hkind

end WorkerMain

end TorrentNode
