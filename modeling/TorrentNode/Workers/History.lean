import Mathlib.Order.Interval.Finset.Nat
import TorrentNode.Storage.AddressRecords
import TorrentNode.Workers.Runs

/-!
# The history of an address

What stands under an address is meant to be the list of the transactions that have it
as sender or recipient, the newest first: each goes in front of the others, under the
next lower number.
-/

namespace TorrentNode

namespace WorkerMain

open Effect NamedKeys

/-! ## The history -/

/-- The record that a transaction leaves with an address. -/
def addressRecord (tx : TransactionInfo) : AddressInfo :=
  AddressInfo.new tx.filePos.pos tx.filePos.fileNameRelative tx.blockNumber tx.blockIndex

/-- The address, unless it is that of the initial wallet. -/
def isOwn (A : Blob) (address : Address) : Bool := !address.isInitialW && address.address == A

/-- The address is sender or recipient of the transaction, which is no test of a node. -/
def concerns (A : Blob) (tx : TransactionInfo) : Bool :=
  !tx.isIntStatusNodeTest && (isOwn A tx.fromAddress || isOwn A tx.toAddress)

/-- The records of the transactions of these blocks, the newest first. -/
def historyOf (A : Blob) (blocks : List BlockInfo) : List AddressInfo :=
  (((blocks.flatMap blockTxs).filter (concerns A)).map addressRecord).reverse

/-- The histories of all addresses. -/
abbrev Histories : Type := Blob → List AddressInfo

/-- What a transaction adds to the records of each address. -/
def historyStep (σ : Histories) (tx : TransactionInfo) : Histories := fun A =>
  if concerns A tx then addressRecord tx :: σ A else σ A

theorem foldl_historyStep (A : Blob) : ∀ (txs : List TransactionInfo) (σ : Histories),
    txs.foldl historyStep σ A = ((txs.filter (concerns A)).map addressRecord).reverse ++ σ A
  | [], _ => rfl
  | tx :: txs, σ => by
      rw [List.foldl_cons, foldl_historyStep A txs]
      unfold historyStep
      by_cases h : concerns A tx = true
      · rw [if_pos h, List.filter_cons_of_pos h, List.map_cons, List.reverse_cons,
          List.append_assoc]
        rfl
      · rw [if_neg h, List.filter_cons_of_neg h]

theorem historyOf_concat (A : Blob) (blocks : List BlockInfo) (bi : BlockInfo) :
    historyOf A (blocks ++ [bi]) =
      (blockTxs bi).foldl historyStep (fun A => historyOf A blocks) A := by
  rw [foldl_historyStep]
  unfold historyOf
  rw [List.flatMap_append, List.filter_append, List.map_append, List.reverse_append,
    List.flatMap_cons, List.flatMap_nil, List.append_nil]

/-! ## Where it is held -/

/-- What the keys of transactions start with. -/
def addressPrefix : Bytes := literalKey ADDRESS_PREFIX

/-- What the keys of the transactions of an address start with. -/
def addressScan (A : Blob) : Bytes := scan addressPrefix Saved.separator A.val

/-- The key of the transaction with this counter. -/
def addressKey (A : Blob) (c : UInt64) : Bytes := addressScan A ++ serializeUInt64 c

/-- The database holds these histories, under numbers above `n`. -/
structure HoldsHistory (db : LevelDb) (n : Int) (σ : Histories) : Prop where
  numbered : ∀ k v, addressPrefix <+: k → db.find? k = some v →
    ∃ (A : Blob) (c : UInt64), A.size = 25 ∧ k = addressKey A c ∧ n < c.toNat
  entries : ∀ A : Blob, A.size = 25 →
    (db.under (addressScan A)).map (fun e => AddressInfo.deserialize e.2) = (σ A).map .ok

variable {w : WorkerMain} {db : LevelDb} {s s' : MainState} {σ : Histories} {A B : Blob}
  {c c' : UInt64}

theorem prefix_addressScan : addressPrefix <+: addressScan A := prefix_scan

theorem addressScan_prefix : addressScan A <+: addressKey A c := List.prefix_append _ _

theorem addressScan_inj (hA : A.size = 25) (hB : B.size = 25)
    (h : addressScan A <+: addressKey B c) : A = B := by
  have hlen : A.val.length = B.val.length := hA.trans hB.symm
  exact Subtype.ext (name_of_same_length hlen h)

theorem addressKey_lt : addressKey A c < addressKey A c' ↔ c.toNat < c'.toNat := by
  unfold addressKey
  rw [List.append_lt_append_iff, serializeUInt64_lt]

theorem HoldsHistory.mono {n m : Int} (h : HoldsHistory db n σ) (hm : m ≤ n) :
    HoldsHistory db m σ := by
  refine ⟨fun k v hk hf => ?_, h.entries⟩
  obtain ⟨A, c, hA, hkey, hc⟩ := h.numbered k v hk hf
  exact ⟨A, c, hA, hkey, by omega⟩

theorem holdsHistory_empty (n : Int) : HoldsHistory ∅ n (fun _ => []) :=
  ⟨fun _ _ _ hf => absurd hf (by simp), fun _ _ => rfl⟩

/-- The number of an entry. -/
theorem HoldsHistory.of_under {n : Int} (h : HoldsHistory db n σ) (hA : A.size = 25)
    {e : Bytes × Blob} (he : e ∈ db.under (addressScan A)) :
    ∃ c : UInt64, e.1 = addressKey A c ∧ n < c.toNat := by
  obtain ⟨hpre, hf⟩ := OrdMap.mem_under.mp he
  obtain ⟨B, c, hB, hkey, hc⟩ := h.numbered e.1 e.2 (prefix_addressScan.trans hpre) hf
  rw [hkey] at hpre
  obtain rfl := addressScan_inj hA hB hpre
  exact ⟨c, hkey, hc⟩

/-- There are no more entries than numbers. -/
theorem length_under_lt (h : ∀ e ∈ db.under (addressScan A), ∃ c : UInt64,
    e.1 = addressKey A c ∧ 0 < c.toNat) : (db.under (addressScan A)).length < 2 ^ 64 := by
  -- each entry by the number in its key
  let number : Bytes × Blob → Nat := fun e =>
    BigEndian.decode (e.1.drop (addressScan A).length)
  have hnumber : ∀ e ∈ db.under (addressScan A), ∃ c : UInt64, e.1 = addressKey A c ∧
      number e = c.toNat ∧ 0 < c.toNat := by
    intro e he
    obtain ⟨c, hkey, hc⟩ := h e he
    refine ⟨c, hkey, ?_, hc⟩
    show BigEndian.decode (e.1.drop _) = _
    rw [hkey, addressKey, List.drop_left]
    exact BigEndian.decode_encode (w := sizeofSizeT) c.toNat_lt
  -- Two entries have two keys, and so two numbers,
  have hnodup : ((db.under (addressScan A)).map number).Nodup := by
    refine List.Nodup.map_on ?_ (OrdMap.increasing_under.imp ?_)
    swap
    · rintro e e' hlt rfl
      exact lt_irrefl _ hlt
    intro e he e' he' heq
    obtain ⟨c, hkey, hc, _⟩ := hnumber e he
    obtain ⟨c', hkey', hc', _⟩ := hnumber e' he'
    have hcc : c = c' := UInt64.toNat_inj.mp (by rw [← hc, ← hc', heq])
    have hfst : e.1 = e'.1 := by rw [hkey, hkey', hcc]
    have hf := (OrdMap.mem_under.mp he).2
    rw [hfst, (OrdMap.mem_under.mp he').2] at hf
    exact Prod.ext hfst (Option.some.inj hf).symm
  -- all of them positive and of eight bytes.
  have hsub : ((db.under (addressScan A)).map number).toFinset ⊆ Finset.Icc 1 (2 ^ 64 - 1) := by
    intro x hx
    obtain ⟨e, he, rfl⟩ := List.mem_map.mp (List.mem_toFinset.mp hx)
    obtain ⟨c, _, hc, hpos⟩ := hnumber e he
    have := c.toNat_lt
    rw [Finset.mem_Icc, hc]
    omega
  have hcard := Finset.card_le_card hsub
  rw [List.toFinset_card_of_nodup hnodup, List.length_map, Nat.card_Icc] at hcard
  omega

theorem HoldsHistory.length_lt {n : Int} (h : HoldsHistory db n σ) (hn : 0 ≤ n)
    (hA : A.size = 25) : (db.under (addressScan A)).length < 2 ^ 64 := by
  refine length_under_lt (fun e he => ?_)
  obtain ⟨c, hkey, hc⟩ := h.of_under hA he
  exact ⟨c, hkey, by omega⟩

/-! ## What the worker does -/

/-- What leaves the records of addresses alone keeps the histories. -/
theorem HoldsHistory.spares (h : HoldsHistory (addBatch s.batch db) s.memory.countVal σ)
    (hs : LeavesRecords addressPrefix s s') :
    HoldsHistory (addBatch s'.batch db) s'.memory.countVal σ := by
  constructor
  · intro k v hk hf
    rw [hs.batch.find?_addBatch db hk] at hf
    exact (h.mono hs.counter).numbered k v hk hf
  · intro A hA
    rw [OrdMap.under_congr (fun k hk =>
      hs.batch.find?_addBatch db (prefix_addressScan.trans hk))]
    exact h.entries A hA

/-- **A record** goes in front of the others of its address. -/
theorem HoldsHistory.push {n : Int} (h : HoldsHistory db n σ) (hA : A.size = 25)
    (hc : (c.toNat : Int) = n) {value : Blob} {info : AddressInfo}
    (hvalue : AddressInfo.deserialize value = .ok info) :
    HoldsHistory (db.insert (addressKey A c) value) (n - 1) (Function.update σ A (info :: σ A)) := by
  constructor
  · intro k v hk hf
    rw [OrdMap.find?_insert] at hf
    split at hf
    · rename_i heq
      exact ⟨A, c, hA, heq, by omega⟩
    · exact (h.mono (by omega)).numbered k v hk hf
  · intro B hB
    by_cases hBA : B = A
    · subst hBA
      have hfirst : ∀ e ∈ db.under (addressScan B), addressKey B c < e.1 := by
        intro e he
        obtain ⟨c', hkey, hc'⟩ := h.of_under hB he
        rw [hkey, addressKey_lt]
        omega
      rw [OrdMap.under_insert_first addressScan_prefix hfirst, Function.update_self, List.map_cons,
        List.map_cons, hvalue, h.entries B hB]
    · rw [OrdMap.under_congr (fun k hk => OrdMap.find?_insert_ne ?_), Function.update_of_ne hBA,
        h.entries B hB]
      rintro rfl
      exact hBA (addressScan_inj hB hA hk)

theorem toBdString_eq {address : Address} {name : Blob} (hsize : address.address.size = 25)
    (h : address.toBdString = .ok name) : name = address.address := by
  have hname := Except.ok.inj (check_bind_eq_ok.mp h).2
  have hne : address.address.isEmpty = false := by
    refine Blob.isEmpty_eq_false.mpr (fun he => ?_)
    rw [he] at hsize
    exact absurd hsize (by decide)
  rw [hne] at hname
  exact hname.symm

variable {tx : TransactionInfo} {address : Address} {n : UInt64}

theorem HoldsHistory.saveAddressTransaction {u : Unit}
    (h : HoldsHistory (addBatch s.batch db) s.memory.countVal σ)
    (hsize : address.address.size = 25) (h0 : 0 ≤ s.memory.countVal)
    (hsmall : s.memory.countVal < 2 ^ 64)
    (hexec : (saveAddressTransaction tx address).exec s = (.ok u, s')) :
    HoldsHistory (addBatch s'.batch db) s'.memory.countVal
      (Function.update σ address.address (addressRecord tx :: σ address.address)) := by
  obtain ⟨name, hname, hexec⟩ := exec_lift_bind_ok.mp hexec
  obtain rfl := toBdString_eq hsize hname
  obtain ⟨c, t, hcount, hexec⟩ := exec_bind_ok.mp hexec
  obtain ⟨rfl, rfl⟩ := getCountVal_ok hcount
  obtain ⟨hadd, hs'⟩ := onBatch_ok hexec
  obtain ⟨key, hkey, hadd⟩ := bind_eq_ok.mp hadd
  obtain ⟨-, rfl⟩ := (makeKey_counter rfl).mp hkey
  obtain ⟨value, hvalue, hbatch⟩ := Batch.addKey_eq_ok hadd
  have hpush := h.push hsize (toNat_ofInt h0 hsmall) (AddressInfo.deserialize_serialize hvalue)
  rw [hs', hbatch, addBatch_addKeyInternal]
  exact hpush

/-- An address that can have a history: the initial wallet has no bytes, the others have all. -/
def WellPlaced (address : Address) : Prop :=
  if address.isInitialW then address.address = ∅ else address.address.size = 25

instance (address : Address) : Decidable (WellPlaced address) :=
  inferInstanceAs (Decidable (if address.isInitialW = true then address.address = ∅
    else address.address.size = 25))

/-- In the middle of a block. -/
structure WorkingHistory (db : LevelDb) (s : MainState) (σ : Histories) : Prop where
  holds : HoldsHistory (addBatch s.batch db) s.memory.countVal σ
  keys : DelegateKeys s
  small : s.memory.countVal < 2 ^ 64

theorem WorkingHistory.spares (h : WorkingHistory db s σ) (hs : SparesRecords addressPrefix s s') :
    WorkingHistory db s' σ :=
  ⟨h.holds.spares (hs h.keys), (hs h.keys).keys, lt_of_le_of_lt (hs h.keys).counter h.small⟩

/-- What a transaction tells one of its addresses. -/
def tell (address : Address) (tx : TransactionInfo) (σ : Histories) : Histories :=
  if address.isInitialW || tx.isIntStatusNodeTest then σ
  else Function.update σ address.address (addressRecord tx :: σ address.address)

theorem WorkingHistory.saveHistory {status : Option TransactionStatus} {u : Unit}
    (haddr : w.modules.addrTxs = true) (h : WorkingHistory db s σ)
    (hsize : address.address.size = 25)
    (hexec : (w.saveHistory address tx status).exec s = (.ok u, s')) (h0 : 0 ≤ s'.memory.countVal) :
    WorkingHistory db s'
      (Function.update σ address.address (addressRecord tx :: σ address.address)) := by
  unfold WorkerMain.saveHistory at hexec
  rw [if_pos haddr] at hexec
  obtain ⟨_, t, hsave, hexec⟩ := exec_bind_ok.mp hexec
  have hrest : ∀ R : MainState → MainState → Prop, [Admits addressPrefix R] → R t s' := by
    intro R _
    refine Keeps.of_exec hexec ?_
    cases status with
    | none => exact keeps_pure _
    | some status => exact keeps_saveAddressStatus addressPrefix (by decide)
  have hdown : s'.memory.countVal ≤ t.memory.countVal := hrest CountsDown
  have hcount : t.memory.countVal ≤ s.memory.countVal := Keeps.of_exec (R := CountsDown) hsave
    (keeps_saveAddressTransaction (literalKey DELEGATE_PREFIX) (by decide))
  have hkeys : DelegateKeys t := (Keeps.of_exec (R := SparesRecords (literalKey DELEGATE_PREFIX))
    hsave (keeps_saveAddressTransaction (literalKey DELEGATE_PREFIX) (by decide)) h.keys).keys
  have hpushed := h.holds.saveAddressTransaction hsize (by omega) h.small hsave
  exact WorkingHistory.spares ⟨hpushed, hkeys, lt_of_le_of_lt hcount h.small⟩
    (hrest (SparesRecords addressPrefix))

/-- **An address** gets the record of a transaction. -/
theorem WorkingHistory.toLeveldb {isForging : Bool} {status : Option TransactionStatus} {u : Unit}
    (haddr : w.modules.addrTxs = true) (h : WorkingHistory db s σ) (hplaced : WellPlaced address)
    (hexec : (w.toLeveldb isForging address tx status).exec s = (.ok u, s'))
    (h0 : 0 ≤ s'.memory.countVal) : WorkingHistory db s' (tell address tx σ) := by
  obtain ⟨initial, hinitial, hexec⟩ := exec_lift_bind_ok.mp hexec
  obtain rfl : address.isInitialW = initial := Except.ok.inj (check_bind_eq_ok.mp hinitial).2
  unfold tell
  by_cases hskip : (address.isInitialW || tx.isIntStatusNodeTest) = true
  · rw [if_pos hskip] at hexec ⊢
    obtain ⟨_, rfl⟩ := exec_pure_ok.mp hexec
    exact h
  · rw [if_neg hskip] at hexec ⊢
    obtain ⟨_, t, hhistory, hbalance⟩ := exec_bind_ok.mp hexec
    have hsize : address.address.size = 25 := by
      have hnot : address.isInitialW = false := by
        cases hi : address.isInitialW with
        | false => rfl
        | true => exact absurd (by rw [hi]; rfl) hskip
      unfold WellPlaced at hplaced
      rwa [hnot, if_neg Bool.false_ne_true] at hplaced
    have hdown : s'.memory.countVal ≤ t.memory.countVal :=
      Keeps.of_exec (R := CountsDown) hbalance (keeps_saveBalance addressPrefix)
    exact (h.saveHistory haddr hsize hhistory (by omega)).spares
      (Keeps.of_exec (R := SparesRecords addressPrefix) hbalance (keeps_saveBalance addressPrefix))

theorem tell_apply (address : Address) (tx : TransactionInfo) (σ : Histories) (A : Blob) :
    tell address tx σ A =
      if !tx.isIntStatusNodeTest && isOwn A address then addressRecord tx :: σ A else σ A := by
  unfold tell isOwn
  cases hinitial : address.isInitialW <;> cases htest : tx.isIntStatusNodeTest
  · by_cases hA : address.address = A
    · rw [hA]
      simp
    · have hne : (address.address == A) = false := beq_eq_false_iff_ne.mpr hA
      rw [hne]
      exact Function.update_of_ne (Ne.symm hA) _ _
  · simp
  · simp
  · simp

theorem isOwn_eq_true : isOwn A address = true ↔ address.isInitialW = false ∧ address.address = A := by
  unfold isOwn
  rw [Bool.and_eq_true, Bool.not_eq_true', beq_iff_eq]

/-- An address says whether it is that of the initial wallet. -/
theorem WellPlaced.isInitialW_eq {a b : Address} (ha : WellPlaced a) (hb : WellPlaced b)
    (h : a.address = b.address) : a.isInitialW = b.isInitialW := by
  have hempty : (∅ : Blob).size ≠ 25 := by decide
  unfold WellPlaced at ha hb
  cases hai : a.isInitialW <;> cases hbi : b.isInitialW <;>
    simp only [hai, hbi, Bool.false_eq_true, if_false, if_true] at ha hb
  · rfl
  · exact absurd (by rw [← hb, ← h]; exact ha) hempty
  · exact absurd (by rw [← ha, h]; exact hb) hempty
  · rfl

/-- The sender is told, and the recipient if it is another address. -/
theorem historyStep_eq (hfrom : WellPlaced tx.fromAddress) (hto : WellPlaced tx.toAddress) :
    historyStep σ tx = if tx.fromAddress.address == tx.toAddress.address
      then tell tx.fromAddress tx σ else tell tx.toAddress tx (tell tx.fromAddress tx σ) := by
  funext A
  unfold historyStep concerns
  by_cases hsame : tx.fromAddress.address = tx.toAddress.address
  · have hown : isOwn A tx.toAddress = isOwn A tx.fromAddress := by
      unfold isOwn
      rw [hsame, hfrom.isInitialW_eq hto hsame]
    rw [if_pos (beq_iff_eq.mpr hsame), tell_apply, hown, Bool.or_self]
  · have hbeq : (tx.fromAddress.address == tx.toAddress.address) = false :=
      beq_eq_false_iff_ne.mpr hsame
    rw [hbeq, if_neg Bool.false_ne_true, tell_apply, tell_apply]
    cases hf : isOwn A tx.fromAddress <;> cases ht : isOwn A tx.toAddress
    · simp
    · simp
    · simp
    · exact absurd ((isOwn_eq_true.mp hf).2.trans (isOwn_eq_true.mp ht).2.symm) hsame

/-- Both addresses of a transaction are well placed. -/
def WellAddressed (tx : TransactionInfo) : Prop :=
  WellPlaced tx.fromAddress ∧ WellPlaced tx.toAddress

instance (tx : TransactionInfo) : Decidable (WellAddressed tx) :=
  inferInstanceAs (Decidable (_ ∧ _))

theorem WorkingHistory.toLeveldbBoth {isForging : Bool} {status : Option TransactionStatus}
    {u : Unit} (haddr : w.modules.addrTxs = true) (h : WorkingHistory db s σ)
    (hwell : WellAddressed tx)
    (hexec : (w.toLeveldbBoth isForging tx status).exec s = (.ok u, s'))
    (h0 : 0 ≤ s'.memory.countVal) : WorkingHistory db s' (historyStep σ tx) := by
  obtain ⟨_, t, hfrom, hexec⟩ := exec_bind_ok.mp hexec
  obtain ⟨same, hsame, hexec⟩ := exec_lift_bind_ok.mp hexec
  obtain rfl : (tx.fromAddress.address == tx.toAddress.address) = same :=
    Except.ok.inj (check_bind_eq_ok.mp (check_bind_eq_ok.mp hsame).2).2
  rw [historyStep_eq hwell.1 hwell.2]
  cases heq : tx.fromAddress.address == tx.toAddress.address with
  | true =>
      rw [heq] at hexec
      obtain ⟨_, rfl⟩ := exec_pure_ok.mp hexec
      exact h.toLeveldb haddr hwell.1 hfrom h0
  | false =>
      rw [heq] at hexec
      have hdown : s'.memory.countVal ≤ t.memory.countVal := Keeps.of_exec (R := CountsDown) hexec
        (keeps_toLeveldb (literalKey DELEGATE_PREFIX) (by decide))
      exact (h.toLeveldb haddr hwell.1 hfrom (by omega)).toLeveldb haddr hwell.2 hexec h0

/-- **The transactions of a block**, each in front of those before it. -/
theorem WorkingHistory.processTransactions (haddr : w.modules.addrTxs = true)
    {header : BlockHeader} {common : Bool} :
    ∀ {txs : List TransactionInfo} {s s' : MainState} {σ : Histories}
      {statuses : List (Option TransactionStatus)}, WorkingHistory db s σ →
      (∀ tx ∈ txs, WellAddressed tx) →
      (w.processTransactions header n common txs).exec s = (.ok statuses, s') →
      0 ≤ s'.memory.countVal → WorkingHistory db s' (txs.foldl historyStep σ)
  | [], _, _, _, _, h, _, hexec, _ => by
      obtain ⟨_, rfl⟩ := exec_pure_ok.mp hexec
      exact h
  | tx :: txs, s, s', σ, statuses, h, hwell, hexec, h0 => by
      obtain ⟨status, t, htx, hexec⟩ := exec_bind_ok.mp hexec
      obtain ⟨statuses', t', hrest, hexec⟩ := exec_bind_ok.mp hexec
      obtain ⟨_, rfl⟩ := exec_pure_ok.mp hexec
      obtain ⟨u, v, hstatus, hboth, hspares, hdown⟩ := processTransaction_parts
        (R := Both (SparesRecords addressPrefix) CountsDown) addressPrefix (by decide) (by decide)
        (by rw [haddr, Bool.or_true]) htx
      have hu : WorkingHistory db u σ :=
        h.spares (Keeps.of_exec hstatus (keeps_delegateStatus (by decide)))
      have hdown' : CountsDown t t' := Keeps.of_exec hrest (keeps_processTransactions
        (literalKey DELEGATE_PREFIX) (by decide) (by decide) countsDown_status txs)
      unfold CountsDown at hdown hdown'
      have hv := hu.toLeveldbBoth haddr (hwell tx List.mem_cons_self) hboth (by omega)
      have hdone := processTransactions haddr (hv.spares hspares)
        (fun _ hmem => hwell _ (List.mem_cons_of_mem _ hmem)) hrest h0
      exact hdone

/-! ## Runs -/

/-- The addresses of a block are well placed. -/
def BlockWellAddressed (bi : BlockInfo) : Prop := ∀ tx ∈ blockTxs bi, WellAddressed tx

instance (bi : BlockInfo) : Decidable (BlockWellAddressed bi) :=
  inferInstanceAs (Decidable (∀ tx ∈ _, _))

/-- **A block** that is worked through. -/
theorem HoldsHistory.processBlock (haddr : w.modules.addrTxs = true) {memory : MainMemory}
    {bi : BlockInfo} {statuses : List (Option TransactionStatus)}
    (h : HoldsHistory db memory.countVal σ) (hsmall : memory.countVal < 2 ^ 64)
    (hwell : BlockWellAddressed bi)
    (hexec : (w.processBlock bi n).exec (blockStart memory) = (.ok statuses, s))
    (h0 : 0 ≤ s.memory.countVal) :
    HoldsHistory (addBatch s.batch db) s.memory.countVal ((blockTxs bi).foldl historyStep σ) := by
  obtain ⟨common, t, u, ⟨hstart, _⟩, htxs, hend, hdown⟩ := processBlock_txs_ok
    (R := Both (SparesRecords addressPrefix) CountsDown) addressPrefix (by decide) hexec
  have hfirst : WorkingHistory db (blockStart memory) σ :=
    ⟨h, fun _ _ hfind => absurd hfind (by simp [blockStart]), hsmall⟩
  unfold CountsDown at hdown
  exact (((hfirst.spares hstart).processTransactions haddr hwell htxs (by omega)).spares hend).holds

/-- **Every run** whose counter does not pass zero keeps the histories. -/
theorem history_kept (haddr : w.modules.addrTxs = true) {d : LevelDb} {m : MainMemory}
    {blocks : List BlockInfo} (hrun : Reached w (fun n => 0 ≤ n) d m blocks)
    (hwell : ∀ bi ∈ blocks, BlockWellAddressed bi) :
    Kept (fun d n blocks => HoldsHistory d n (fun A => historyOf A blocks)) d m blocks := by
  refine hrun.kept holdsHistory_empty (fun h hle => h.mono hle) ?_ hwell
  intro d blocks bi statuses s m hholds hsmall hgood hexec hcount
  rw [show (fun A => historyOf A (blocks ++ [bi])) = (blockTxs bi).foldl historyStep _ from
    funext (fun A => historyOf_concat A blocks bi)]
  exact HoldsHistory.processBlock (w := w.on d) haddr hholds hsmall hgood hexec hcount

/-- A lookup gives a page of the history. -/
theorem HoldsHistory.findAddress {n : Int} (h : HoldsHistory db n σ) (hn : 0 ≤ n)
    (hA : A.size = 25) {fromIndex count : UInt64}
    (hsum : count ≠ 0 → fromIndex.toNat + count.toNat < 2 ^ 64) :
    db.findAddress A fromIndex count =
      .ok (LevelDb.page fromIndex.toNat count.toNat (σ A)) := by
  have hne : A ≠ ∅ := by
    rintro rfl
    exact absurd hA (by decide)
  refine (LevelDb.findAddressUnder_page rfl hne hsum (h.length_lt hn hA)).trans ?_
  rw [mapM_eq_ok_iff, LevelDb.map_page, LevelDb.map_page]
  exact congrArg _ (h.entries A hA)

/--
**The history of an address.** In every run in which the counter does not pass zero the
blocks have ascending numbers, and every lookup gives its page of the transactions that
concern the address, the newest first; pages of one size give it piece by piece.
-/
theorem history_pages {w : WorkerMain} (haddr : w.modules.addrTxs = true) {d : LevelDb}
    {m : MainMemory} {blocks : List BlockInfo} (hrun : Reached w (fun n => 0 ≤ n) d m blocks)
    (hwell : ∀ bi ∈ blocks, BlockWellAddressed bi) :
    blocks.Pairwise (fun b b' => b.blockNumber < b'.blockNumber) ∧
    ∀ A : Blob, A.size = 25 →
      d.findAddress A 0 0 = .ok (historyOf A blocks) ∧
      (∀ fromIndex count : UInt64,
        (count ≠ 0 → fromIndex.toNat + count.toNat < 2 ^ 64) →
        d.findAddress A fromIndex count =
          .ok (LevelDb.page fromIndex.toNat count.toNat (historyOf A blocks))) ∧
      ∀ c k : Nat, c ≠ 0 → k * c < 2 ^ 64 → ∃ pages,
        (List.range k).mapM (fun i => d.findAddress A (UInt64.ofNat (i * c)) (UInt64.ofNat c)) =
            .ok pages ∧
          pages.flatten = (historyOf A blocks).take (k * c) := by
  have h := (history_kept haddr hrun hwell).holds
  have h0 := hrun.countVal_nonneg
  refine ⟨hrun.ascending.1, fun A hA => ⟨?_, ?_, ?_⟩⟩
  · exact h.findAddress h0 hA (fun hne => absurd rfl hne)
  · exact fun _ _ hsum => h.findAddress h0 hA hsum
  · intro c k hc hsmall
    refine ⟨_, mapM_eq_ok (fun i hi => ?_), LevelDb.flatten_pages _ hc k⟩
    have hik : (i + 1) * c ≤ k * c := Nat.mul_le_mul_right c (List.mem_range.mp hi)
    rw [Nat.succ_mul] at hik
    have hi' : (UInt64.ofNat (i * c)).toNat = i * c := Nat.mod_eq_of_lt (by omega)
    have hc' : (UInt64.ofNat c).toNat = c := Nat.mod_eq_of_lt (by omega)
    rw [h.findAddress h0 hA (fun _ => by rw [hi', hc']; omega), hi', hc']

/-! ## Runs on fixed blocks -/

/-- With these modules only histories take numbers. -/
def plainAddrTxs : WorkerMain :=
  { plainMain with modules := ⟨false, false, false, true, false, false, false⟩ }

/-- An address of one byte repeated. -/
def plainAddress (digit : UInt8) : Blob := Blob.replicate 25 digit Blob.address_fits

/-- A transfer from the initial wallet. -/
def plainTransfer (digit : UInt8) (blockIndex : UInt64) : TransactionInfo :=
  { (default : TransactionInfo) with
    blockNumber := 1, blockIndex, filePos := ⟨0, Blob.replicate 1 97 Blob.byte_fits⟩
    fromAddress := Address.unset.setEmpty
    toAddress := Address.ofBlob (plainAddress digit) }

/-- Transfers of two blocks. -/
def transferBlocks (i : Nat) : BlockInfo :=
  { plainChain [] i with
    txs := if i = 1 then [plainTransfer 1 0, plainTransfer 2 1, plainTransfer 1 2]
      else [plainTransfer 1 0] }

/-- What the worker leaves of the first block. -/
def afterFirst : Outcome (List (Option TransactionStatus)) × LevelDb × MainMemory :=
  (plainAddrTxs.on ∅).worker (startMemory default) (transferBlocks 1)

/-- The second block, after a restart. -/
def afterSecond : Outcome (List (Option TransactionStatus)) × LevelDb × MainMemory :=
  (plainAddrTxs.on afterFirst.2.1).worker
    (startMemory (afterFirst.2.1.findMainBlock.toOption.getD default)) (transferBlocks 2)

theorem history_pages_two :
    afterSecond.2.1.findAddress (plainAddress 1) 0 0 =
      .ok (historyOf (plainAddress 1) [transferBlocks 1, transferBlocks 2]) := by
  have hone : Reached plainAddrTxs (fun n => 0 ≤ n) afterFirst.2.1 afterFirst.2.2
      [transferBlocks 1] :=
    Reached.next Reached.start (transferBlocks 1) (by decide +kernel) (by decide +kernel)
  have hrestart := Reached.restart hone
    (show afterFirst.2.1.findMainBlock = .ok (afterFirst.2.1.findMainBlock.toOption.getD default) by
      decide +kernel)
    (Or.inr (by decide +kernel))
  have htwo : Reached plainAddrTxs (fun n => 0 ≤ n) afterSecond.2.1 afterSecond.2.2
      ([transferBlocks 1] ++ [transferBlocks 2]) := by
    unfold afterSecond
    exact Reached.next hrestart (transferBlocks 2) (by decide +kernel) (by decide +kernel)
  refine ((history_pages (w := plainAddrTxs) rfl htwo ?_).2 (plainAddress 1) rfl).1
  intro bi hbi
  rcases List.mem_cons.mp hbi with rfl | hbi
  · decide
  · rw [List.mem_singleton.mp hbi]
    decide

/-! ## The numbers around -/

/-- A transfer of the block of this number. -/
def transferIn (n : UInt64) : TransactionInfo := { plainTransfer 1 0 with blockNumber := n }

/-- **A transfer** takes a number and stands under it. -/
theorem plainAddrTxs_transfer {n : UInt64} (hn : n ≠ 0) (d : LevelDb) (header : BlockHeader) (c : Bool)
    (s : MainState) :
    ∃ s' value, ((plainAddrTxs.on d).processTransaction header n c (transferIn n)).exec s =
        (.ok none, s') ∧
      s'.memory.countVal = s.memory.countVal - 1 ∧
      s'.batch = s.batch.addKeyInternal (addressKey (plainAddress 1)
        (UInt64.ofInt s.memory.countVal)) value false := by
  -- The record of the transfer can be written, for its block has a number.
  have hset : check (n != 0) "AddressInfo not initialized" = .ok () := by simp [check, hn]
  have hser : ∃ v : Blob, (addressRecord (transferIn n)).serialize = .ok v.val := by
    unfold AddressInfo.serialize
    show ∃ v : Blob, (check (n != 0) _ >>= _) = _
    rw [hset]
    refine ⟨⟨_, ?_⟩, rfl⟩
    simp only [List.length_append, length_serializeUInt64, length_serializeString]
    show 8 + 1 + 8 + 8 + 8 + 0 < 2 ^ 63
    decide
  obtain ⟨v, hv⟩ := hser
  have hadd : ∀ b : Batch, b.addAddress (plainAddress 1) (addressRecord (transferIn n))
      (UInt64.ofInt s.memory.countVal) = .ok (b.addKeyInternal (addressKey (plainAddress 1)
        (UInt64.ofInt s.memory.countVal)) v false) := fun b =>
    Batch.addKey_of_serialized hv b _ false
  have hsave : (saveAddressTransaction (transferIn n) (transferIn n).toAddress).exec s =
      (.ok (), { s with
        memory := { s.memory with countVal := s.memory.countVal - 1 }
        batch := s.batch.addKeyInternal (addressKey (plainAddress 1)
          (UInt64.ofInt s.memory.countVal)) v false }) := by
    refine exec_lift_bind_ok.mpr ⟨plainAddress 1, rfl, exec_bind_ok.mpr
      ⟨UInt64.ofInt s.memory.countVal, _, rfl, exec_tryUpdate_ok.mpr ?_⟩⟩
    show (s.batch.addAddress (plainAddress 1) (addressRecord (transferIn n))
      (UInt64.ofInt s.memory.countVal)).map _ = _
    rw [hadd]
    rfl
  -- Only the recipient is in the wallet, so one record is written.
  have hboth : ((plainAddrTxs.on d).toLeveldbBoth header.isForgingBlock (transferIn n) none).exec s =
      (.ok (), _) :=
    exec_bind_ok.mpr ⟨(), s, rfl, exec_lift_bind_ok.mpr ⟨false, rfl, exec_lift_bind_ok.mpr
      ⟨false, rfl, exec_bind_ok.mpr ⟨(), _, exec_bind_ok.mpr ⟨(), _, hsave, rfl⟩, rfl⟩⟩⟩⟩
  have hrecords : ((plainAddrTxs.on d).saveRecords header n (transferIn n)).exec s = (.ok none, _) :=
    exec_bind_ok.mpr ⟨none, s, rfl, exec_bind_ok.mpr ⟨(), _, hboth, exec_bind_ok.mpr ⟨(), _, rfl, rfl⟩⟩⟩
  exact ⟨_, v, exec_bind_ok.mpr ⟨none, _, hrecords, rfl⟩, rfl, rfl⟩

/-- Transfers on end take a number each. -/
theorem plainAddrTxs_replicate {n : UInt64} (hn : n ≠ 0) (d : LevelDb) (header : BlockHeader)
    (c : Bool) : ∀ (k : Nat) (s : MainState), ∃ statuses s',
      ((plainAddrTxs.on d).processTransactions header n c (List.replicate k (transferIn n))).exec s =
        (.ok statuses, s') ∧
      s'.memory.countVal = s.memory.countVal - k ∧
      s.batch.Spares (literalKey COMMON_BALANCE_KEY) s'.batch
  | 0, s => ⟨[], s, rfl, by simp, Batch.Spares.refl _ _⟩
  | k + 1, s => by
      obtain ⟨t, value, htx, hcount, hbatch⟩ := plainAddrTxs_transfer hn d header c s
      obtain ⟨statuses, s', hrest, hcount', hspares⟩ := plainAddrTxs_replicate hn d header c k t
      refine ⟨_, s', exec_bind_ok.mpr ⟨none, t, htx, exec_bind_ok.mpr ⟨statuses, s', hrest, rfl⟩⟩,
        ?_, ?_⟩
      · rw [hcount', hcount]
        push_cast
        omega
      · have hapart : Apart (literalKey COMMON_BALANCE_KEY) addressPrefix := by decide
        have hscan : addressScan (plainAddress 1) <+:
            addressKey (plainAddress 1) (UInt64.ofInt s.memory.countVal) := addressScan_prefix
        have hkey := hapart.not_prefix (prefix_addressScan.trans hscan)
        rw [hbatch] at hspares
        exact (Batch.Spares.addKeyInternal hkey value false).trans hspares

/-- A block of as many transfers. -/
def transferBlock (size height : Nat) : BlockInfo :=
  chainBlock (List.replicate size (transferIn (UInt64.ofNat height))) height

/-- So many of them, one after the other. -/
def transferChain (count size : Nat) : List BlockInfo :=
  (List.range count).map (fun i => transferBlock size (i + 1))

theorem transferChain_succ (count size : Nat) :
    transferChain (count + 1) size = transferChain count size ++ [transferBlock size (count + 1)] := by
  unfold transferChain
  rw [List.range_succ, List.map_append]
  rfl

theorem transferBlock_wellAddressed (size height : Nat) :
    BlockWellAddressed (transferBlock size height) ∧ (transferBlock size height).txs.length = size := by
  refine ⟨fun tx htx => ?_, List.length_replicate⟩
  rw [List.eq_of_mem_replicate (show tx ∈ List.replicate size _ from htx)]
  have hplain : WellAddressed (plainTransfer 1 0) := by decide
  exact hplain

/-- Each of the transfers is in the history. -/
theorem historyOf_transferBlock (blocks : List BlockInfo) (size height : Nat) :
    historyOf (plainAddress 1) (blocks ++ [transferBlock size height]) =
      List.replicate size (addressRecord (transferIn (UInt64.ofNat height))) ++
        historyOf (plainAddress 1) blocks := by
  rw [historyOf_concat, foldl_historyStep]
  show ((((List.replicate size (transferIn (UInt64.ofNat height))).filter
    (concerns (plainAddress 1))).map addressRecord).reverse ++ _) = _
  have hconcerns : concerns (plainAddress 1) (transferIn (UInt64.ofNat height)) = true := rfl
  rw [List.filter_replicate, if_pos hconcerns, List.map_replicate, List.reverse_replicate]

/-- The blocks of transfers are taken in, with all numbers but one used up. -/
theorem reached_transferChain {count size : Nat} (hall : count * size = 2 ^ 64 - 1)
    (hcount : count < 2 ^ 64) : ∃ d m,
      Reached plainAddrTxs (fun n => 0 ≤ n) d m (transferChain count size) ∧
      d.find? (literalKey COMMON_BALANCE_KEY) = none ∧ m.countVal = 0 ∧ StandsAt d count ∧
      d.findMainBlock = .ok ⟨UInt64.ofNat count, heightHash count, 0⟩ := by
  have hblock : ∀ (d : LevelDb) (m : MainMemory) (i : Nat), i ≠ 0 → i < 2 ^ 64 →
      d.find? (literalKey COMMON_BALANCE_KEY) = none → ∃ statuses s,
      ((plainAddrTxs.on d).processBlock (transferBlock size i) (UInt64.ofNat i)).exec (blockStart m) =
        (.ok statuses, s) ∧ s.memory.countVal = m.countVal - size ∧
        (addBatch s.batch d).find? (literalKey COMMON_BALANCE_KEY) = none := by
    intro d m i hi hi' hnone
    have hn := ofNat_ne_zero hi hi'
    obtain ⟨statuses, u, htxs, hu, hspares⟩ := plainAddrTxs_replicate hn d
      (transferBlock size i).header (decide (0 < UInt64.ofNat i)) size (blockStart m)
    obtain ⟨s, v, hs, hcount, hbatch⟩ := processBlock_chainBlock rfl rfl hnone hn htxs
    refine ⟨statuses, s, hs, hcount.trans hu, ?_⟩
    rw [hbatch, find?_addBatch_addKeyInternal, if_neg (by decide),
      hspares.find?_addBatch d (List.prefix_refl _)]
    exact hnone
  exact @reached_all _ _ (fun i => List.replicate size (transferIn (UInt64.ofNat i))) _ _ hall hcount
    rfl hblock

/-- After a restart the next transfer gets the largest number again, behind all others. -/
theorem transferChain_around {count size : Nat} (hall : (count + 1) * (size + 2) = 2 ^ 64 - 1)
    (hcount : count + 2 < 2 ^ 64) : ∃ d m,
      Reached plainAddrTxs (fun _ => True) d m
        (transferChain (count + 1) (size + 2) ++ [transferBlock 1 (count + 2)]) ∧
      d.findAddress (plainAddress 1) 0 1 =
        .ok [addressRecord (transferIn (UInt64.ofNat (count + 1)))] := by
  obtain ⟨d, m, hrun, hnone, hm, hstands, hrecord⟩ := reached_transferChain hall (by omega)
  have hwell : ∀ bi ∈ transferChain (count + 1) (size + 2), BlockWellAddressed bi := by
    intro bi hbi
    obtain ⟨i, _, rfl⟩ := List.mem_map.mp hbi
    exact (transferBlock_wellAddressed (size + 2) (i + 1)).1
  have hholds := (history_kept rfl hrun hwell).holds
  have hA : (plainAddress 1).size = 25 := rfl
  -- the first two of the entries, the second not above the largest number
  have hentries := hholds.entries (plainAddress 1) hA
  rw [transferChain_succ, historyOf_transferBlock, List.replicate_succ, List.replicate_succ]
    at hentries
  obtain ⟨e, e', rest, htop⟩ : ∃ e e' rest,
      d.under (addressScan (plainAddress 1)) = e :: e' :: rest := by
    cases hu : d.under (addressScan (plainAddress 1)) with
    | nil => rw [hu] at hentries; exact absurd hentries (by simp)
    | cons e l =>
        cases l with
        | nil => rw [hu] at hentries; exact absurd hentries (by simp)
        | cons e' rest => exact ⟨e, e', rest, rfl⟩
  rw [htop] at hentries
  have hvalue : AddressInfo.deserialize e.2 =
      .ok (addressRecord (transferIn (UInt64.ofNat (count + 1)))) := (List.cons.inj hentries).1
  have hbehind : e.1 < addressKey (plainAddress 1) (UInt64.ofInt (2 ^ 64 - 1)) := by
    have hinc : OrdMap.Increasing (e :: e' :: rest) := htop ▸ OrdMap.increasing_under
    have hlt := (List.pairwise_cons.mp hinc).1 e' List.mem_cons_self
    obtain ⟨c, hc, _⟩ := hholds.of_under hA (e := e) (by rw [htop]; exact List.mem_cons_self)
    obtain ⟨c', hc', _⟩ := hholds.of_under hA (e := e')
      (by rw [htop]; exact List.mem_cons_of_mem _ List.mem_cons_self)
    rw [hc, hc', addressKey_lt] at hlt
    rw [hc, addressKey_lt]
    have hmax : (UInt64.ofInt (2 ^ 64 - 1)).toNat = 2 ^ 64 - 1 := by decide
    have := c'.toNat_lt
    omega
  obtain ⟨m₀, hrestart, hcount₀⟩ := hrun.restart_zero hrecord rfl
  -- one more transfer
  have hn : UInt64.ofNat (count + 2) ≠ 0 := ofNat_ne_zero (by omega) hcount
  obtain ⟨u, value, htx, _, hbatch⟩ := plainAddrTxs_transfer hn d (transferBlock 1 (count + 2)).header
    (decide (0 < UInt64.ofNat (count + 2))) (blockStart m₀)
  have htxs : ((plainAddrTxs.on d).processTransactions (transferBlock 1 (count + 2)).header
      (UInt64.ofNat (count + 2)) (decide (0 < UInt64.ofNat (count + 2)))
      [transferIn (UInt64.ofNat (count + 2))]).exec (blockStart m₀) = (.ok [none], u) :=
    exec_bind_ok.mpr ⟨none, u, htx, exec_bind_ok.mpr ⟨[], u, rfl, rfl⟩⟩
  obtain ⟨s, v, hexec, _, hbatch'⟩ := processBlock_chainBlock rfl rfl hnone hn htxs
  obtain ⟨m₁, _, _, hrun₁, _, _⟩ := hrestart.next_chainBlock hcount hstands hexec trivial
  refine ⟨addBatch s.batch d, m₁, hrun₁, ?_⟩
  have hunder : (addBatch s.batch d).under (addressScan (plainAddress 1)) =
      (d.insert (addressKey (plainAddress 1) (UInt64.ofInt (2 ^ 64 - 1))) value).under
        (addressScan (plainAddress 1)) := by
    refine OrdMap.under_congr (fun k hk => ?_)
    have hmain : ¬addressScan (plainAddress 1) <+: literalKey MAIN_BLOCK_NUMBER_PREFIX := by decide
    rw [hbatch', (Batch.Spares.addKeyInternal hmain v false).find?_addBatch d hk, hbatch,
      addBatch_addKeyInternal]
    show (OrdMap.insert _ (addressKey _ (UInt64.ofInt m₀.countVal)) _).find? k = _
    rw [hcount₀]
    rfl
  obtain ⟨rest', htop'⟩ := OrdMap.under_insert_behind (v := value) htop hbehind
  -- still one entry a number
  have hlen : ((addBatch s.batch d).under (addressScan (plainAddress 1))).length < 2 ^ 64 := by
    refine length_under_lt (fun x hx => ?_)
    rw [hunder] at hx
    obtain ⟨hpre, hf⟩ := OrdMap.mem_under.mp hx
    rw [OrdMap.find?_insert] at hf
    split at hf
    · rename_i heq
      exact ⟨_, heq, by decide⟩
    · obtain ⟨c, hkey, hc⟩ := hholds.of_under hA (OrdMap.mem_under.mpr ⟨hpre, hf⟩)
      exact ⟨c, hkey, by omega⟩
  refine (LevelDb.findAddressUnder_page (p := ADDRESS_PREFIX) rfl (by decide) (fun _ => by decide)
    hlen).trans ?_
  show (LevelDb.page 0 1 ((addBatch s.batch d).under (addressScan (plainAddress 1)))).mapM _ = _
  rw [hunder, htop']
  show [e].mapM _ = _
  rw [mapM_eq_ok_iff, List.map_singleton, hvalue]
  rfl

/--
**Once the counter has gone around** a record is overwritten: after 2^64 - 1 transfers to an
address, 65535 a block, and a restart, one more takes the place of the oldest record, and the
newest page shows a transfer of the block before.
-/
theorem record_overwritten :
    (∀ bi ∈ transferChain 281479271743489 65535 ++ [transferBlock 1 281479271743490],
      BlockWellAddressed bi ∧ bi.txs.length ≤ 65535) ∧
    ∃ d m, Reached plainAddrTxs (fun _ => True) d m
        (transferChain 281479271743489 65535 ++ [transferBlock 1 281479271743490]) ∧
      d.findAddress (plainAddress 1) 0 1 ≠ .ok (LevelDb.page 0 1 (historyOf (plainAddress 1)
        (transferChain 281479271743489 65535 ++ [transferBlock 1 281479271743490]))) := by
  constructor
  · intro bi hbi
    rcases List.mem_append.mp hbi with hbi | hbi
    · obtain ⟨i, _, rfl⟩ := List.mem_map.mp hbi
      exact ⟨(transferBlock_wellAddressed _ _).1, (transferBlock_wellAddressed _ _).2.le⟩
    · rw [List.mem_singleton.mp hbi]
      obtain ⟨hwell, hlen⟩ := transferBlock_wellAddressed 1 281479271743490
      exact ⟨hwell, by omega⟩
  · obtain ⟨d, m, hrun, hfound⟩ := @transferChain_around 281479271743488 65533 (by decide) (by decide)
    refine ⟨d, m, hrun, ?_⟩
    rw [hfound, historyOf_transferBlock]
    intro heq
    have hfirst := Except.ok.inj heq
    rw [List.replicate_one, List.singleton_append] at hfirst
    have hrecords := (List.cons.inj (hfirst.trans (if_neg Nat.one_ne_zero))).1
    exact absurd hrecords (by decide)

end WorkerMain

end TorrentNode
