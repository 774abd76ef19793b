import TorrentNode.Lib.Paging
import TorrentNode.Parsing.Block
import TorrentNode.Parsing.OneTransaction
import TorrentNode.Workers.History

/-!
# The history that a client gets (`WorkerMain::getTxsForAddress`)

The records of an address say where its transactions stand in the block files. A
client asks for a stretch of them, or goes through them with filters, page by page,
each time from where the call before left off.
-/

namespace TorrentNode

/-- `TransactionsFilters::FilterType` -/
inductive FilterType where
  | none
  | true
  | false
  deriving DecidableEq

/-- `TransactionsFilters`: what a request wants to see. -/
structure TransactionsFilters where
  isTest : FilterType
  isForging : FilterType
  isInput : FilterType
  isOutput : FilterType
  isDelegate : FilterType
  isSuccess : FilterType
  isTokens : FilterType
  deriving DecidableEq

/-- `std::sort` with a comparison: elements that it does not tell apart may come to stand in any
order. -/
structure StdSortBy (α : Type) (less : α → α → Bool) where
  sort : List α → List α
  perm : ∀ l, (sort l).Perm l
  sorted : ∀ l, (sort l).Pairwise (fun a b => less b a = false)

/-- The comparison of the lookups: the higher block number first. -/
def isNewer (first second : TransactionInfo) : Bool := decide (second.blockNumber < first.blockNumber)

/-- The block files and what is needed to read transactions from them. -/
structure BlockFolder where
  env : ParseEnv
  /-- What the memory holds when the transaction of this place is read. Calls that go on from each
  other read each place once. -/
  memory : FilePosition → UInt64
  /-- `openFile(file, getFullPath(fileNameRelative, folderBlocks))` -/
  openFile : Blob → Except Err Bytes
  sort : StdSortBy TransactionInfo isNewer

namespace BlockFolder

variable (folder : BlockFolder)

/-- A round of the loop of `readTxs`, with the file that is open. -/
def readTx (file : Bytes) (addressInfo : AddressInfo) : Except Err TransactionInfo := do
  let (res, tx) ← readOneSimpleTransactionInfo
    (folder.env.withMemory (folder.memory addressInfo.filePos)) file addressInfo.filePos.pos default
    false
  check res "Incorrect read transaction info"
  let tx := { tx with blockNumber := addressInfo.blockNumber, blockIndex := addressInfo.blockIndex }
  match addressInfo.undelegateValue, tx.delegate with
  | none, _ => pure tx
  | some _, none => .error (.exception "Incorrect delegate transaction")
  | some value, some info => do
    check (!info.isDelegate) "Incorrect delegate transaction"
    pure { tx with delegate := some { info with value } }

/-- The loop of `readTxs`: a file stays open as long as its name does not change. -/
def readTxsLoop (currFileName : Blob) (file : Option Bytes) :
    List AddressInfo → Except Err (List TransactionInfo)
  | [] => pure []
  | addressInfo :: foundResults => do
    let file ← if addressInfo.filePos.fileNameRelative ≠ currFileName then
        (folder.openFile addressInfo.filePos.fileNameRelative).map some
      else pure file
    match file with
    | none => .error (.exception "File not opened")
    | some bytes => do
      let tx ← folder.readTx bytes addressInfo
      let txs ← readTxsLoop addressInfo.filePos.fileNameRelative file foundResults
      pure (tx :: txs)

/-- `readTxs`: the transactions of these records, read from the files of their blocks. -/
def readTxs (foundResults : List AddressInfo) : Except Err (List TransactionInfo) :=
  folder.readTxsLoop ∅ none foundResults

end BlockFolder

/-! ## What is read -/

namespace BlockFolder

variable (folder : BlockFolder)

/-- A transaction that is read by itself. -/
def readOneTx (addressInfo : AddressInfo) : Except Err TransactionInfo := do
  let bytes ← folder.openFile addressInfo.filePos.fileNameRelative
  folder.readTx bytes addressInfo

variable {folder : BlockFolder}

/-- **A file that stays open** makes no difference: each transaction is read as if by itself. -/
theorem readTxsLoop_eq : ∀ {foundResults : List AddressInfo} {currFileName : Blob}
    {file : Option Bytes}, (currFileName = ∅ ∧ file = none ∨
      ∃ bytes, file = some bytes ∧ folder.openFile currFileName = .ok bytes) →
    (∀ r ∈ foundResults, r.filePos.fileNameRelative ≠ ∅) →
    folder.readTxsLoop currFileName file foundResults = foundResults.mapM folder.readOneTx
  | [], _, _, _, _ => rfl
  | r :: rs, currFileName, file, hopen, hnames => by
      have hrest : ∀ bytes, folder.openFile r.filePos.fileNameRelative = .ok bytes →
          folder.readTxsLoop r.filePos.fileNameRelative (some bytes) rs =
            rs.mapM folder.readOneTx := fun bytes hbytes =>
        readTxsLoop_eq (Or.inr ⟨bytes, rfl, hbytes⟩)
          (fun r' hr' => hnames r' (List.mem_cons_of_mem _ hr'))
      have hname := hnames r List.mem_cons_self
      rw [List.mapM_cons]
      unfold readTxsLoop readOneTx
      -- The file is open already, or it is opened now.
      by_cases hsame : r.filePos.fileNameRelative = currFileName
      · -- the name is not empty, so the file of this name is open
        obtain ⟨rfl, -⟩ | ⟨bytes, rfl, hbytes⟩ := hopen
        · exact absurd hsame hname
        · rw [if_neg (not_not.mpr hsame), hsame, hbytes, ← hsame]
          show (do
            let tx ← folder.readTx bytes r
            let txs ← folder.readTxsLoop r.filePos.fileNameRelative (some bytes) rs
            pure (tx :: txs)) = _
          rw [hrest bytes (hsame ▸ hbytes)]
          rfl
      · rw [if_pos hsame]
        cases hbytes : folder.openFile r.filePos.fileNameRelative with
        | error e => rfl
        | ok bytes =>
            show (do
              let tx ← folder.readTx bytes r
              let txs ← folder.readTxsLoop r.filePos.fileNameRelative (some bytes) rs
              pure (tx :: txs)) = _
            rw [hrest bytes hbytes]
            rfl

theorem readTxs_eq {foundResults : List AddressInfo}
    (hnames : ∀ r ∈ foundResults, r.filePos.fileNameRelative ≠ ∅) :
    folder.readTxs foundResults = foundResults.mapM folder.readOneTx :=
  readTxsLoop_eq (Or.inl ⟨rfl, rfl⟩) hnames

end BlockFolder

/-- A transaction that is read from nothing has its addresses, and keeps no bytes. -/
structure TransactionInfo.IsRead (tx : TransactionInfo) : Prop where
  fromSet : tx.fromAddress.isSet = true
  toSet : tx.toAddress.isSet = true
  noBytes : tx.allRawTx = ∅

theorem fillTransaction_isSet {env : ParseEnv} {memory : UInt64}
    {helper : PrevTransactionSignHelper} {body : TxBody} {clearTx hashed : Bytes}
    {filled : TransactionInfo}
    (h : fillTransaction env memory helper body clearTx hashed default = .ok filled) :
    filled.fromAddress.isSet = true ∧ filled.toAddress.isSet = true := by
  obtain ⟨isScript, -, h⟩ := bind_eq_ok.mp h
  obtain ⟨txRaw, -, h⟩ := bind_eq_ok.mp h
  obtain ⟨fromAddress, hfrom, h⟩ := bind_eq_ok.mp h
  obtain ⟨isSign, -, h⟩ := bind_eq_ok.mp h
  obtain ⟨isToken, -, h⟩ := bind_eq_ok.mp h
  obtain rfl := Except.ok.inj h
  refine ⟨?_, rfl⟩
  show fromAddress.isSet = true
  unfold senderAddress fillFields at hfrom
  simp only at hfrom
  by_cases hempty : body.pubKey.isEmpty = true
  · -- nothing is known of a sender before
    have hnone : (default : TransactionInfo).pubKey.isEmpty = true := rfl
    rw [if_pos hempty, if_pos hempty, if_pos hnone] at hfrom
    obtain rfl := Except.ok.inj hfrom
    rfl
  · rw [if_neg hempty, if_neg hempty] at hfrom
    obtain ⟨binAddress, -, hfrom⟩ := bind_eq_ok.mp hfrom
    obtain rfl := Except.ok.inj hfrom
    rfl

theorem isRead_of_readOne {env : ParseEnv} {file : Bytes} {pos : UInt64} {tx : TransactionInfo}
    (h : readOneSimpleTransactionInfo env file pos default false = .ok (true, tx)) : tx.IsRead := by
  unfold readOneSimpleTransactionInfo at h
  by_cases hend : UInt64.ofNat file.length ≤ pos
  · rw [if_pos hend] at h
    cases h
  rw [if_neg hend] at h
  by_cases hmore : 8 ≤ UInt64.ofNat file.length - pos
  · rw [if_pos hmore] at h
    obtain ⟨-, -, h⟩ := bind_eq_ok.mp h
    obtain ⟨sizeTx, -, h⟩ := bind_eq_ok.mp h
    simp only at h
    split at h
    · obtain ⟨⟨⟨isInitialized, tx_size, tx'⟩, next⟩, hread, h⟩ := bind_eq_ok.mp h
      obtain ⟨rfl, rfl⟩ := Prod.mk.inj (Except.ok.inj h)
      obtain ⟨_, _, _, _, _, filled, _, -, -, -, -, -, hfill, -, hbytes, rfl, -⟩ :=
        readSimple_iff.mp hread
      obtain ⟨hfrom, hto⟩ := fillTransaction_isSet hfill
      exact ⟨hfrom, hto, (Except.ok.inj hbytes).symm⟩
    · cases h
  · rw [if_neg hmore] at h
    cases h

theorem BlockFolder.isRead_readOneTx {folder : BlockFolder} {addressInfo : AddressInfo}
    {tx : TransactionInfo} (h : folder.readOneTx addressInfo = .ok tx) : tx.IsRead := by
  obtain ⟨bytes, -, h⟩ := bind_eq_ok.mp h
  obtain ⟨⟨res, tx'⟩, hread, h⟩ := bind_eq_ok.mp h
  obtain ⟨hres, htx⟩ := check_bind_eq_ok.mp h
  have hres : res = true := hres
  subst hres
  have hisRead := isRead_of_readOne hread
  simp only at htx
  cases hvalue : addressInfo.undelegateValue with
  | none =>
      rw [hvalue] at htx
      obtain rfl := Except.ok.inj htx
      exact ⟨hisRead.fromSet, hisRead.toSet, hisRead.noBytes⟩
  | some value =>
      rw [hvalue] at htx
      cases hinfo : tx'.delegate with
      | none =>
          rw [hinfo] at htx
          cases htx
      | some info =>
          rw [hinfo] at htx
          simp only at htx
          obtain ⟨-, htx⟩ := check_bind_eq_ok.mp htx
          obtain rfl := Except.ok.inj htx
          exact ⟨hisRead.fromSet, hisRead.toSet, hisRead.noBytes⟩

/-- Where a transaction says it stands, there it stands. -/
structure BlockFolder.Stands (folder : BlockFolder) (tx : TransactionInfo) : Prop where
  named : tx.filePos.fileNameRelative ≠ ∅
  found : ∃ file : Blob, folder.openFile tx.filePos.fileNameRelative = .ok file.val ∧
    tx.ReadFrom folder.env file

/-- A transaction as a history shows it. -/
def BlockFolder.shown (folder : BlockFolder) (tx : TransactionInfo) : TransactionInfo :=
  { tx.remembering folder.env (folder.memory tx.filePos) with
    filePos := default, allRawTx := ∅, isSignBlockTx := false }

/-- **A record** is read as the transaction that left it. -/
theorem BlockFolder.Stands.read_addressRecord {folder : BlockFolder} {tx : TransactionInfo}
    (h : folder.Stands tx) :
    folder.readOneTx (WorkerMain.addressRecord tx) = .ok (folder.shown tx) := by
  obtain ⟨file, hopen, hfrom⟩ := h.found
  obtain ⟨allRawTx, hread⟩ := hfrom (folder.memory tx.filePos) false default 0 0 ∅
  have hread : readOneSimpleTransactionInfo (folder.env.withMemory (folder.memory tx.filePos))
      file.val tx.filePos.pos default false =
      .ok (true, (tx.alone default 0 0 allRawTx).remembering folder.env
        (folder.memory tx.filePos)) := hread
  have hbytes : allRawTx = ∅ := (isRead_of_readOne hread).noBytes
  unfold readOneTx readTx WorkerMain.addressRecord AddressInfo.new
  simp only
  rw [hopen]
  simp only [Bind.bind, Except.bind, hread, check_true, hbytes]
  rfl

/-! ## Filters -/

/-- `operator!=` -/
def Address.ne (a second : Address) : Except Err Bool := (a.eq second).map (! ·)

namespace TransactionsFilters

variable (filters : TransactionsFilters) (address : Address)

/-- `filter == FilterType::True && a != second` -/
def asksAndNe (filter : FilterType) (a second : Address) : Except Err Bool :=
  if filter = .true then a.ne second else .ok false

/-- The lambda of `filterTxs`: whether the transaction is removed. -/
def removes (tx : TransactionInfo) : Except Err Bool := do
  let notTo ← asksAndNe filters.isInput tx.toAddress address
  if notTo then pure true
  else do
    let notFrom ← asksAndNe filters.isOutput tx.fromAddress address
    if notFrom then pure true
    else if filters.isSuccess = .true ∧ tx.isIntStatusNotSuccess = true then pure true
    else if filters.isTokens = .true then pure false
    else if filters.isDelegate = .none ∧ filters.isForging = .none ∧ filters.isTest = .none then
      pure false
    else if filters.isDelegate = .true ∧ tx.delegate.isSome = true then pure false
    else if filters.isForging = .true ∧ tx.isIntStatusForging = true then pure false
    else if filters.isTest = .true ∧ tx.isIntStatusNodeTest = true then pure false
    else pure true

/-- `filterTransactions`: those that no filter removes. -/
def filterTxs : List TransactionInfo → Except Err (List TransactionInfo)
  | [] => pure []
  | tx :: txs => do
    let removed ← filters.removes address tx
    let rest ← filterTxs txs
    pure (if removed then rest else tx :: rest)

/-- What the filters ask for: sides and success each for themselves, and of the kinds one. -/
def Passes (A : Blob) (tx : TransactionInfo) : Prop :=
  (filters.isInput = .true → tx.toAddress.address = A) ∧
  (filters.isOutput = .true → tx.fromAddress.address = A) ∧
  (filters.isSuccess = .true → tx.isIntStatusNotSuccess = false) ∧
  (filters.isTokens = .true ∨
    filters.isDelegate = .none ∧ filters.isForging = .none ∧ filters.isTest = .none ∨
    filters.isDelegate = .true ∧ tx.delegate.isSome = true ∨
    filters.isForging = .true ∧ tx.isIntStatusForging = true ∨
    filters.isTest = .true ∧ tx.isIntStatusNodeTest = true)

instance (A : Blob) (tx : TransactionInfo) : Decidable (filters.Passes A tx) :=
  inferInstanceAs (Decidable (_ ∧ _))

variable {filters address}

theorem asksAndNe_eq {filter : FilterType} {a second : Address} (ha : a.isSet = true)
    (hsecond : second.isSet = true) :
    asksAndNe filter a second = .ok (decide ¬(filter = .true → a.address = second.address)) := by
  have hne : a.ne second = .ok (!(a.address == second.address)) := by
    unfold Address.ne Address.eq
    rw [ha, hsecond]
    rfl
  unfold asksAndNe
  by_cases hfilter : filter = .true
  · rw [if_pos hfilter, hne]
    by_cases heq : a.address = second.address
    · simp [heq]
    · rw [beq_eq_false_iff_ne.mpr heq]
      simp [hfilter, heq]
  · simp [hfilter]

/-- **The filter** removes what does not pass. -/
theorem removes_eq {tx : TransactionInfo} (haddress : address.isSet = true) (htx : tx.IsRead) :
    filters.removes address tx = .ok (decide ¬filters.Passes address.address tx) := by
  unfold removes Passes
  rw [asksAndNe_eq htx.toSet haddress, asksAndNe_eq htx.fromSet haddress]
  simp only [Bind.bind, Except.bind, Pure.pure, Except.pure, decide_eq_true_eq]
  split_ifs <;> grind

theorem filterTxs_eq (haddress : address.isSet = true) : ∀ {txs : List TransactionInfo},
    (∀ tx ∈ txs, tx.IsRead) →
    filters.filterTxs address txs =
      .ok (txs.filter (fun tx => decide (filters.Passes address.address tx)))
  | [], _ => rfl
  | tx :: txs, h => by
      unfold filterTxs
      rw [removes_eq haddress (h tx List.mem_cons_self),
        filterTxs_eq haddress (fun tx' htx' => h tx' (List.mem_cons_of_mem _ htx')),
        List.filter_cons]
      by_cases hpasses : filters.Passes address.address tx
      · simp only [hpasses, not_true, decide_false, decide_true, if_true]
        rfl
      · simp only [hpasses, not_false_iff, decide_false, decide_true]
        rfl

end TransactionsFilters

namespace WorkerMain

variable (w : WorkerMain) (folder : BlockFolder) (address : Address)

/-- `getTxsForAddressWithoutStatuses(address, from, count, limitTxs)` -/
def getTxsForAddressWithoutStatuses (fromIndex count limitTxs : UInt64) :
    Except Err (List TransactionInfo) := do
  let countLimited := min (if count = 0 then limitTxs + 10 else count) (limitTxs + 10)
  let name ← address.toBdString
  let foundResults ← w.leveldb.findAddress name fromIndex countLimited
  check (decide (foundResults.length < limitTxs.toNat))
    "Too many transactions in history. Please, request a history with chunks"
  let txs ← folder.readTxs foundResults
  pure (folder.sort.sort txs)

/-- The loop of `getTxsForAddressWithoutStatuses` with filters, for as many rounds as there is
fuel. -/
def getTxsForAddressLoop (count limitTxs : UInt64) (filters : TransactionsFilters) :
    (fuel : Nat) → (result : List TransactionInfo) → (fromIndex : UInt64) →
      Except Err (Option (List TransactionInfo × UInt64))
  | 0, _, _ => pure none
  | fuel + 1, result, fromIndex => do
    let name ← address.toBdString
    let left := limitTxs - UInt64.ofNat result.length
    let foundResults ← (if filters.isTokens = .true then
        w.leveldb.findAddressTokens name fromIndex left
      else w.leveldb.findAddress name fromIndex left)
    if foundResults.isEmpty then pure (some (result, fromIndex))
    else do
      check (decide (foundResults.length ≤ limitTxs.toNat))
        "Too many transactions in history. Please, request a history with chunks"
      let txs ← folder.readTxs foundResults
      let txs ← filters.filterTxs address txs
      let result := result ++ txs
      let fromIndex := fromIndex + UInt64.ofNat foundResults.length
      if count.toNat ≤ result.length then pure (some (result, fromIndex))
      else getTxsForAddressLoop count limitTxs filters fuel result fromIndex

/-- `getTxsForAddressWithoutStatuses(address, from, count, limitTxs, filters)`, with `from` as it is
left. -/
def getTxsForAddressFiltersWithoutStatuses (fuel : Nat) (fromIndex count limitTxs : UInt64)
    (filters : TransactionsFilters) : Except Err (Option (List TransactionInfo × UInt64)) := do
  match ← w.getTxsForAddressLoop folder address count limitTxs filters fuel [] fromIndex with
  | none => pure none
  | some (result, fromIndex) =>
    pure (some (folder.sort.sort (result.take count.toNat), fromIndex))

/-- The statuses of the address, put to its transactions; of two for one hash the first counts. -/
def fillStatuses (statusesVect : List TransactionStatus) (tx : TransactionInfo) : TransactionInfo :=
  fillStatusTransaction (fun hash => statusesVect.find? (fun status => status.transaction = hash)) tx

/-- `getTxsForAddress(address, from, count, limitTxs)` -/
def getTxsForAddress (fromIndex count limitTxs : UInt64) : Except Err (List TransactionInfo) := do
  check w.modules.addrTxs "module addr_txs not set"
  let txs ← w.getTxsForAddressWithoutStatuses folder address fromIndex count limitTxs
  let name ← address.toBdString
  let statusesVect ← w.leveldb.findAddressStatus name
  pure (txs.map (fillStatuses statusesVect))

/-- `getTxsForAddress(address, from, count, limitTxs, filters)`, with `from` as it is left. -/
def getTxsForAddressFilters (fuel : Nat) (fromIndex count limitTxs : UInt64)
    (filters : TransactionsFilters) : Except Err (Option (List TransactionInfo × UInt64)) := do
  check w.modules.addrTxs "module addr_txs not set"
  match ← w.getTxsForAddressFiltersWithoutStatuses folder address fuel fromIndex count limitTxs
    filters with
  | none => pure none
  | some (txs, fromIndex) => do
    let name ← address.toBdString
    let statusesVect ← w.leveldb.findAddressStatus name
    pure (some (txs.map (fillStatuses statusesVect), fromIndex))

end WorkerMain

end TorrentNode
