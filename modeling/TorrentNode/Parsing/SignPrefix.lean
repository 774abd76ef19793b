import TorrentNode.Parsing.Block
import TorrentNode.Parsing.Framing

/-!
# The signatures at the beginning of a block

Whether a transaction counts as a signature depends on the one before it. So the
signatures are the first transactions, and their number, which the header keeps, is
enough to read them and no others.
-/

namespace TorrentNode

open CursorReader

variable {env : ParseEnv} {raw : Bytes} {pos next : Nat} {tx_size : UInt64}
  {helper : PrevTransactionSignHelper} {isSaveAllTx isValidate : Bool} {txInfo tx : TransactionInfo}

/-! ## One transaction -/

/-- The end of the transactions, and a transaction. -/
theorem readSimple_cases {isInitialized : Bool}
    (h : (readSimpleTransactionInfo env true isSaveAllTx helper isValidate txInfo).runFrom raw pos =
      .ok ((isInitialized, tx_size, tx), next)) :
    (isInitialized = true ∧ tx_size ≠ 0) ∨
      (isInitialized = false ∧ tx_size = 0 ∧ tx = txInfo ∧
        readTxSize.runFrom raw pos = .ok (0, next)) := by
  obtain ⟨_, _, hstart, h⟩ := runFrom_bind_ok h
  cases hstart
  obtain ⟨_, _, hstart, h⟩ := runFrom_bind_ok h
  cases hstart
  obtain ⟨tx_size', cur, hsize, h⟩ := runFrom_bind_ok h
  by_cases hzero : tx_size' = 0
  · right
    rw [if_pos hzero] at h
    cases h
    rw [hzero] at hsize
    exact ⟨rfl, rfl, rfl, hsize⟩
  · left
    rw [if_neg hzero] at h
    obtain ⟨_, _, hstart, h⟩ := runFrom_bind_ok h
    cases hstart
    simp only [Bool.not_true, Bool.false_eq_true, if_false] at h
    obtain ⟨_, _, -, h⟩ := runFrom_bind_ok h
    obtain ⟨_, _, -, h⟩ := runFrom_bind_ok h
    obtain ⟨_, _, -, h⟩ := runFrom_bind_ok h
    obtain ⟨_, _, -, h⟩ := runFrom_bind_ok h
    obtain ⟨_, _, -, h⟩ := runFrom_bind_ok h
    cases h
    exact ⟨rfl, hzero⟩

/-- The end is read with all options. -/
theorem readSimple_end (h : readTxSize.runFrom raw pos = .ok (0, next)) :
    (readSimpleTransactionInfo env true isSaveAllTx helper isValidate txInfo).runFrom raw pos =
      .ok ((false, 0, txInfo), next) := by
  simp only [readSimpleTransactionInfo, runFrom_bind, runFrom_input, runFrom_position, Except.bind,
    h, if_true, runFrom_pure]

/-- A transaction stands inside the input. -/
theorem readSimple_inside
    (h : (readSimpleTransactionInfo env true isSaveAllTx helper isValidate txInfo).runFrom raw pos =
      .ok ((true, tx_size, tx), next)) : pos < next ∧ next ≤ raw.length := by
  obtain ⟨size, body, intStatus, n, k, filled, allRawTx, hsize, hat, hfits, -, hread, -, -, -, -, rfl⟩ :=
    readSimple_iff.mp h
  obtain ⟨xs, rest, hframe, -, hk, -⟩ := readTxFrame_iff.mp hread
  have hpos := hsize.length_pos
  have hlen := congrArg List.length hframe
  rw [List.length_take, List.length_drop, List.length_append] at hlen
  omega

/-- A transaction apart from where it stands and how its bytes were kept. -/
def TransactionInfo.bare (tx : TransactionInfo) : TransactionInfo :=
  { tx with allRawTx := ∅, filePos := default, blockIndex := 0 }

/-- A transaction with its place in the block. -/
def TransactionInfo.atIndex (tx : TransactionInfo) (i : Nat) : TransactionInfo :=
  { tx with blockIndex := UInt64.ofNat i }

@[simp] theorem TransactionInfo.bare_atIndex (tx : TransactionInfo) (i : Nat) :
    (tx.atIndex i).bare = tx.bare := rfl

@[simp] theorem TransactionInfo.isSignBlockTx_atIndex (tx : TransactionInfo) (i : Nat) :
    (tx.atIndex i).isSignBlockTx = tx.isSignBlockTx := rfl

/-- Only what follows a signature is a signature. -/
theorem isSignBlockTx_helper (h : isSignBlockTx txInfo helper = .ok true) :
    helper.isPrevSign = true := by
  unfold isSignBlockTx at h
  cases hprev : helper.isPrevSign with
  | true => rfl
  | false =>
      rw [hprev] at h
      cases h

theorem fillTransaction_isSign {memory : UInt64} {body : TxBody} {clearTx hashed : Bytes}
    {filled : TransactionInfo}
    (h : fillTransaction env memory helper body clearTx hashed txInfo = .ok filled)
    (hsign : filled.isSignBlockTx = true) : helper.isPrevSign = true := by
  obtain ⟨isScript, -, h⟩ := bind_eq_ok.mp h
  obtain ⟨txRaw, -, h⟩ := bind_eq_ok.mp h
  obtain ⟨fromAddress, -, h⟩ := bind_eq_ok.mp h
  obtain ⟨isSign, hread, h⟩ := bind_eq_ok.mp h
  obtain ⟨isToken, -, h⟩ := bind_eq_ok.mp h
  obtain rfl := Except.ok.inj h
  exact isSignBlockTx_helper (hread.trans (congrArg Except.ok hsign))

theorem fillTransaction_filePos {memory : UInt64} {body : TxBody} {clearTx hashed : Bytes}
    {filled : TransactionInfo}
    (filePos : FilePosition)
    (h : fillTransaction env memory helper body clearTx hashed txInfo = .ok filled) :
    fillTransaction env memory helper body clearTx hashed { txInfo with filePos } =
      .ok { filled with filePos } := by
  obtain ⟨isScript, hscript, h⟩ := bind_eq_ok.mp h
  obtain ⟨txRaw, hraw, h⟩ := bind_eq_ok.mp h
  obtain ⟨fromAddress, hfrom, h⟩ := bind_eq_ok.mp h
  obtain ⟨isSign, hread, h⟩ := bind_eq_ok.mp h
  obtain ⟨isToken, htoken, h⟩ := bind_eq_ok.mp h
  obtain rfl := Except.ok.inj h
  refine bind_eq_ok.mpr ⟨isScript, hscript, bind_eq_ok.mpr ⟨txRaw, hraw, bind_eq_ok.mpr
    ⟨fromAddress, hfrom, bind_eq_ok.mpr ⟨isSign, hread, bind_eq_ok.mpr ⟨isToken, htoken, rfl⟩⟩⟩⟩⟩

/-- The same transaction is read with the bytes kept or not, with the signature checked or not, and
wherever it stands in the file. -/
theorem readSimple_unchecked {posInFile : UInt64} (posInFile' : UInt64)
    (h : (readSimpleTransactionInfo env true isSaveAllTx helper isValidate (freshTx posInFile pos)).runFrom
      raw pos = .ok ((true, tx_size, tx), next)) :
    ∃ tx', (readSimpleTransactionInfo env true false helper false (freshTx posInFile' pos)).runFrom
        raw pos = .ok ((true, tx_size, tx'), next) ∧ tx'.bare = tx.bare := by
  obtain ⟨size, body, intStatus, n, k, filled, allRawTx, hsize, hat, hfits, hne, hread, hfill, -, -, rfl,
    hnext⟩ := readSimple_iff.mp h
  have hfill' := fillTransaction_filePos (freshTx posInFile' pos).filePos hfill
  exact ⟨_, readSimple_iff.mpr ⟨size, body, intStatus, n, k, _, ∅, hsize, hat, hfits, hne, hread, hfill',
    rfl, rfl, rfl, hnext⟩, rfl⟩

/-! ## The transactions of a block -/

/-- The transactions that stand at a position, up to the end, as they are read behind `helper`. -/
inductive TxRun (env : ParseEnv) (isSaveAllTx isValidate : Bool) (posInFile : UInt64) (raw : Bytes) :
    Nat → PrevTransactionSignHelper → Nat → List TransactionInfo → Prop where
  | last {i pos next : Nat} {helper : PrevTransactionSignHelper} :
      readTxSize.runFrom raw pos = .ok (0, next) →
      TxRun env isSaveAllTx isValidate posInFile raw i helper pos []
  | tx {i pos next : Nat} {helper : PrevTransactionSignHelper} {tx_size : UInt64}
      {tx : TransactionInfo} {txs : List TransactionInfo} :
      (readSimpleTransactionInfo env true isSaveAllTx helper isValidate (freshTx posInFile pos)).runFrom
          raw pos = .ok ((true, tx_size, tx), next) →
      TxRun env isSaveAllTx isValidate posInFile raw (i + 1) (.next tx) next txs →
      TxRun env isSaveAllTx isValidate posInFile raw i helper pos
        (tx.atIndex i :: txs)

namespace TxRun

variable {posInFile : UInt64} {i : Nat} {txs : List TransactionInfo}

/-- There are no more transactions than bytes. -/
theorem length_le (h : TxRun env isSaveAllTx isValidate posInFile raw i helper pos txs) :
    pos + txs.length < raw.length := by
  induction h with
  | last hend =>
      obtain ⟨size, hsize, -, hnext, hle⟩ := readTxSize_ok hend
      have hpos := hsize.length_pos
      rw [List.length_nil]
      omega
  | tx hread _ ih =>
      have hinside := readSimple_inside hread
      rw [List.length_cons]
      omega

/-- Behind a transaction that is no signature there is none. -/
theorem no_sign (h : TxRun env isSaveAllTx isValidate posInFile raw i helper pos txs)
    (hprev : helper.isPrevSign = false) : ∀ tx ∈ txs, tx.isSignBlockTx = false := by
  induction h with
  | last _ => exact fun tx htx => by cases htx
  | @tx i pos next helper tx_size tx txs hread _ ih =>
      have hno : tx.isSignBlockTx = false := by
        obtain ⟨_, _, _, _, _, filled, _, -, -, -, -, -, hfill, -, -, rfl, -⟩ := readSimple_iff.mp hread
        by_contra hsign
        have hprev' := fillTransaction_isSign hfill (Bool.not_eq_false _ ▸ hsign)
        rw [hprev] at hprev'
        cases hprev'
      intro tx' htx'
      rcases List.mem_cons.mp htx' with rfl | htx'
      · exact hno
      · exact ih hno tx' htx'

/-- **The signatures come first.** -/
theorem sign_prefix (h : TxRun env isSaveAllTx isValidate posInFile raw i helper pos txs) :
    txs.filter TransactionInfo.isSignBlockTx =
      txs.take (txs.countP TransactionInfo.isSignBlockTx) := by
  induction h with
  | last _ => rfl
  | @tx i pos next helper tx_size tx txs hread hrest ih =>
      rw [List.filter_cons, List.countP_cons, TransactionInfo.isSignBlockTx_atIndex]
      by_cases hsign : tx.isSignBlockTx = true
      · rw [if_pos hsign, if_pos hsign, List.take_succ_cons, ih]
      · have hno := hrest.no_sign (Bool.not_eq_true _ ▸ hsign)
        have hfilter : txs.filter TransactionInfo.isSignBlockTx = [] := by
          rw [List.filter_eq_nil_iff]
          intro tx' htx' htrue
          rw [hno tx' htx'] at htrue
          cases htrue
        rw [if_neg hsign, if_neg hsign, List.countP_eq_length_filter, hfilter]
        rfl

/-- The transactions at a position are determined. -/
theorem unique (h : TxRun env isSaveAllTx isValidate posInFile raw i helper pos txs) :
    ∀ {txs'}, TxRun env isSaveAllTx isValidate posInFile raw i helper pos txs' → txs' = txs := by
  induction h with
  | last hend =>
      intro txs' h'
      cases h' with
      | last _ => rfl
      | tx hread _ =>
          rw [readSimple_end hend] at hread
          cases hread
  | tx hread _ ih =>
      intro txs' h'
      cases h' with
      | last hend =>
          rw [readSimple_end hend] at hread
          cases hread
      | tx hread' hrest' =>
          rw [hread] at hread'
          cases hread'
          rw [ih hrest']

/-- They are the same with all options. -/
theorem unchecked (h : TxRun env isSaveAllTx isValidate posInFile raw i helper pos txs) :
    ∀ j, ∃ txs', TxRun env false false 0 raw j helper pos txs' ∧
      txs'.map TransactionInfo.bare = txs.map TransactionInfo.bare := by
  induction h with
  | last hend => exact fun j => ⟨[], .last hend, rfl⟩
  | @tx i pos next helper tx_size tx txs hread _ ih =>
      intro j
      obtain ⟨tx', hread', hbare⟩ := readSimple_unchecked 0 hread
      obtain ⟨txs', hrest, heq⟩ := ih (j + 1)
      have hhelper : PrevTransactionSignHelper.next tx = .next tx' := by
        have hsign := congrArg TransactionInfo.isSignBlockTx hbare
        have hdata := congrArg TransactionInfo.data hbare
        change tx'.isSignBlockTx = tx.isSignBlockTx at hsign
        change tx'.data = tx.data at hdata
        rw [PrevTransactionSignHelper.next, PrevTransactionSignHelper.next, hsign, hdata]
      rw [hhelper] at hrest
      refine ⟨tx'.atIndex j :: txs', .tx hread' hrest, ?_⟩
      rw [List.map_cons, List.map_cons, heq, TransactionInfo.bare_atIndex,
        TransactionInfo.bare_atIndex, hbare]

end TxRun

/-! ## The loop -/

/-- The state behind a transaction. -/
def TxsState.push (s : TxsState) (tx : TransactionInfo) : TxsState where
  txs := s.txs ++ [tx.atIndex s.txIndex]
  txIndex := s.txIndex + 1
  countSignTxs := if tx.isSignBlockTx then s.countSignTxs + 1 else s.countSignTxs
  helper := .next tx

variable {options : ReadOptions} {posInFile : UInt64} {s s' : TxsState} {fuel : Nat}

/-- A round of the loop that reads a transaction. -/
theorem readTxs_tx (hbegin : options.beginTx = 0)
    (h : (readSimpleTransactionInfo env true options.isSaveAllTx s.helper options.isValidate
      (freshTx posInFile pos)).runFrom raw pos = .ok ((true, tx_size, tx), next)) :
    (readTxs env options posInFile (fuel + 1) s).runFrom raw pos =
      if options.countTx ≠ 0 ∧ options.countTx.toNat ≤ s.txs.length + 1 then
        .ok ({ s with txs := s.txs ++ [tx.atIndex s.txIndex] }, next)
      else (readTxs env options posInFile fuel (s.push tx)).runFrom raw next := by
  have hread : decide (options.beginTx.toNat ≤ s.txIndex) = true := by
    rw [hbegin]
    exact decide_eq_true (Nat.zero_le _)
  have hne : tx_size ≠ 0 := by
    rcases readSimple_cases h with ⟨-, hne⟩ | ⟨hfalse, -⟩
    · exact hne
    · cases hfalse
  simp only [readTxs, runFrom_bind, runFrom_position, Except.bind, hread, h, Bool.and_self, if_true,
    List.length_append, List.length_singleton]
  by_cases hstop : options.countTx ≠ 0 ∧ options.countTx.toNat ≤ s.txs.length + 1
  · rw [if_pos hstop, if_pos hstop]
    rfl
  · rw [if_neg hstop, if_neg hstop, if_neg hne]
    rfl

/-- The last round. -/
theorem readTxs_last (env : ParseEnv) (posInFile : UInt64) (fuel : Nat) (s : TxsState)
    (hbegin : options.beginTx = 0) (h : readTxSize.runFrom raw pos = .ok (0, next)) :
    ∃ s', (readTxs env options posInFile (fuel + 1) s).runFrom raw pos = .ok (s', next) ∧
      s'.txs = s.txs ∧ s'.countSignTxs = s.countSignTxs := by
  have hread : decide (options.beginTx.toNat ≤ s.txIndex) = true := by
    rw [hbegin]
    exact decide_eq_true (Nat.zero_le _)
  simp only [readTxs, runFrom_bind, runFrom_position, Except.bind, hread, readSimple_end h,
    Bool.false_and, Bool.false_eq_true, if_false]
  by_cases hstop : options.countTx ≠ 0 ∧ options.countTx.toNat ≤ s.txs.length
  · rw [if_pos hstop]
    exact ⟨s, rfl, rfl, rfl⟩
  · rw [if_neg hstop, if_pos trivial]
    exact ⟨_, rfl, rfl, rfl⟩

/-- The loop reads all transactions, if it is not to stop earlier. -/
theorem run_of_readTxs (hbegin : options.beginTx = 0)
    (hcount : options.countTx = 0 ∨ raw.length < options.countTx.toNat) : ∀ (fuel pos : Nat)
    (s : TxsState), s.txs.length ≤ pos →
    (readTxs env options posInFile fuel s).runFrom raw pos = .ok (s', next) →
      ∃ txs, TxRun env options.isSaveAllTx options.isValidate posInFile raw s.txIndex s.helper pos txs ∧
        s'.txs = s.txs ++ txs ∧
        s'.countSignTxs = s.countSignTxs + txs.countP TransactionInfo.isSignBlockTx := by
  intro fuel
  -- By induction on the fuel; `hpos` bounds the number of transactions by the bytes read.
  induction fuel with
  | zero => exact fun _ _ _ h => by cases h
  | succ fuel ih =>
      intro pos s hpos h
      have hread : decide (options.beginTx.toNat ≤ s.txIndex) = true := by
        rw [hbegin]
        exact decide_eq_true (Nat.zero_le _)
      obtain ⟨_, _, hstart, hround⟩ := runFrom_bind_ok h
      cases hstart
      obtain ⟨⟨isInitialized, tx_size, tx⟩, next', hsimple, -⟩ := runFrom_bind_ok hround
      rw [hread] at hsimple
      -- A transaction is pushed, or the size of zero ends the loop.
      rcases readSimple_cases hsimple with ⟨rfl, hne⟩ | ⟨rfl, rfl, rfl, hend⟩
      · obtain ⟨hmoves, hinside⟩ := readSimple_inside hsimple
        have hgoes : ¬(options.countTx ≠ 0 ∧ options.countTx.toNat ≤ s.txs.length + 1) := by
          rintro ⟨hne, hle⟩
          rcases hcount with hzero | hlarge
          · exact hne hzero
          · omega
        rw [readTxs_tx hbegin hsimple, if_neg hgoes] at h
        have hlen : (s.push tx).txs.length ≤ next' := by
          unfold TxsState.push
          rw [List.length_append, List.length_singleton]
          omega
        obtain ⟨txs, hrun, htxs, hsigns⟩ := ih next' (s.push tx) hlen h
        refine ⟨tx.atIndex s.txIndex :: txs, .tx hsimple hrun, ?_, ?_⟩
        · rw [htxs, TxsState.push, List.append_assoc]
          rfl
        · have hpush : (s.push tx).countSignTxs =
              if tx.isSignBlockTx then s.countSignTxs + 1 else s.countSignTxs := rfl
          rw [hsigns, List.countP_cons, TransactionInfo.isSignBlockTx_atIndex, hpush]
          by_cases hsign : tx.isSignBlockTx = true
          · rw [if_pos hsign, if_pos hsign]
            omega
          · rw [if_neg hsign, if_neg hsign]
            omega
      · obtain ⟨s'', hlast, htxs, hsigns⟩ := readTxs_last env posInFile fuel s hbegin hend
        rw [hlast] at h
        cases h
        refine ⟨[], .last hend, ?_, ?_⟩
        · rw [htxs, List.append_nil]
        · rw [hsigns]
          rfl

/-- **A bounded reading** yields the first transactions. -/
theorem readTxs_of_run (hbegin : options.beginTx = 0) (hcount : options.countTx ≠ 0)
    {i pos : Nat} {txs : List TransactionInfo}
    (h : TxRun env options.isSaveAllTx options.isValidate posInFile raw i helper pos txs) :
    ∀ (fuel : Nat) (s : TxsState), s.txIndex = i → s.helper = helper →
      s.txs.length < options.countTx.toNat → txs.length < fuel →
      ∃ s' next, (readTxs env options posInFile fuel s).runFrom raw pos = .ok (s', next) ∧
        s'.txs = s.txs ++ txs.take (options.countTx.toNat - s.txs.length) := by
  -- By induction on the run; the loop stops at its bound or goes on with the rest.
  induction h with
  | last hend =>
      intro fuel s _ _ _ hfuel
      obtain ⟨fuel, rfl⟩ := Nat.exists_eq_succ_of_ne_zero (Nat.ne_of_gt hfuel)
      obtain ⟨s', hlast, htxs, -⟩ := readTxs_last env posInFile fuel s hbegin hend
      exact ⟨s', _, hlast, by rw [htxs, List.take_nil, List.append_nil]⟩
  | @tx i pos next helper tx_size tx txs hread _ ih =>
      intro fuel s hi hhelper hlen hfuel
      rw [List.length_cons] at hfuel
      obtain ⟨fuel, rfl⟩ := Nat.exists_eq_succ_of_ne_zero (Nat.ne_of_gt (Nat.zero_lt_of_lt hfuel))
      rw [← hhelper] at hread
      rw [Nat.succ_eq_add_one, readTxs_tx hbegin hread]
      obtain ⟨more, hmore⟩ : ∃ more, options.countTx.toNat - s.txs.length = more + 1 :=
        ⟨options.countTx.toNat - s.txs.length - 1, by omega⟩
      rw [hmore, List.take_succ_cons, ← hi]
      by_cases hstop : options.countTx ≠ 0 ∧ options.countTx.toNat ≤ s.txs.length + 1
      · rw [if_pos hstop]
        have hzero : more = 0 := by omega
        refine ⟨_, _, rfl, ?_⟩
        rw [hzero, List.take_zero]
      · rw [if_neg hstop]
        have hpush : (s.push tx).txs.length = s.txs.length + 1 := by
          rw [TxsState.push, List.length_append, List.length_singleton]
        have hlt : s.txs.length + 1 < options.countTx.toNat := by
          by_contra hle
          exact hstop ⟨hcount, by omega⟩
        obtain ⟨s', next', hrest, htxs⟩ := ih fuel (s.push tx) (by rw [TxsState.push, hi]) rfl
          (by rw [hpush]; exact hlt) (by omega)
        refine ⟨s', next', hrest, ?_⟩
        have hleft : options.countTx.toNat - (s.push tx).txs.length = more := by omega
        rw [htxs, hleft, TxsState.push, List.append_assoc]
        rfl

/-- Every reading moves the cursor. -/
theorem readSimple_moves {isParseTx : Bool} {r : Bool × UInt64 × TransactionInfo}
    (h : (readSimpleTransactionInfo env isParseTx isSaveAllTx helper isValidate txInfo).runFrom raw
      pos = .ok (r, next)) : pos < next ∧ pos < raw.length := by
  obtain ⟨_, _, hstart, h⟩ := runFrom_bind_ok h
  cases hstart
  obtain ⟨_, _, hstart, h⟩ := runFrom_bind_ok h
  cases hstart
  obtain ⟨tx_size', cur, hsize, h⟩ := runFrom_bind_ok h
  obtain ⟨size, hvarint, -, hcur, hfits⟩ := readTxSize_ok hsize
  have hpos := hvarint.length_pos
  -- At least the size was read, and nothing goes back.
  have hcur' : cur ≤ next := by
    by_cases hzero : tx_size' = 0
    · rw [if_pos hzero] at h
      cases h
      exact Nat.le_refl _
    rw [if_neg hzero] at h
    obtain ⟨_, _, hstart, h⟩ := runFrom_bind_ok h
    cases hstart
    cases isParseTx with
    | false =>
        cases h
        exact Nat.le_add_right _ _
    | true =>
        simp only [Bool.not_true, Bool.false_eq_true, if_false] at h
        obtain ⟨_, stop, hframe, h⟩ := runFrom_bind_ok h
        obtain ⟨k, -, rfl⟩ := within_ok hframe
        obtain ⟨_, _, hend, h⟩ := runFrom_bind_ok h
        cases hend
        -- the rest does not read
        obtain ⟨_, _, hlift, h⟩ := runFrom_bind_ok h
        obtain ⟨_, -, heq⟩ := map_eq_ok.mp hlift
        cases heq
        obtain ⟨_, _, hlift', h⟩ := runFrom_bind_ok h
        obtain ⟨_, -, heq⟩ := map_eq_ok.mp hlift'
        cases heq
        obtain ⟨_, _, hlift'', h⟩ := runFrom_bind_ok h
        obtain ⟨_, -, heq⟩ := map_eq_ok.mp hlift''
        cases heq
        cases h
        exact Nat.le_add_right _ _
  omega

/-- **The bound on the rounds is never met**: with as many rounds as there are bytes, more of them
change nothing. -/
theorem readTxs_enough : ∀ (fuel pos : Nat) (s : TxsState), raw.length ≤ pos + fuel →
    (readTxs env options posInFile (fuel + 2) s).runFrom raw pos =
      (readTxs env options posInFile (fuel + 1) s).runFrom raw pos := by
  intro fuel
  -- Each round reads at least a byte, so it runs out of bytes before fuel.
  induction fuel with
  | zero =>
      intro pos s hfuel
      rw [readTxs, readTxs, runFrom_bind, runFrom_bind, runFrom_position]
      simp only [Except.bind, runFrom_bind]
      cases hread : (readSimpleTransactionInfo env (decide (options.beginTx.toNat ≤ s.txIndex))
          options.isSaveAllTx s.helper options.isValidate (freshTx posInFile pos)).runFrom raw pos with
      | error e => rfl
      | ok r =>
          have hmoves := readSimple_moves hread
          omega
  | succ fuel ih =>
      intro pos s hfuel
      rw [readTxs, readTxs, runFrom_bind, runFrom_bind, runFrom_position]
      simp only [Except.bind, runFrom_bind]
      cases hread : (readSimpleTransactionInfo env (decide (options.beginTx.toNat ≤ s.txIndex))
          options.isSaveAllTx s.helper options.isValidate (freshTx posInFile pos)).runFrom raw pos with
      | error e => rfl
      | ok r =>
          obtain ⟨⟨isInitialized, tx_size, tx⟩, next⟩ := r
          have hmoves := readSimple_moves hread
          simp only
          -- whether the transaction is kept does not matter
          split
          all_goals
            split
            · rfl
            · split
              · rfl
              · exact ih next _ (by omega)

/-! ## Blocks -/

/-- Elements that come first are those below their number. -/
theorem isSign_iff_lt {txs : List TransactionInfo}
    (h : txs.filter TransactionInfo.isSignBlockTx =
      txs.take (txs.countP TransactionInfo.isSignBlockTx)) {i : Nat} {tx : TransactionInfo}
    (htx : txs[i]? = some tx) :
    tx.isSignBlockTx = true ↔ i < txs.countP TransactionInfo.isSignBlockTx := by
  obtain ⟨k, hk⟩ : ∃ k, txs.countP TransactionInfo.isSignBlockTx = k := ⟨_, rfl⟩
  rw [hk] at h ⊢
  constructor
  · intro hsign
    by_contra hle
    have hfirst : (txs.take k).countP TransactionInfo.isSignBlockTx = k := by
      rw [← h, List.countP_filter]
      simpa using hk
    have hsum : k = k + (txs.drop k).countP TransactionInfo.isSignBlockTx := by
      conv_lhs => rw [← hk, ← List.take_append_drop k txs, List.countP_append, hfirst]
    have hmem : tx ∈ txs.drop k := by
      refine List.mem_of_getElem? (i := i - k) ?_
      rw [List.getElem?_drop, Nat.add_sub_cancel' (by omega)]
      exact htx
    have hpos := List.countP_pos_iff.mpr ⟨tx, hmem, hsign⟩
    omega
  · intro hlt
    have hmem : tx ∈ txs.take k := by
      refine List.mem_of_getElem? (i := i) ?_
      rw [List.getElem?_take_of_lt hlt]
      exact htx
    rw [← h] at hmem
    exact (List.mem_filter.mp hmem).2

theorem parseNextBlockInfo_block {raw : Blob} {bi : BlockInfo} :
    parseNextBlockInfo env options posInFile raw = .ok (.block bi) ↔
      UInt64.ofNat (littleEndian (raw.val.take 8)) ≠ SIGN_BLOCK_TYPE ∧
      UInt64.ofNat (littleEndian (raw.val.take 8)) ≠ REJECTED_TXS_BLOCK_TYPE ∧
      parseSimpleBlock env options posInFile raw = .ok bi := by
  unfold parseNextBlockInfo
  simp only
  by_cases hsign : UInt64.ofNat (littleEndian (raw.val.take 8)) = SIGN_BLOCK_TYPE
  · rw [if_pos hsign]
    refine iff_of_false ?_ (fun h => h.1 hsign)
    intro h
    obtain ⟨_, -, heq⟩ := map_eq_ok.mp h
    cases heq
  rw [if_neg hsign]
  by_cases hrejected : UInt64.ofNat (littleEndian (raw.val.take 8)) = REJECTED_TXS_BLOCK_TYPE
  · rw [if_pos hrejected]
    exact iff_of_false (fun h => by cases h) (fun h => h.2.1 hrejected)
  rw [if_neg hrejected]
  constructor
  · intro h
    obtain ⟨bi', hparse, heq⟩ := map_eq_ok.mp h
    cases heq
    exact ⟨hsign, hrejected, hparse⟩
  · intro h
    exact map_eq_ok.mpr ⟨bi, h.2.2, rfl⟩

/-- The signature changes nothing else in a header. -/
theorem saveSignature_ok {header header' : BlockHeader} {txs : List TransactionInfo}
    (h : saveSignature header txs = .ok header') :
    header'.countTxs = header.countTxs ∧ header'.countSignTx = header.countSignTx := by
  unfold saveSignature at h
  cases hhead : txs.head? with
  | none =>
      rw [hhead] at h
      obtain rfl := Except.ok.inj h
      exact ⟨rfl, rfl⟩
  | some tx =>
      rw [hhead] at h
      obtain ⟨toSelf, -, h⟩ := bind_eq_ok.mp h
      obtain rfl := Except.ok.inj h
      split <;> exact ⟨rfl, rfl⟩

/-- It depends on the first transaction. -/
theorem saveSignature_take {header header' : BlockHeader} {txs : List TransactionInfo}
    (other : BlockHeader) (k : Nat) (h : saveSignature header txs = .ok header') :
    ∃ header'', saveSignature other (txs.take k) = .ok header'' := by
  unfold saveSignature at h ⊢
  cases htxs : txs with
  | nil =>
      rw [List.take_nil]
      exact ⟨_, rfl⟩
  | cons tx rest =>
      cases k with
      | zero => exact ⟨_, rfl⟩
      | succ k =>
          rw [htxs] at h
          obtain ⟨toSelf, hself, -⟩ := bind_eq_ok.mp h
          exact ⟨_, bind_eq_ok.mpr ⟨toSelf, hself, rfl⟩⟩

/-- What is read of a block. -/
theorem parseSimpleBlock_ok {raw : Blob} {bi : BlockInfo}
    (h : parseSimpleBlock env options posInFile raw = .ok bi) :
    ∃ s next, (readTxs env options posInFile (raw.size + 1) .start).runFrom raw.val
        (SIMPLE_BLOCK_HEADER_SIZE - 8) = .ok (s, next) ∧ bi.txs = s.txs ∧
      (options.countTx = 0 → bi.header.countTxs = UInt64.ofNat s.txs.length ∧
        bi.header.countSignTx = UInt64.ofNat s.countSignTxs) := by
  obtain ⟨⟨header, cur⟩, -, h⟩ := bind_eq_ok.mp h
  obtain ⟨b, htxs, h⟩ := bind_eq_ok.mp h
  obtain rfl := Except.ok.inj h
  obtain ⟨-, htxs⟩ := check_bind_eq_ok.mp htxs
  obtain ⟨⟨s, next⟩, hread, htxs⟩ := bind_eq_ok.mp htxs
  refine ⟨s, next, hread, ?_⟩
  obtain ⟨header', hsaved, htxs⟩ := bind_eq_ok.mp htxs
  obtain rfl := Except.ok.inj htxs
  refine ⟨rfl, fun hzero => ?_⟩
  have hcounts := saveSignature_ok hsaved
  rw [if_pos hzero] at hcounts
  exact hcounts

/-- The transactions that are read of a whole block. -/
theorem run_of_parse {raw : Blob} {bi : BlockInfo} (hbegin : options.beginTx = 0)
    (hcount : options.countTx = 0 ∨ raw.size < options.countTx.toNat)
    (h : parseSimpleBlock env options posInFile raw = .ok bi) :
    TxRun env options.isSaveAllTx options.isValidate posInFile raw.val 0 TxsState.start.helper
      (SIMPLE_BLOCK_HEADER_SIZE - 8) bi.txs := by
  obtain ⟨s, next, hread, htxs, -⟩ := parseSimpleBlock_ok h
  obtain ⟨txs, hrun, heq, -⟩ := run_of_readTxs hbegin hcount _ _ _ (Nat.zero_le _) hread
  rw [htxs, heq]
  exact hrun

/-- A whole block is read again up to some number of transactions. -/
theorem parseSimpleBlock_bounded {raw : Blob} {bi : BlockInfo} {count : UInt64} (hcount : count ≠ 0)
    (h : parseSimpleBlock env ⟨isSaveAllTx, isValidate, 0, 0⟩ posInFile raw = .ok bi) :
    ∃ bi', parseSimpleBlock env ⟨isSaveAllTx, isValidate, 0, count⟩ posInFile raw = .ok bi' ∧
      bi'.txs = bi.txs.take count.toNat := by
  have hrun : TxRun env isSaveAllTx isValidate posInFile raw.val 0 TxsState.start.helper
      (SIMPLE_BLOCK_HEADER_SIZE - 8) bi.txs := run_of_parse rfl (Or.inl rfl) h
  have hfuel : bi.txs.length < raw.size + 1 := by
    have hlen := hrun.length_le
    unfold Blob.size
    omega
  have hpos : 0 < count.toNat := by
    rw [Nat.pos_iff_ne_zero]
    exact fun hzero => hcount (UInt64.toNat_inj.mp hzero)
  have hread : ∃ s' next, (readTxs env ⟨isSaveAllTx, isValidate, 0, count⟩ posInFile (raw.size + 1)
      .start).runFrom raw.val (SIMPLE_BLOCK_HEADER_SIZE - 8) = .ok (s', next) ∧
        s'.txs = bi.txs.take count.toNat :=
    readTxs_of_run rfl hcount hrun (raw.size + 1) TxsState.start rfl rfl hpos hfuel
  obtain ⟨s', next', hread', htxs'⟩ := hread
  obtain ⟨⟨header, cur⟩, hheader, h⟩ := bind_eq_ok.mp h
  obtain ⟨b, htxs, h⟩ := bind_eq_ok.mp h
  obtain rfl := Except.ok.inj h
  obtain ⟨hcheck, htxs⟩ := check_bind_eq_ok.mp htxs
  obtain ⟨⟨s, next⟩, -, htxs⟩ := bind_eq_ok.mp htxs
  obtain ⟨header', hsaved, htxs⟩ := bind_eq_ok.mp htxs
  obtain rfl := Except.ok.inj htxs
  -- the first transaction is the same, so its addresses can be compared again
  obtain ⟨header'', hsaved'⟩ := saveSignature_take
    { header with hash := env.get_double_sha256 raw.val } count.toNat hsaved
  rw [← show s'.txs = s.txs.take count.toNat from htxs'] at hsaved'
  refine ⟨_, bind_eq_ok.mpr ⟨(header, cur), hheader, bind_eq_ok.mpr ⟨{ header := header'', txs := s'.txs },
    check_bind_eq_ok.mpr ⟨hcheck, bind_eq_ok.mpr ⟨(s', next'), hread', bind_eq_ok.mpr ⟨header'', ?_, rfl⟩⟩⟩,
    rfl⟩⟩, htxs'⟩
  rw [if_neg hcount]
  exact hsaved'

/-- A whole block has the same transactions however it is read. -/
theorem length_eq_of_parse {raw : Blob} {bi bi' : BlockInfo} {options' : ReadOptions}
    {posInFile' : UInt64} (hbegin : options.beginTx = 0) (hbegin' : options'.beginTx = 0)
    (hcount : options.countTx = 0 ∨ raw.size < options.countTx.toNat)
    (hcount' : options'.countTx = 0 ∨ raw.size < options'.countTx.toNat)
    (h : parseSimpleBlock env options posInFile raw = .ok bi)
    (h' : parseSimpleBlock env options' posInFile' raw = .ok bi') :
    bi'.txs.length = bi.txs.length := by
  obtain ⟨txs, hrun, htxs⟩ := (run_of_parse hbegin hcount h).unchecked 0
  obtain ⟨txs', hrun', htxs'⟩ := (run_of_parse hbegin' hcount' h').unchecked 0
  have hsame := hrun.unique hrun'
  calc bi'.txs.length = (bi'.txs.map TransactionInfo.bare).length := (List.length_map _).symm
    _ = (bi.txs.map TransactionInfo.bare).length := by rw [← htxs', ← htxs, hsame]
    _ = bi.txs.length := List.length_map _

/-- The block that the main worker reads has the transactions of the dump. -/
theorem getFullBlock_ok {status : Blob → Option TransactionStatus} {isCached : Bool} {raw : Blob}
    {bh : BlockHeader} {countTx : UInt64} {block : BlockInfo} (hnumber : bh.blockNumber ≠ some 0)
    (h : getFullBlock env status isCached raw bh 0 countTx = .ok block) :
    ∃ bi, parseSimpleBlock env ⟨false, isCached, 0, countTx⟩ bh.filePos.pos raw = .ok bi ∧
      block.header = bh ∧ block.txs.length = bi.txs.length := by
  unfold getFullBlock at h
  rw [if_neg hnumber] at h
  obtain ⟨info, hparse, h⟩ := bind_eq_ok.mp h
  cases info with
  | block bi =>
      obtain ⟨txs, htxs, h⟩ := bind_eq_ok.mp h
      obtain rfl := Except.ok.inj h
      exact ⟨bi, (parseNextBlockInfo_block.mp hparse).2.2, rfl, (forall₂_of_mapM htxs).length_eq.symm⟩
  | monostate => cases h
  | sign bi => cases h
  | rejected => cases h

/-- **The signatures of a block are its first transactions**, as many as its header says, and this
many are read when they are asked for. -/
theorem sign_transactions_first (env : ParseEnv) (isSaveAllTx isValidate : Bool) (posInFile : UInt64)
    (raw : Blob) (bi : BlockInfo)
    (h : parseNextBlockInfo env ⟨isSaveAllTx, isValidate, 0, 0⟩ posInFile raw = .ok (.block bi)) :
    (bi.header.countTxs.toNat = bi.txs.length ∧
      bi.header.countSignTx.toNat ≤ bi.header.countTxs.toNat) ∧
    (∀ i tx, bi.txs[i]? = some tx → (tx.isSignBlockTx = true ↔ i < bi.header.countSignTx.toNat)) ∧
    (bi.header.countSignTx ≠ 0 → ∃ bi',
      parseNextBlockInfo env ⟨isSaveAllTx, isValidate, 0, bi.header.countSignTx⟩ posInFile raw =
          .ok (.block bi') ∧
        bi'.getBlockSignatures = bi.txs.take bi.header.countSignTx.toNat) ∧
    ∀ status isCached bh block, bh.countSignTx = bi.header.countSignTx →
      getFullBlock env status isCached raw bh 0 maxSizeT = .ok block →
        ∀ shuffled countAddresses, getRandomAddresses shuffled countAddresses block ≠ none := by
  obtain ⟨hnosign, hnorejected, hparse⟩ := parseNextBlockInfo_block.mp h
  obtain ⟨s, next, hread, htxs, hcounts⟩ := parseSimpleBlock_ok hparse
  obtain ⟨hcountTxs, hcountSign⟩ := hcounts rfl
  obtain ⟨txs, hrun, heq, hsigns⟩ := run_of_readTxs rfl (Or.inl rfl) _ _ _ (Nat.zero_le _) hread
  have htxs' : bi.txs = txs := htxs.trans heq
  have hsigns' : s.countSignTxs = bi.txs.countP TransactionInfo.isSignBlockTx := by
    rw [hsigns, htxs', TxsState.start, Nat.zero_add]
  rw [← htxs'] at hrun
  have hraw : raw.val.length < 2 ^ 63 := raw.property
  have hlen := hrun.length_le
  have hle : bi.txs.countP TransactionInfo.isSignBlockTx ≤ bi.txs.length := List.countP_le_length
  rw [← htxs] at hcountTxs
  rw [hsigns'] at hcountSign
  have hcountTxs' : bi.header.countTxs.toNat = bi.txs.length := by
    rw [hcountTxs, toNat_ofNat_of_lt (by omega)]
  have hcountSign' : bi.header.countSignTx.toNat = bi.txs.countP TransactionInfo.isSignBlockTx := by
    rw [hcountSign, toNat_ofNat_of_lt (by omega)]
  -- The counts of the header are those of the loop, so the prefix has the length of the count.
  refine ⟨⟨hcountTxs', ?_⟩, ?_, ?_, ?_⟩
  · rw [hcountTxs', hcountSign']
    exact hle
  · intro i tx htx
    rw [hcountSign']
    exact isSign_iff_lt hrun.sign_prefix htx
  · intro hne
    obtain ⟨bi', hparse', htake⟩ := parseSimpleBlock_bounded hne hparse
    refine ⟨bi', parseNextBlockInfo_block.mpr ⟨hnosign, hnorejected, hparse'⟩, ?_⟩
    have hall : ∀ tx ∈ bi'.txs, tx.isSignBlockTx = true := by
      intro tx htx
      rw [htake, hcountSign', ← hrun.sign_prefix] at htx
      exact (List.mem_filter.mp htx).2
    rw [BlockInfo.getBlockSignatures, List.filter_eq_self.mpr hall, htake]
  · intro status isCached bh block hsame hblock shuffled countAddresses
    unfold getRandomAddresses
    have hinside : ¬block.txs.length < block.header.countSignTx.toNat := by
      by_cases hnumber : bh.blockNumber = some 0
      · unfold getFullBlock at hblock
        rw [if_pos hnumber] at hblock
        obtain rfl := Except.ok.inj hblock
        exact Nat.not_lt_zero _
      -- The block that is read again has as many transactions as the first one.
      · obtain ⟨bi', hparse', hheader, hlength⟩ := getFullBlock_ok hnumber hblock
        have hmax : raw.size < maxSizeT.toNat := by
          have htop : maxSizeT.toNat = 2 ^ 64 - 1 := by decide
          unfold Blob.size
          omega
        have hsize := length_eq_of_parse rfl rfl (Or.inl rfl) (Or.inr hmax) hparse hparse'
        rw [hheader, hsame, hcountSign', hlength, hsize]
        exact Nat.not_lt.mpr hle
    rw [if_neg hinside]
    exact fun hnone => by cases hnone

/-- Hashes that are zero, and keys that are their own addresses. -/
def zeroEnv : ParseEnv :=
  { trustingEnv with get_double_sha256 := fun _ => Blob.replicate 32 0 Blob.hash_fits }

/-- A block with a transaction to oneself and another one. -/
def signedBlock : Blob :=
  ⟨List.replicate 80 0 ++ (56 :: (List.replicate 30 0 ++ (25 :: List.replicate 25 0))) ++ bareTx ++ [0],
    by decide +kernel⟩

/-- What it is read as. -/
def signedBlockInfo : BlockInfo :=
  (parseSimpleBlock zeroEnv ⟨false, true, 0, 0⟩ 0 signedBlock).toOption.getD default

/-- One of the two transactions is a signature of the block. -/
theorem sign_transactions_first_one :
    signedBlockInfo.header.countSignTx = 1 ∧ signedBlockInfo.txs.length = 2 ∧ ∃ bi',
      parseNextBlockInfo zeroEnv ⟨false, true, 0, 1⟩ 0 signedBlock = .ok (.block bi') ∧
        bi'.getBlockSignatures = signedBlockInfo.txs.take 1 := by
  have hcount : signedBlockInfo.header.countSignTx = 1 := by decide +kernel
  obtain ⟨-, -, hbounded, -⟩ := sign_transactions_first zeroEnv false true 0 signedBlock
    signedBlockInfo
    (parseNextBlockInfo_block.mpr ⟨by decide +kernel, by decide +kernel, by decide +kernel⟩)
  rw [hcount] at hbounded
  exact ⟨hcount, by decide +kernel, hbounded (by decide)⟩

end TorrentNode
