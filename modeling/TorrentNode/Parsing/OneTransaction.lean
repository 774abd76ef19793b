import TorrentNode.Parsing.SignPrefix

/-!
# One transaction of a block file (`readOneSimpleTransactionInfo`)

The database keeps where a transaction stands in a block file. The reader of one
transaction takes its size from there and then as many bytes and some more, which may
lead past the end of the file. What it sees of the frame is what the parser of the
block saw.
-/

namespace TorrentNode

open CursorReader

/-- `getSizeSimpleTransaction(ifile)`, behind `seekFile(ifile, currPos)`. -/
def getSizeSimpleTransaction (ifile : Bytes) (currPos : Nat) : Except Err UInt64 :=
  (readVarInt.runFrom (readAt ifile currPos 9) 0).map Prod.fst

/-- `PrevTransactionSignHelper()` -/
def PrevTransactionSignHelper.new : PrevTransactionSignHelper :=
  { isFirst := false, isPrevSign := false, prevTxData := ∅ }

/-- `readOneSimpleTransactionInfo(ifile, currPos, txInfo, isSaveAllTx)`: whether there is one, and
`txInfo` afterwards. -/
def readOneSimpleTransactionInfo (env : ParseEnv) (ifile : Bytes) (currPos : UInt64)
    (txInfo : TransactionInfo) (isSaveAllTx : Bool) : Except Err (Bool × TransactionInfo) := do
  let f_size := UInt64.ofNat ifile.length
  if f_size ≤ currPos then pure (false, txInfo)
  else if 8 ≤ f_size - currPos then do
    check (decide (currPos.toNat ≤ maxFileSize)) "Not seekeng"
    let sizeTx ← getSizeSimpleTransaction ifile currPos.toNat
    let size := (sizeTx + 2 * 8).toNat
    if size < 2 ^ 63 then do
      let ((isInitialized, _, txInfo), _) ← (readSimpleTransactionInfo env true isSaveAllTx .new
        false txInfo).runFrom (readAt ifile currPos.toNat size) 0
      pure (isInitialized, txInfo)
    else .error (.std "length_error")
  else pure (false, txInfo)

/-! ## Reading at a position of a file -/

theorem VarInt.length_le {xs : Bytes} {n : UInt64} (h : VarInt xs n) : xs.length ≤ 9 := by
  cases h with
  | byte _ => exact Nat.le_add_left 1 8
  | @wide len w digits hmem hdigits =>
      simp only [List.mem_cons, Prod.mk.injEq, List.not_mem_nil, or_false] at hmem
      rw [List.length_cons]
      omega

/-- A part of what is read, if the file does not end before. -/
theorem take_drop_readAt {ifile : Bytes} {pos size q n : Nat} (hsize : q + n ≤ size)
    (hfile : pos + q + n ≤ ifile.length) :
    ((readAt ifile pos size).drop q).take n = (ifile.drop (pos + q)).take n := by
  have hlen : q + n ≤ ((ifile.drop pos).take size).length := by
    rw [List.length_take, List.length_drop]
    omega
  rw [readAt, List.drop_append_of_le_length (by omega),
    List.take_append_of_le_length (by rw [List.length_drop]; omega), List.drop_take,
    List.take_take, Nat.min_eq_left (by omega), List.drop_drop]

/-- A part of a dump that stands in a file. -/
theorem take_drop_of_prefix {file raw : Bytes} {start q n : Nat} (hat : raw <+: file.drop start)
    (hraw : q + n ≤ raw.length) :
    (file.drop (start + q)).take n = (raw.drop q).take n := by
  obtain ⟨rest, hrest⟩ := hat
  rw [← List.drop_drop, ← hrest, List.drop_append_of_le_length (by omega),
    List.take_append_of_le_length (by rw [List.length_drop]; omega)]

/-! ## The transaction -/

variable {env : ParseEnv} {helper : PrevTransactionSignHelper} {isSaveAllTx isValidate : Bool}
  {raw : Bytes} {cur next : Nat} {tx_size posInFile : UInt64} {tx : TransactionInfo}

/-- What is known of a transaction before it is read from its file. -/
def TransactionInfo.found (filePos : FilePosition) (blockNumber blockIndex : UInt64) (hash : Blob) :
    TransactionInfo :=
  { (default : TransactionInfo) with filePos, blockNumber, blockIndex, hash }

/-- A transaction as it is read alone. -/
def TransactionInfo.alone (tx : TransactionInfo) (filePos : FilePosition)
    (blockNumber blockIndex : UInt64) (allRawTx : Blob) : TransactionInfo :=
  { tx with filePos, blockNumber, blockIndex, allRawTx, isSignBlockTx := false }

/-- The fields do not depend on where the transaction stands and what was in front of it. -/
theorem fillTransaction_alone {memory : UInt64} {body : TxBody} {clearTx hashed : Bytes}
    {filled : TransactionInfo} (filePos : FilePosition) (blockNumber blockIndex : UInt64)
    (hash : Blob)
    (h : fillTransaction env memory helper body clearTx hashed (freshTx posInFile cur) =
      .ok filled) :
    fillTransaction env memory .new body clearTx hashed
        (.found filePos blockNumber blockIndex hash) =
      .ok (filled.alone filePos blockNumber blockIndex ∅) := by
  obtain ⟨isScript, hscript, h⟩ := bind_eq_ok.mp h
  obtain ⟨txRaw, hraw, h⟩ := bind_eq_ok.mp h
  obtain ⟨fromAddress, hfrom, h⟩ := bind_eq_ok.mp h
  obtain ⟨isSign, -, h⟩ := bind_eq_ok.mp h
  obtain ⟨isToken, htoken, h⟩ := bind_eq_ok.mp h
  obtain rfl := Except.ok.inj h
  -- with no signature in front there is none here
  exact bind_eq_ok.mpr ⟨isScript, hscript, bind_eq_ok.mpr ⟨txRaw, hraw, bind_eq_ok.mpr
    ⟨fromAddress, hfrom, bind_eq_ok.mpr ⟨false, rfl, bind_eq_ok.mpr ⟨isToken, htoken, rfl⟩⟩⟩⟩⟩

theorem TxFields.length_ge {xs : Bytes} {body : TxBody} {intStatus : Option UInt64} {n : Nat}
    (h : TxFields xs body intStatus n) : 25 ≤ xs.length := by
  have hbody : ∀ {b : Bytes} {body : TxBody}, BodyFields b body → 25 ≤ b.length := by
    intro b body hb
    cases hb with
    | @mk c s k clear sign pubKey hc hs hk =>
        cases hc with
        | @mk toAddress data v f n d value fees nonce hto hv hf hn hd =>
            unfold Blob.size at hto
            simp only [List.length_append]
            omega
  cases h with
  | plain hb => exact hbody hb
  | status hb hs =>
      rw [List.length_append]
      exact Nat.le_add_right_of_le (hbody hb)

/-- **A transaction of a dump that stands in a file** is read alone at its place in the file. -/
theorem readOne_of_read {file : Blob} {start : Nat} {pos : UInt64}
    (hat : raw <+: file.val.drop start) (hpos : pos.toNat = start + cur) (hstart : 16 ≤ start + cur)
    (h : (readSimpleTransactionInfo env true isSaveAllTx helper isValidate
      (freshTx posInFile cur)).runFrom raw cur = .ok ((true, tx_size, tx), next))
    (memory : UInt64) (isSaveAll : Bool) (filePos : FilePosition) (blockNumber blockIndex : UInt64)
    (hash : Blob) :
    ∃ allRawTx, readOneSimpleTransactionInfo (env.withMemory memory) file.val pos
        (.found filePos blockNumber blockIndex hash) isSaveAll =
      .ok (true, (tx.alone filePos blockNumber blockIndex allRawTx).remembering env memory) := by
  obtain ⟨size, body, intStatus, n, k, filled, _, hsize, hprefix, hfits, hne, hread, hfill, -, -, rfl,
    -⟩ := readSimple_iff.mp h
  have hfile := file.property
  have hraw : raw.length ≤ file.val.length - start := by
    have hle := hat.length_le
    rwa [List.length_drop] at hle
  have hnine := hsize.length_le
  have hpositive := hsize.length_pos
  -- a transaction has an address
  have hlong : 25 ≤ tx_size.toNat := by
    obtain ⟨xs, rest, hframe, hfields, -, -⟩ := readTxFrame_iff.mp hread
    have hlen := congrArg List.length hframe
    rw [List.length_take, List.length_append] at hlen
    have hbody := hfields.length_ge
    omega
  have hsmaller : ¬UInt64.ofNat file.val.length ≤ pos := by
    rw [UInt64.le_iff_toNat_le, toNat_ofNat_of_lt (by omega), hpos]
    omega
  have hmore : 8 ≤ UInt64.ofNat file.val.length - pos := by
    rw [UInt64.le_iff_toNat_le, UInt64.toNat_sub_of_le _ _ (by
      rw [UInt64.le_iff_toNat_le, toNat_ofNat_of_lt (by omega), hpos]; omega),
      toNat_ofNat_of_lt (by omega), hpos]
    show 8 ≤ _
    omega
  have hseek : decide (pos.toNat ≤ maxFileSize) = true := by
    rw [decide_eq_true_eq, maxFileSize]
    omega
  have hsum : (tx_size + 2 * 8).toNat = tx_size.toNat + 16 := by
    rw [UInt64.toNat_add]
    show (tx_size.toNat + 16) % 2 ^ 64 = _
    omega
  have hsizeRaw := (prefix_drop_iff (by omega)).mp ⟨rfl, hprefix⟩
  have hsizeAt : ∀ m, size.length ≤ m → size <+: (readAt file.val pos.toNat m).drop 0 := by
    intro m hm
    have htake : ((readAt file.val pos.toNat m).drop 0).take size.length =
        (file.val.drop (pos.toNat + 0)).take size.length :=
      take_drop_readAt (by omega) (by omega)
    rw [Nat.add_zero, hpos, take_drop_of_prefix hat (by omega), ← hpos] at htake
    exact ((prefix_drop_iff (by rw [length_readAt]; omega)).mpr (hsizeRaw.trans htake.symm)).2
  -- The size is read from the first nine bytes, then sixteen bytes more than the frame.
  have hget : getSizeSimpleTransaction file.val pos.toNat = .ok tx_size := by
    unfold getSizeSimpleTransaction
    rw [(parses_varInt (readAt file.val pos.toNat 9) 0 tx_size (0 + size.length) (Nat.zero_le _)).mpr
      ⟨size, hsize, hsizeAt 9 hnine, rfl⟩]
    rfl
  -- the bytes behind the frame are not looked at
  have hframe : ((readAt file.val pos.toNat (tx_size.toNat + 16)).drop (0 + size.length)).take
      tx_size.toNat = (raw.drop (cur + size.length)).take tx_size.toNat := by
    rw [Nat.zero_add, take_drop_readAt (by omega) (by omega), hpos, Nat.add_assoc start,
      take_drop_of_prefix hat hfits]
  obtain ⟨allRawTx, hall⟩ : ∃ allRawTx, (if isSaveAll then
      Blob.ofBytes (((readAt file.val pos.toNat (tx_size.toNat + 16)).drop 0).take (size.length + k))
      else .ok ∅) = .ok allRawTx := by
    cases isSaveAll with
    | false => exact ⟨∅, rfl⟩
    | true =>
        refine ⟨⟨_, ?_⟩, dif_pos ?_⟩ <;>
        · rw [List.drop_zero, List.length_take, length_readAt]
          omega
  have hfill' := fillTransaction_memory memory
    (fillTransaction_alone filePos blockNumber blockIndex hash hfill)
  -- Read again from there, the transaction is the same, but for what memory held.
  have halone : (readSimpleTransactionInfo (env.withMemory memory) true isSaveAll .new false
      (.found filePos blockNumber blockIndex hash)).runFrom
        (readAt file.val pos.toNat (tx_size.toNat + 16)) 0 = .ok ((true, tx_size,
          { (filled.alone filePos blockNumber blockIndex ∅).remembering env memory with
            intStatus := intStatus.or filled.intStatus, sizeRawTx := tx_size, allRawTx }),
          0 + size.length + k) :=
    readSimple_iff.mpr ⟨size, body, intStatus, n, k, _, allRawTx, hsize, hsizeAt _ (by omega),
      by rw [length_readAt]; omega, hne, by rw [hframe]; exact hread,
      by rw [hframe]; exact hfill', rfl, hall, rfl, rfl⟩
  refine ⟨allRawTx, ?_⟩
  unfold readOneSimpleTransactionInfo
  rw [if_neg hsmaller, if_pos hmore, hseek, hget]
  refine bind_eq_ok.mpr ⟨(), rfl, bind_eq_ok.mpr ⟨tx_size, rfl, ?_⟩⟩
  rw [hsum, if_pos (by omega)]
  exact bind_eq_ok.mpr ⟨_, halone, rfl⟩

/-! ## The transactions of a block -/

/-- What a file holds at the recorded place of a transaction is read as that transaction, whatever
the memory holds then. -/
def TransactionInfo.ReadFrom (env : ParseEnv) (file : Blob) (tx : TransactionInfo) : Prop :=
  ∀ memory isSaveAll filePos blockNumber blockIndex hash, ∃ allRawTx,
    readOneSimpleTransactionInfo (env.withMemory memory) file.val tx.filePos.pos
        (.found filePos blockNumber blockIndex hash) isSaveAll =
      .ok (true, (tx.alone filePos blockNumber blockIndex allRawTx).remembering env memory)

theorem fillTransaction_place {memory : UInt64} {body : TxBody} {clearTx hashed : Bytes}
    {txInfo filled : TransactionInfo}
    (h : fillTransaction env memory helper body clearTx hashed txInfo = .ok filled) :
    filled.filePos = txInfo.filePos := by
  obtain ⟨isScript, -, h⟩ := bind_eq_ok.mp h
  obtain ⟨txRaw, -, h⟩ := bind_eq_ok.mp h
  obtain ⟨fromAddress, -, h⟩ := bind_eq_ok.mp h
  obtain ⟨isSign, -, h⟩ := bind_eq_ok.mp h
  obtain ⟨isToken, -, h⟩ := bind_eq_ok.mp h
  obtain rfl := Except.ok.inj h
  rfl

theorem readSimple_place {txInfo : TransactionInfo}
    (h : (readSimpleTransactionInfo env true isSaveAllTx helper isValidate txInfo).runFrom raw cur =
      .ok ((true, tx_size, tx), next)) : tx.filePos = txInfo.filePos := by
  obtain ⟨_, _, _, _, _, filled, _, -, -, -, -, -, hfill, -, -, rfl, -⟩ := readSimple_iff.mp h
  have hplace := fillTransaction_place hfill
  exact hplace

/-- **The transactions of a dump that stands in a file** are read at their places, once these are
counted from the beginning of the file. -/
theorem readFrom_of_run {file : Blob} {start i : Nat} {shift : UInt64} {txs : List TransactionInfo}
    (fileNameRelative : Blob) (hat : raw <+: file.val.drop start)
    (hshift : posInFile + 8 + shift = UInt64.ofNat start)
    (h : TxRun env isSaveAllTx isValidate posInFile raw i helper cur txs) (hcur : 16 ≤ cur) :
    ∀ tx ∈ txs, TransactionInfo.ReadFrom env file
      { tx with filePos := { fileNameRelative, pos := tx.filePos.pos + shift } } := by
  induction h with
  | last _ => exact fun tx htx => by cases htx
  | @tx i cur next helper tx_size tx txs hread _ ih =>
      have hinside := readSimple_inside hread
      have hfile : file.val.length < 2 ^ 63 := file.property
      have hle := hat.length_le
      rw [List.length_drop] at hle
      intro tx' htx'
      rcases List.mem_cons.mp htx' with rfl | htx'
      · intro memory isSaveAll filePos blockNumber blockIndex hash
        have hpos : (tx.filePos.pos + shift).toNat = start + cur := by
          have hsum : UInt64.ofNat cur + posInFile + 8 + shift =
              UInt64.ofNat cur + UInt64.ofNat start := by
            rw [← hshift]
            ac_rfl
          rw [readSimple_place hread, freshTx, hsum, UInt64.toNat_add,
            toNat_ofNat_of_lt (by omega), toNat_ofNat_of_lt (by omega)]
          omega
        exact readOne_of_read hat hpos (by omega) hread memory isSaveAll filePos blockNumber
          blockIndex hash
      · exact ih (by omega) tx' htx'

end TorrentNode
