import TorrentNode.Parsing.Transaction

/-!
# Where a transaction ends

A reader of transactions gives back the cursor behind the fields that it knows. This is
the end of the frame only where these fields fill it.
-/

namespace TorrentNode

open CursorReader

/-! ## What stands in a frame -/

/-- A size, and as many bytes. -/
def Counted (xs : Bytes) (b : Blob) : Prop :=
  ∃ size n, VarInt size n ∧ n.toNat = b.size ∧ xs = size ++ b.val

/-- The hash of a block, a signature and a key. -/
inductive SignFields : Bytes → Blob × Blob × Blob → Prop where
  | mk {blockHash sign pubkey : Blob} {s k : Bytes} :
      blockHash.size = 32 → Counted s sign → Counted k pubkey →
      SignFields (blockHash.val ++ (s ++ k)) (blockHash, sign, pubkey)

/-- The hash of a transaction and an error. -/
inductive RedjectedFields : Bytes → RejectedTransactionInfo → Prop where
  | mk {hash : Blob} {e : Bytes} {error : UInt64} :
      hash.size = 32 → VarInt e error → RedjectedFields (hash.val ++ e) ⟨hash, error⟩

/-- An address, the value, the fees, the nonce and the data. -/
inductive ClearFields : Bytes → ClearTx → Prop where
  | mk {toAddress data : Blob} {v f n d : Bytes} {value fees nonce : UInt64} :
      toAddress.size = 25 → VarInt v value → VarInt f fees → VarInt n nonce → Counted d data →
      ClearFields (toAddress.val ++ (v ++ (f ++ (n ++ d)))) ⟨toAddress, value, fees, nonce, data⟩

/-- These, a signature and a key. -/
inductive BodyFields : Bytes → TxBody → Prop where
  | mk {c s k : Bytes} {clear : ClearTx} {sign pubKey : Blob} :
      ClearFields c clear → Counted s sign → Counted k pubKey →
      BodyFields (c ++ (s ++ k)) { clear with endClearTx := c.length, sign, pubKey }

/-- These, and a status or nothing. -/
inductive TxFields : Bytes → TxBody → Option UInt64 → Nat → Prop where
  | plain {b : Bytes} {body : TxBody} : BodyFields b body → TxFields b body none 0
  | status {b s : Bytes} {body : TxBody} {intStatus : UInt64} :
      BodyFields b body → VarInt s intStatus → TxFields (b ++ s) body (some intStatus) s.length

theorem parses_counted : Parses Counted readCounted := by
  refine (parses_varInt.bind (fun n => parses_bytes n.toNat)).congr (fun xs b => ?_)
  constructor
  · rintro ⟨n, size, bytes, hxs, hsize, hbytes, hlen⟩
    exact ⟨size, n, hsize, hlen.symm, by rw [hxs, hbytes]⟩
  · rintro ⟨size, n, hsize, hlen, hxs⟩
    exact ⟨n, size, b.val, hxs, hsize, rfl, hlen.symm⟩

theorem parses_signFields : Parses SignFields readSignFields := by
  refine ((parses_bytes 32).bind (fun blockHash => parses_counted.bind (fun sign =>
    parses_counted.bind (fun pubkey => Parses.pure (blockHash, sign, pubkey))))).congr
    (fun xs fields => ?_)
  constructor
  · rintro ⟨blockHash, _, _, hxs, ⟨hhash, hsize⟩, sign, s, _, hys, hs, pubkey, k, _, hzs, hk, hend,
      hfields⟩
    subst hfields
    rw [hxs, hhash, hys, hzs, hend, List.append_nil]
    exact .mk hsize hs hk
  · intro h
    cases h with
    | @mk blockHash sign pubkey s k hsize hs hk =>
        exact ⟨_, _, _, rfl, ⟨rfl, hsize⟩, _, _, _, rfl, hs, _, _, _, (List.append_nil k).symm, hk,
          rfl, rfl⟩

theorem parses_redjectedFields : Parses RedjectedFields readRedjectedFrame := by
  refine ((parses_bytes 32).bind (fun hash => parses_varInt.bind (fun error =>
    Parses.pure ({ hash, error } : RejectedTransactionInfo)))).congr (fun xs fields => ?_)
  constructor
  · rintro ⟨hash, _, _, hxs, ⟨hhash, hsize⟩, error, e, _, hys, he, hend, hfields⟩
    subst hfields
    rw [hxs, hhash, hys, hend, List.append_nil]
    exact .mk hsize he
  · intro h
    cases h with
    | @mk hash e error hsize he =>
        exact ⟨_, _, _, rfl, ⟨rfl, hsize⟩, _, _, _, (List.append_nil e).symm, he, rfl, rfl⟩

theorem parses_clearFields : Parses ClearFields readClearTx := by
  refine ((parses_bytes 25).bind (fun toAddress => parses_varInt.bind (fun value =>
    parses_varInt.bind (fun fees => parses_varInt.bind (fun nonce => parses_counted.bind (fun data =>
      Parses.pure ({ toAddress, value, fees, nonce, data } : ClearTx))))))).congr
    (fun xs fields => ?_)
  constructor
  · rintro ⟨toAddress, _, _, hxs, ⟨hto, hsize⟩, value, v, _, hys, hv, fees, f, _, hzs, hf, nonce, n,
      _, hws, hn, data, d, _, hds, hd, hend, hfields⟩
    subst hfields
    rw [hxs, hto, hys, hzs, hws, hds, hend, List.append_nil]
    exact .mk hsize hv hf hn hd
  · intro h
    cases h with
    | @mk toAddress data v f n d value fees nonce hsize hv hf hn hd =>
        exact ⟨_, _, _, rfl, ⟨rfl, hsize⟩, _, _, _, rfl, hv, _, _, _, rfl, hf, _, _, _, rfl, hn, _, _,
          _, (List.append_nil d).symm, hd, rfl, rfl⟩

theorem parses_bodyFields : Parses BodyFields readTxBody := by
  refine (parses_clearFields.measured.bind (fun clear => parses_counted.bind (fun sign =>
    parses_counted.bind (fun pubKey =>
      Parses.pure ({ clear.1 with endClearTx := clear.2, sign, pubKey } : TxBody))))).congr
    (fun xs fields => ?_)
  constructor
  · rintro ⟨clear, c, _, hxs, ⟨hc, hlen⟩, sign, s, _, hys, hs, pubKey, k, _, hzs, hk, hend, hfields⟩
    subst hfields
    rw [hxs, hys, hzs, hend, List.append_nil, hlen]
    exact .mk hc hs hk
  · intro h
    cases h with
    | @mk c s k clear sign pubKey hc hs hk =>
        exact ⟨(clear, c.length), _, _, rfl, ⟨hc, rfl⟩, _, _, _, rfl, hs, _, _, _,
          (List.append_nil k).symm, hk, rfl, rfl⟩

/-! ## The frame -/

theorem le_of_readInt {w : Nat} {raw : Bytes} {pos next : Nat} {n : UInt64}
    (h : (readInt w).runFrom raw pos = .ok (n, next)) : pos + w ≤ raw.length := by
  simp only [readInt, runFrom_bind, runFrom_input, runFrom_position, Except.bind] at h
  by_contra hshort
  rw [if_pos (by omega)] at h
  cases h

/-- A size is read in front of as many bytes. -/
theorem readTxSize_ok {raw : Bytes} {pos next : Nat} {tx_size : UInt64}
    (h : readTxSize.runFrom raw pos = .ok (tx_size, next)) :
    ∃ size, VarInt size tx_size ∧ size <+: raw.drop pos ∧ next = pos + size.length ∧
      next + tx_size.toNat ≤ raw.length := by
  obtain ⟨n, cur, hread, h⟩ := runFrom_bind_ok h
  have hpos : pos ≤ raw.length := by
    obtain ⟨len, mid, hlen, -⟩ := runFrom_bind_ok hread
    have hle := le_of_readInt hlen
    omega
  obtain ⟨size, hsize, hat, hcur⟩ := (parses_varInt raw pos n cur hpos).mp hread
  simp only [runFrom_bind, runFrom_input, runFrom_position, Except.bind] at h
  by_cases hshort : raw.length < cur + n.toNat
  · rw [if_pos hshort] at h
    cases h
  · rw [if_neg hshort] at h
    obtain ⟨rfl, rfl⟩ := Prod.mk.inj (Except.ok.inj h)
    exact ⟨size, hsize, hat, hcur, by omega⟩

/-- The other way around. -/
theorem readTxSize_eq {raw size : Bytes} {pos : Nat} {tx_size : UInt64} (hpos : pos ≤ raw.length)
    (hsize : VarInt size tx_size) (hat : size <+: raw.drop pos)
    (hfits : pos + size.length + tx_size.toNat ≤ raw.length) :
    readTxSize.runFrom raw pos = .ok (tx_size, pos + size.length) := by
  have hread := (parses_varInt raw pos tx_size (pos + size.length) hpos).mpr
    ⟨size, hsize, hat, rfl⟩
  simp only [readTxSize, runFrom_bind, hread, runFrom_input, runFrom_position, Except.bind]
  rw [if_neg (by omega), runFrom_pure]

theorem within_ok {α : Type} {n : Nat} {r : Deserializer α} {raw : Bytes} {pos next : Nat} {a : α}
    (h : (within n r).runFrom raw pos = .ok (a, next)) :
    ∃ k, r.runFrom ((raw.drop pos).take n) 0 = .ok (a, k) ∧ next = pos + k := by
  rw [runFrom_within] at h
  obtain ⟨⟨b, k⟩, hread, heq⟩ := map_eq_ok.mp h
  obtain ⟨rfl, rfl⟩ := Prod.mk.inj heq
  exact ⟨k, hread, rfl⟩

theorem eq_length_take {raw : Bytes} {cur k n : Nat} (hfits : cur + n ≤ raw.length) :
    k = n ↔ k = ((raw.drop cur).take n).length := by
  rw [List.length_take, List.length_drop, Nat.min_eq_left (by omega)]

/-- The status is read where the frame goes on. -/
theorem readIntStatus_eq (raw : Bytes) (pos : Nat) :
    readIntStatus.runFrom raw pos =
      if pos < raw.length then (readVarInt.runFrom raw pos).map (fun q => (some q.1, q.2))
      else .ok (none, pos) := by
  simp only [readIntStatus, runFrom_bind, runFrom_input, runFrom_position, Except.bind]
  by_cases hmore : pos < raw.length
  · rw [if_pos hmore, if_pos hmore, runFrom_bind]
    rfl
  · rw [if_neg hmore, if_neg hmore]
    rfl

/-- What is read of the frame of a transaction of a block. -/
theorem readTxFrame_iff {frame : Bytes} {body : TxBody} {intStatus : Option UInt64} {n next : Nat} :
    readTxFrame.runFrom frame 0 = .ok ((body, intStatus, n), next) ↔
      ∃ xs rest, frame = xs ++ rest ∧ TxFields xs body intStatus n ∧ next = xs.length ∧
        (intStatus = none → rest = []) := by
  constructor
  · intro h
    obtain ⟨body', cur, hbody, h⟩ := runFrom_bind_ok h
    obtain ⟨b, rest, hframe, hb, hcur⟩ := parses_bodyFields.split hbody
    obtain ⟨⟨status', n'⟩, next', hstatus, h⟩ := runFrom_bind_ok h
    obtain ⟨heq, hnext⟩ := Prod.mk.inj (Except.ok.inj h)
    cases heq
    subst hnext
    have hlen := congrArg List.length hframe
    rw [List.length_append, ← hcur] at hlen
    simp only [measured, runFrom_bind, runFrom_position, Except.bind, readIntStatus_eq] at hstatus
    -- A status is read if there are bytes behind the body.
    by_cases hmore : cur < frame.length
    · rw [if_pos hmore] at hstatus
      cases hread : readVarInt.runFrom frame cur with
      | error e =>
          rw [hread] at hstatus
          cases hstatus
      | ok q =>
          obtain ⟨status, stop⟩ := q
          rw [hread] at hstatus
          obtain ⟨heq, rfl⟩ := Prod.mk.inj (Except.ok.inj hstatus)
          obtain ⟨rfl, rfl⟩ := Prod.mk.inj heq
          obtain ⟨s, hs, ⟨rest', hat⟩, rfl⟩ :=
            (parses_varInt frame cur status stop (Nat.le_of_lt hmore)).mp hread
          refine ⟨b ++ s, rest', ?_, ?_, ?_, fun h => by cases h⟩
          · rw [hcur, hframe, List.drop_left] at hat
            rw [hframe, List.append_assoc, hat]
          · rw [Nat.add_sub_cancel_left]
            exact .status hb hs
          · rw [List.length_append, hcur]
    · rw [if_neg hmore] at hstatus
      obtain ⟨heq, rfl⟩ := Prod.mk.inj (Except.ok.inj hstatus)
      obtain ⟨rfl, rfl⟩ := Prod.mk.inj heq
      refine ⟨b, rest, hframe, ?_, hcur, fun _ => List.length_eq_zero_iff.mp (by omega)⟩
      rw [Nat.sub_self]
      exact .plain hb
  · rintro ⟨xs, rest, hframe, hfields, hnext, hrest⟩
    subst hframe
    subst hnext
    cases hfields with
    -- Conversely, one case for each form of the frame.
    | plain hb =>
        rw [hrest rfl]
        have hbody := parses_bodyFields.run [] hb
        have hend : ¬xs.length < (xs ++ []).length := by
          rw [List.append_nil]
          exact Nat.lt_irrefl _
        simp only [readTxFrame, runFrom_bind, hbody, Except.bind, measured, runFrom_position,
          readIntStatus_eq, if_neg hend, runFrom_pure, Nat.sub_self]
    | @status b s body intStatus hb hs =>
        rw [List.append_assoc, List.length_append]
        have hbody := parses_bodyFields.run (s ++ rest) hb
        have hmore : b.length < (b ++ (s ++ rest)).length := by
          have hpos := hs.length_pos
          simp only [List.length_append]
          omega
        have hread := (parses_varInt (b ++ (s ++ rest)) b.length intStatus (b.length + s.length)
          (Nat.le_of_lt hmore)).mpr ⟨s, hs, ⟨rest, by rw [List.drop_left]⟩, rfl⟩
        simp only [readTxFrame, runFrom_bind, hbody, Except.bind, measured, runFrom_position,
          readIntStatus_eq, if_pos hmore, hread, Except.map, runFrom_pure, Nat.add_sub_cancel_left]

/-- All of a frame is read exactly if the fields fill it. -/
theorem readTxFrame_whole_iff {frame : Bytes} {body : TxBody} {intStatus : Option UInt64}
    {n next : Nat} (h : readTxFrame.runFrom frame 0 = .ok ((body, intStatus, n), next)) :
    next = frame.length ↔ ∃ body intStatus n, TxFields frame body intStatus n := by
  constructor
  · intro hnext
    obtain ⟨xs, rest, hframe, hfields, hlen, -⟩ := readTxFrame_iff.mp h
    have hrest : rest = [] := by
      have hsum := congrArg List.length hframe
      rw [List.length_append] at hsum
      exact List.length_eq_zero_iff.mp (by omega)
    rw [hframe, hrest, List.append_nil]
    exact ⟨body, intStatus, n, hfields⟩
  · rintro ⟨body', intStatus', n', hfields⟩
    have hread := readTxFrame_iff.mpr ⟨frame, [], (List.append_nil frame).symm, hfields, rfl,
      fun _ => rfl⟩
    rw [h] at hread
    exact (Prod.mk.inj (Except.ok.inj hread)).2

/-! ## The cursors -/

variable {env : ParseEnv} {raw : Bytes} {pos next : Nat} {tx_size : UInt64}

/-- Behind the size of a transaction, its frame; the cursor is at the end of the frame exactly if
`Filled` holds of it. -/
def StopsAtEndIff (raw : Bytes) (pos next : Nat) (tx_size : UInt64) (Filled : Bytes → Prop) : Prop :=
  ∃ size, VarInt size tx_size ∧ size <+: raw.drop pos ∧
    (next = pos + size.length + tx_size.toNat ↔
      Filled ((raw.drop (pos + size.length)).take tx_size.toNat))

theorem readFramed_ok {α : Type} {r : Deserializer α} {txInfo tx : α}
    (h : (readFramed r txInfo).runFrom raw pos = .ok ((true, tx_size, tx), next)) :
    ∃ size k, VarInt size tx_size ∧ size <+: raw.drop pos ∧
      pos + size.length + tx_size.toNat ≤ raw.length ∧
      r.runFrom ((raw.drop (pos + size.length)).take tx_size.toNat) 0 = .ok (tx, k) ∧
      next = pos + size.length + k := by
  obtain ⟨tx_size', cur, hsize, h⟩ := runFrom_bind_ok h
  obtain ⟨size, hvarint, hat, rfl, hfits⟩ := readTxSize_ok hsize
  by_cases hzero : tx_size' = 0
  · rw [if_pos hzero] at h
    cases h
  · rw [if_neg hzero] at h
    obtain ⟨tx', stop, hframe, h⟩ := runFrom_bind_ok h
    obtain ⟨heq, rfl⟩ := Prod.mk.inj (Except.ok.inj h)
    cases heq
    obtain ⟨k, hread, rfl⟩ := within_ok hframe
    exact ⟨size, k, hvarint, hat, hfits, hread, rfl⟩

theorem readSign_stops {txInfo tx : SignTransactionInfo}
    (h : (readSignTransactionInfo env txInfo).runFrom raw pos = .ok ((true, tx_size, tx), next)) :
    StopsAtEndIff raw pos next tx_size (fun frame => ∃ fields, SignFields frame fields) := by
  obtain ⟨size, k, hsize, hat, hfits, hread, rfl⟩ := readFramed_ok h
  refine ⟨size, hsize, hat, (add_left_cancel_iff.trans (eq_length_take hfits)).trans ?_⟩
  -- checking the signature does not move the cursor
  obtain ⟨fields, k', hfields, hcheck⟩ := runFrom_bind_ok hread
  obtain ⟨address, -, heq⟩ := map_eq_ok.mp hcheck
  obtain rfl : k' = k := (Prod.mk.inj heq).2
  exact parses_signFields.whole_iff hfields

theorem readRedjected_stops {txInfo tx : RejectedTransactionInfo}
    (h : (readRedjectedTransactionInfo txInfo).runFrom raw pos = .ok ((true, tx_size, tx), next)) :
    StopsAtEndIff raw pos next tx_size (fun frame => ∃ fields, RedjectedFields frame fields) := by
  obtain ⟨size, k, hsize, hat, hfits, hread, rfl⟩ := readFramed_ok h
  refine ⟨size, hsize, hat, (add_left_cancel_iff.trans (eq_length_take hfits)).trans ?_⟩
  exact parses_redjectedFields.whole_iff hread

/-- A transaction of a block that is accepted: what is read of its frame, and what is made of it. -/
theorem readSimple_iff {isSaveAllTx isValidate : Bool} {helper : PrevTransactionSignHelper}
    {txInfo tx : TransactionInfo} :
    (readSimpleTransactionInfo env true isSaveAllTx helper isValidate txInfo).runFrom raw pos =
      .ok ((true, tx_size, tx), next) ↔
    ∃ size body intStatus n k filled allRawTx, VarInt size tx_size ∧ size <+: raw.drop pos ∧
      pos + size.length + tx_size.toNat ≤ raw.length ∧ tx_size ≠ 0 ∧
      readTxFrame.runFrom ((raw.drop (pos + size.length)).take tx_size.toNat) 0 =
        .ok ((body, intStatus, n), k) ∧
      fillTransaction env (env.uninitialized pos) helper body
        (((raw.drop (pos + size.length)).take tx_size.toNat).take body.endClearTx)
        (((raw.drop (pos + size.length)).take tx_size.toNat).take (tx_size.toNat - n)) txInfo =
          .ok filled ∧
      validateTransaction env isValidate filled
        (((raw.drop (pos + size.length)).take tx_size.toNat).take body.endClearTx) = .ok () ∧
      (if isSaveAllTx then Blob.ofBytes ((raw.drop pos).take (size.length + k))
        else .ok txInfo.allRawTx) = .ok allRawTx ∧
      tx = { filled with
        intStatus := intStatus.or filled.intStatus, sizeRawTx := tx_size, allRawTx } ∧
      next = pos + size.length + k := by
  -- Each conjunct is a step of the reader.
  constructor
  · intro h
    obtain ⟨_, _, hstart, h⟩ := runFrom_bind_ok h
    cases hstart
    obtain ⟨_, _, hstart, h⟩ := runFrom_bind_ok h
    cases hstart
    obtain ⟨tx_size', cur, hsize, h⟩ := runFrom_bind_ok h
    obtain ⟨size, hvarint, hat, rfl, hfits⟩ := readTxSize_ok hsize
    by_cases hzero : tx_size' = 0
    · rw [if_pos hzero] at h
      cases h
    rw [if_neg hzero] at h
    obtain ⟨_, _, hstart, h⟩ := runFrom_bind_ok h
    cases hstart
    simp only [Bool.not_true, Bool.false_eq_true, if_false] at h
    obtain ⟨⟨body, intStatus, n⟩, stop, hframe, h⟩ := runFrom_bind_ok h
    obtain ⟨k, hread, rfl⟩ := within_ok hframe
    obtain ⟨_, _, hend, h⟩ := runFrom_bind_ok h
    cases hend
    obtain ⟨allRawTx, stop, hlift, h⟩ := runFrom_bind_ok h
    -- The bytes are kept, the fields filled and the signature checked.
    obtain ⟨allRawTx', hall, heq⟩ := map_eq_ok.mp hlift
    cases heq
    obtain ⟨filled, stop, hlift', h⟩ := runFrom_bind_ok h
    obtain ⟨filled', hfill, heq⟩ := map_eq_ok.mp hlift'
    cases heq
    obtain ⟨_, stop, hlift'', h⟩ := runFrom_bind_ok h
    obtain ⟨_, hvalid, heq⟩ := map_eq_ok.mp hlift''
    cases heq
    obtain ⟨heq, hnext⟩ := Prod.mk.inj (Except.ok.inj h)
    cases heq
    have hdist : pos + size.length + k - pos = size.length + k := by omega
    rw [hdist] at hall
    exact ⟨size, body, intStatus, n, k, filled, allRawTx, hvarint, hat, hfits, hzero, hread, hfill,
      hvalid, hall, rfl, hnext.symm⟩
  · rintro ⟨size, body, intStatus, n, k, filled, allRawTx, hvarint, hat, hfits, hzero, hread, hfill,
      hvalid, hall, htx, hnext⟩
    have hsize := readTxSize_eq (by omega) hvarint hat hfits
    have hdist : pos + size.length + k - pos = size.length + k := by omega
    simp only [readSimpleTransactionInfo, runFrom_bind, runFrom_input, runFrom_position, Except.bind,
      hsize, if_neg hzero, Bool.not_true, Bool.false_eq_true, if_false, runFrom_within, hread,
      Except.map, hdist, runFrom_lift, hall, hfill, hvalid, runFrom_pure, htx, hnext]

/-! ## What nothing sets -/

/-- The data take a delegation back. -/
def TransactionInfo.undelegates (env : ParseEnv) (tx : TransactionInfo) : Bool :=
  saysUndelegate (parseDocData env tx.data)

/-- A transaction as it is read while the memory holds this: only the value of a delegation that is
taken back comes from there. -/
def TransactionInfo.remembering (env : ParseEnv) (memory : UInt64) (tx : TransactionInfo) :
    TransactionInfo :=
  { tx with
    delegate := if tx.undelegates env then some { value := memory, isDelegate := false }
      else tx.delegate }

theorem TransactionInfo.remembering_of_not {tx : TransactionInfo} (h : tx.undelegates env = false)
    (memory : UInt64) : tx.remembering env memory = tx := by
  unfold TransactionInfo.remembering
  rw [h]
  rfl

theorem parseDelegate_memory (memory memory' : UInt64) (docData : Option Json) :
    parseDelegate memory' docData = if saysUndelegate docData = true
      then some { value := memory', isDelegate := false } else parseDelegate memory docData := by
  unfold parseDelegate saysUndelegate
  cases docData with
  | none => rfl
  | some doc =>
      simp only [Option.bind_eq_bind, Option.bind_some]
      cases doc.text "method" with
      | none => rfl
      | some method =>
          simp only [Option.bind_some, beq_iff_eq, Option.some.injEq]
          by_cases hdelegate : method = ascii "delegate".toList
          · have hother : method ≠ ascii "undelegate".toList := by
              rw [hdelegate]
              decide
            rw [if_pos hdelegate, if_neg hother, if_pos hdelegate]
          · rw [if_neg hdelegate, if_neg hdelegate]
            by_cases hback : method = ascii "undelegate".toList
            · rw [if_pos hback, if_pos hback]
              rfl
            · rw [if_neg hback, if_neg hback, if_neg hback]

theorem fillFields_memory {txInfo : TransactionInfo} (memory memory' : UInt64) (body : TxBody)
    (isScriptAddress : Bool) (txRaw : Blob) :
    fillFields env memory' body isScriptAddress txRaw txInfo =
      (fillFields env memory body isScriptAddress txRaw txInfo).remembering env memory' := by
  unfold fillFields TransactionInfo.remembering TransactionInfo.undelegates
  simp only [TransactionInfo.mk.injEq, true_and, and_true]
  by_cases hblocked : body.data.size = 9 ∧ body.data.val.head? = some 1
  · -- such data are no document
    have hnone : parseDocData env body.data = none := by
      unfold parseDocData
      rw [hblocked.2]
      exact if_neg (fun h => absurd h.1 (by decide))
    rw [if_pos hblocked, if_pos hblocked, hnone]
    rfl
  · rw [if_neg hblocked, if_neg hblocked, parseDelegate_memory memory memory']
    cases saysUndelegate (parseDocData env body.data) with
    | true => rfl
    | false => rfl

/-- Nothing that is checked depends on what the memory held. -/
theorem fillTransaction_memory {memory : UInt64} {helper : PrevTransactionSignHelper}
    {body : TxBody} {clearTx hashed : Bytes} {txInfo filled : TransactionInfo} (memory' : UInt64)
    (h : fillTransaction env memory helper body clearTx hashed txInfo = .ok filled) :
    fillTransaction env memory' helper body clearTx hashed txInfo =
      .ok (filled.remembering env memory') := by
  obtain ⟨isScript, hscript, h⟩ := bind_eq_ok.mp h
  obtain ⟨txRaw, hraw, h⟩ := bind_eq_ok.mp h
  obtain ⟨fromAddress, hfrom, h⟩ := bind_eq_ok.mp h
  obtain ⟨isSign, hsign, h⟩ := bind_eq_ok.mp h
  obtain ⟨isToken, htoken, h⟩ := bind_eq_ok.mp h
  obtain rfl := Except.ok.inj h
  refine bind_eq_ok.mpr ⟨isScript, hscript, bind_eq_ok.mpr ⟨txRaw, hraw, ?_⟩⟩
  rw [fillFields_memory memory memory']
  exact bind_eq_ok.mpr ⟨fromAddress, hfrom, bind_eq_ok.mpr ⟨isSign, hsign,
    bind_eq_ok.mpr ⟨isToken, htoken, rfl⟩⟩⟩

/-! ## Where the cursor is -/

/-- A transaction that is passed over is not handed over, and the cursor goes behind its frame. -/
theorem readSimple_skipped {isInitialized isSaveAllTx isValidate : Bool}
    {helper : PrevTransactionSignHelper} {txInfo tx : TransactionInfo}
    (h : (readSimpleTransactionInfo env false isSaveAllTx helper isValidate txInfo).runFrom raw pos =
      .ok ((isInitialized, tx_size, tx), next)) :
    isInitialized = false ∧
      (tx_size ≠ 0 → StopsAtEndIff raw pos next tx_size (fun _ => True)) := by
  obtain ⟨_, _, hstart, h⟩ := runFrom_bind_ok h
  cases hstart
  obtain ⟨_, _, hstart, h⟩ := runFrom_bind_ok h
  cases hstart
  obtain ⟨tx_size', cur, hsize, h⟩ := runFrom_bind_ok h
  obtain ⟨size, hvarint, hat, rfl, -⟩ := readTxSize_ok hsize
  by_cases hzero : tx_size' = 0
  · rw [if_pos hzero] at h
    cases h
    exact ⟨rfl, fun hne => absurd rfl hne⟩
  · rw [if_neg hzero] at h
    obtain ⟨_, _, hstart, h⟩ := runFrom_bind_ok h
    cases hstart
    cases h
    exact ⟨rfl, fun _ => ⟨size, hvarint, hat, ⟨fun _ => trivial, fun _ => rfl⟩⟩⟩

theorem readSimple_stops {isParseTx isSaveAllTx isValidate : Bool}
    {helper : PrevTransactionSignHelper} {txInfo tx : TransactionInfo}
    (h : (readSimpleTransactionInfo env isParseTx isSaveAllTx helper isValidate txInfo).runFrom raw
      pos = .ok ((true, tx_size, tx), next)) :
    StopsAtEndIff raw pos next tx_size
      (fun frame => ∃ body intStatus n, TxFields frame body intStatus n) := by
  cases isParseTx with
  | false => cases (readSimple_skipped h).1
  | true =>
      obtain ⟨size, body, intStatus, n, k, filled, allRawTx, hsize, hat, hfits, -, hread, -, -, -,
        -, rfl⟩ := readSimple_iff.mp h
      refine ⟨size, hsize, hat, (add_left_cancel_iff.trans (eq_length_take hfits)).trans ?_⟩
      exact readTxFrame_whole_iff hread

/-- **The next transaction is read behind the frame** of the last one exactly if the known fields
fill this frame: for each kind of transaction and all that is accepted. Behind a transaction that
is passed over it always is. -/
theorem transactions_framed_iff (env : ParseEnv) (raw : Bytes) (pos next : Nat) (tx_size : UInt64) :
    (∀ isParseTx isSaveAllTx helper isValidate txInfo tx,
      (readSimpleTransactionInfo env isParseTx isSaveAllTx helper isValidate txInfo).runFrom raw pos =
          .ok ((true, tx_size, tx), next) →
        StopsAtEndIff raw pos next tx_size
          (fun frame => ∃ body intStatus n, TxFields frame body intStatus n)) ∧
    (∀ txInfo tx,
      (readSignTransactionInfo env txInfo).runFrom raw pos = .ok ((true, tx_size, tx), next) →
        StopsAtEndIff raw pos next tx_size (fun frame => ∃ fields, SignFields frame fields)) ∧
    (∀ txInfo tx,
      (readRedjectedTransactionInfo txInfo).runFrom raw pos = .ok ((true, tx_size, tx), next) →
        StopsAtEndIff raw pos next tx_size (fun frame => ∃ fields, RedjectedFields frame fields)) ∧
    ∀ isSaveAllTx helper isValidate txInfo tx,
      (readSimpleTransactionInfo env false isSaveAllTx helper isValidate txInfo).runFrom raw pos =
          .ok ((false, tx_size, tx), next) →
        tx_size ≠ 0 → StopsAtEndIff raw pos next tx_size (fun _ => True) :=
  ⟨fun _ _ _ _ _ _ h => readSimple_stops h, fun _ _ h => readSign_stops h,
    fun _ _ h => readRedjected_stops h, fun _ _ _ _ _ h => (readSimple_skipped h).2⟩

/-- A rejected transaction with one byte behind its error. -/
def overlong : Bytes := 34 :: (List.replicate 32 0 ++ [7, 0])

theorem readRedjected_overlong : (readRedjectedTransactionInfo ⟨∅, 0⟩).runFrom overlong 0 =
    .ok ((true, 34, ⟨Blob.replicate 32 0 Blob.hash_fits, 7⟩), 34) := by
  decide +kernel

/-- It is accepted, and the cursor is not at its end. -/
theorem overlong_desynchronised : ¬∀ (raw : Bytes) (pos next : Nat) (tx_size : UInt64)
    (txInfo tx : RejectedTransactionInfo),
    (readRedjectedTransactionInfo txInfo).runFrom raw pos = .ok ((true, tx_size, tx), next) →
      ∃ size, VarInt size tx_size ∧ size <+: raw.drop pos ∧
        next = pos + size.length + tx_size.toNat := by
  intro h
  obtain ⟨size, hsize, -, hnext⟩ := h _ _ _ _ _ _ readRedjected_overlong
  have hpos := hsize.length_pos
  have hframe : (34 : UInt64).toNat = 34 := rfl
  omega

/-- Cryptography that accepts everything. -/
def trustingEnv : ParseEnv where
  get_double_sha256 _ := ∅
  get_address_bin pubkey := .ok pubkey
  crypto_check_sign_data _ _ _ := .ok true
  Parse _ := none
  fromHex _ := .ok ∅
  moduleV8 := false
  uninitialized _ := 0

/-- A transaction without data, signature and key. -/
def bareTx : Bytes := 31 :: List.replicate 31 0

/-- Data that take a delegation back. -/
def undelegateData : Bytes := ascii "\x7b\"method\":\"undelegate\"\x7d".toList

/-- The document that they are. -/
def undelegateEnv : ParseEnv :=
  { trustingEnv with
    Parse := fun data => if data = undelegateData
      then some (.object [(ascii "method".toList, .ofAscii "undelegate".toList)]) else none }

/-- The frame of a transaction with these data. -/
def undelegateFrame : Bytes := List.replicate 28 0 ++ (23 :: undelegateData) ++ [0, 0]

/-- A transaction of a signature block with a key of one byte. -/
def bareSign : Bytes := 35 :: (List.replicate 33 0 ++ [1, 9])

theorem transactions_framed_iff_one :
    StopsAtEndIff bareTx 0 32 31
        (fun frame => ∃ body intStatus n, TxFields frame body intStatus n) ∧
      StopsAtEndIff bareSign 0 36 35 (fun frame => ∃ fields, SignFields frame fields) ∧
      StopsAtEndIff overlong 0 34 34 (fun frame => ∃ fields, RedjectedFields frame fields) ∧
      StopsAtEndIff overlong 0 35 34 (fun _ => True) := by
  refine ⟨(transactions_framed_iff trustingEnv bareTx 0 32 31).1 true false ⟨true, true, ∅⟩ false
      default
      { (default : TransactionInfo) with
        toAddress := Address.ofBlob (Blob.replicate 25 0 Blob.address_fits)
        fromAddress := Address.unset.setEmpty
        sizeRawTx := 31 } ?_,
    (transactions_framed_iff trustingEnv bareSign 0 36 35).2.1 ⟨∅, ∅, ∅, default⟩
      ⟨Blob.replicate 32 0 Blob.hash_fits, ∅, Blob.replicate 1 9 Blob.byte_fits,
        Address.ofBlob (Blob.replicate 1 9 Blob.byte_fits)⟩ ?_,
    (transactions_framed_iff trustingEnv overlong 0 34 34).2.2.1 _ _ readRedjected_overlong,
    (transactions_framed_iff trustingEnv overlong 0 35 34).2.2.2 true ⟨true, true, ∅⟩ false default
      default ?_ (by decide)⟩
  · decide +kernel
  · decide +kernel
  · decide +kernel

end TorrentNode
