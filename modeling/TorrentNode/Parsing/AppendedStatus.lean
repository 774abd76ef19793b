import TorrentNode.Parsing.Framing

/-!
# The hash of a transaction and its status

A status is appended to a transaction by those who process it. The hash is taken of
the frame without it, so that it stays what it was. What a transaction without a value
of its own holds in its place, a delegation that is taken back, is another matter.
-/

namespace TorrentNode

open CursorReader

/-- A number is written at one place in one way only. -/
theorem VarInt.length_unique {raw xs ys : Bytes} {m n : UInt64} (hxs : VarInt xs m)
    (hys : VarInt ys n) (hat : xs <+: raw) (hat' : ys <+: raw) : m = n ∧ xs.length = ys.length := by
  have hread := (parses_varInt raw 0 m (0 + xs.length) (Nat.zero_le _)).mpr
    ⟨xs, hxs, by rwa [List.drop_zero], rfl⟩
  have hread' := (parses_varInt raw 0 n (0 + ys.length) (Nat.zero_le _)).mpr
    ⟨ys, hys, by rwa [List.drop_zero], rfl⟩
  rw [hread, Nat.zero_add, Nat.zero_add] at hread'
  exact Prod.mk.inj (Except.ok.inj hread')

/-- The part that is signed is a part of the body. -/
theorem BodyFields.endClearTx_le {xs : Bytes} {body : TxBody} (h : BodyFields xs body) :
    body.endClearTx ≤ xs.length := by
  cases h with
  | @mk c s k clear sign pubKey _ _ _ =>
      rw [List.length_append]
      exact Nat.le_add_right _ _

/-- A frame that stands behind its size. -/
theorem take_frame {pre size frame rest : Bytes} {n : Nat} (hn : n = frame.length) :
    ((pre ++ (size ++ (frame ++ rest))).drop (pre.length + size.length)).take n = frame := by
  rw [← List.drop_drop, List.drop_left, List.drop_left, hn, List.take_left]

variable {env : ParseEnv} {helper : PrevTransactionSignHelper} {isSaveAllTx isValidate : Bool}
  {txInfo tx : TransactionInfo} {next : Nat} {tx_size : UInt64}

/-- An accepted transaction without a status: its frame is the body that is read. -/
theorem readSimple_plain {pre size frame rest : Bytes} (hsize : VarInt size tx_size)
    (hlen : tx_size.toNat = frame.length)
    (h : (readSimpleTransactionInfo env true isSaveAllTx helper isValidate txInfo).runFrom
      (pre ++ (size ++ (frame ++ rest))) pre.length = .ok ((true, tx_size, tx), next))
    (hplain : tx.intStatus = none) :
    ∃ body filled allRawTx, BodyFields frame body ∧
      fillTransaction env (env.uninitialized pre.length) helper body (frame.take body.endClearTx)
        frame txInfo = .ok filled ∧
      validateTransaction env isValidate filled (frame.take body.endClearTx) = .ok () ∧
      tx = { filled with sizeRawTx := tx_size, allRawTx } ∧ filled.intStatus = none := by
  obtain ⟨size', body, intStatus, n, k, filled, allRawTx, hsize', hat, -, -, hread, hfill, hvalid,
    -, rfl, -⟩ :=
    readSimple_iff.mp h
  have hdrop : (pre ++ (size ++ (frame ++ rest))).drop pre.length = size ++ (frame ++ rest) :=
    List.drop_left
  rw [hdrop] at hat
  obtain ⟨-, hsame⟩ := hsize'.length_unique hsize hat ⟨_, rfl⟩
  rw [hsame, take_frame hlen] at hread hfill hvalid
  obtain ⟨xs, rest', hframe, hfields, -, hrest⟩ := readTxFrame_iff.mp hread
  obtain ⟨hnone, hfilled⟩ := Option.or_eq_none_iff.mp hplain
  subst hnone
  rw [hrest rfl, List.append_nil] at hframe
  subst hframe
  cases hfields with
  | plain hbody =>
      rw [Nat.sub_zero, hlen, List.take_length] at hfill
      refine ⟨body, filled, allRawTx, hbody, hfill, hvalid, ?_, hfilled⟩
      rw [Option.none_or]

/-- **A status leaves the hash as it was**: a transaction that is accepted without a status is
accepted with one behind it, whichever way the size and the status are written, and differs in the
status, the size and the raw bytes only; if it takes a delegation back, also in the value of the
delegation, which is what the memory holds. -/
theorem appended_status (env : ParseEnv) (helper : PrevTransactionSignHelper)
    (isSaveAllTx isSaveAllTx' isValidate : Bool) (txInfo tx : TransactionInfo) (next : Nat)
    (pre size frame rest pre' size' status rest' : Bytes) (tx_size tx_size' intStatus : UInt64)
    (hsize : VarInt size tx_size) (hlen : tx_size.toNat = frame.length)
    (haccepted : (readSimpleTransactionInfo env true isSaveAllTx helper isValidate txInfo).runFrom
      (pre ++ (size ++ (frame ++ rest))) pre.length = .ok ((true, tx_size, tx), next))
    (hplain : tx.intStatus = none)
    (hsize' : VarInt size' tx_size') (hlen' : tx_size'.toNat = (frame ++ status).length)
    (hstatus : VarInt status intStatus) (raw : Blob)
    (hraw : raw.val = pre' ++ (size' ++ ((frame ++ status) ++ rest'))) (memory : UInt64) :
    ∃ allRawTx, (readSimpleTransactionInfo (env.withMemory memory) true isSaveAllTx' helper isValidate
        txInfo).runFrom raw.val pre'.length =
      .ok ((true, tx_size', { tx.remembering env memory with
          intStatus := some intStatus, sizeRawTx := tx_size', allRawTx }),
        pre'.length + size'.length + (frame ++ status).length) := by
  obtain ⟨body, filled, allRawTx, hbody, hfill, hvalid, rfl, -⟩ :=
    readSimple_plain hsize hlen haccepted hplain
  have hfields := TxFields.status hbody hstatus
  -- The longer frame is read with the status at its end,
  have hread := readTxFrame_iff.mpr ⟨frame ++ status, [], (List.append_nil _).symm, hfields, rfl,
    fun h => by cases h⟩
  obtain ⟨allRawTx', hall⟩ : ∃ allRawTx', (if isSaveAllTx' then
      Blob.ofBytes ((raw.val.drop pre'.length).take (size'.length + (frame ++ status).length))
        else .ok txInfo.allRawTx) = .ok allRawTx' := by
    cases isSaveAllTx' with
    | true =>
        have hshort : ((raw.val.drop pre'.length).take
            (size'.length + (frame ++ status).length)).length < 2 ^ 63 := by
          have hraw' := raw.property
          rw [List.length_take, List.length_drop]
          omega
        exact ⟨⟨_, hshort⟩, Blob.ofBytes_val ⟨_, hshort⟩⟩
    | false => exact ⟨_, rfl⟩
  -- and every other step finds the bytes that it found in the shorter one.
  refine ⟨allRawTx', readSimple_iff.mpr ⟨size', body, some intStatus, status.length,
    (frame ++ status).length, filled.remembering env memory, allRawTx', hsize', ?_, ?_, ?_, ?_, ?_,
    ?_, hall, ?_, rfl⟩⟩
  · rw [hraw, List.drop_left]
    exact ⟨_, rfl⟩
  · rw [hraw, hlen']
    simp only [List.length_append]
    omega
  · intro hzero
    have hpos := hstatus.length_pos
    have hzero' : tx_size'.toNat = 0 := congrArg UInt64.toNat hzero
    rw [List.length_append] at hlen'
    omega
  · rw [hraw, take_frame hlen']
    exact hread
  · rw [hraw, take_frame hlen', List.take_append_of_le_length hbody.endClearTx_le, hlen',
      List.length_append, Nat.add_sub_cancel, List.take_left]
    exact fillTransaction_memory memory hfill
  · rw [hraw, take_frame hlen', List.take_append_of_le_length hbody.endClearTx_le]
    exact hvalid
  · rfl

/-- What the transaction that takes a delegation back is read as, where the memory is clean. -/
def undelegateTxInfo : TransactionInfo :=
  { (default : TransactionInfo) with
    toAddress := Address.ofBlob (Blob.replicate 25 0 Blob.address_fits)
    fromAddress := Address.unset.setEmpty
    data := ⟨undelegateData, by decide⟩
    delegate := some { value := 0, isDelegate := false }
    sizeRawTx := 54 }

theorem readSimple_undelegate :
    (readSimpleTransactionInfo undelegateEnv true false ⟨true, true, ∅⟩ false default).runFrom
      ([54] ++ undelegateFrame) 0 = .ok ((true, 54, undelegateTxInfo), 55) := by
  decide +kernel

/-- It gets the status 5, its size is written in three bytes, and the memory holds a 7. -/
theorem appended_status_one :
    ∃ allRawTx, (readSimpleTransactionInfo (undelegateEnv.withMemory 7) true true ⟨true, true, ∅⟩ false
        default).runFrom ([250, 55, 0] ++ (undelegateFrame ++ [5])) 0 =
      .ok ((true, 55, { undelegateTxInfo.remembering undelegateEnv 7 with
        intStatus := some 5, sizeRawTx := 55, allRawTx }), 58) :=
  appended_status undelegateEnv ⟨true, true, ∅⟩ false true false default undelegateTxInfo 55
    [] [54] undelegateFrame [] [] [250, 55, 0] [5] [] 54 55 5
    (VarInt.byte (by decide)) (by decide) readSimple_undelegate rfl
    (VarInt.wide (w := 2) (by decide) rfl) (by decide) (VarInt.byte (by decide))
    ⟨[250, 55, 0] ++ (undelegateFrame ++ [5]), by decide⟩ rfl 7

/-- So the delegation is another one with the status than without it. -/
theorem appended_status_undelegate :
    (readSimpleTransactionInfo undelegateEnv true false ⟨true, true, ∅⟩ false default).runFrom
        ([54] ++ undelegateFrame) 0 = .ok ((true, 54, undelegateTxInfo), 55) ∧
      undelegateTxInfo.intStatus = none ∧
      ¬∃ allRawTx, (readSimpleTransactionInfo (undelegateEnv.withMemory 7) true true ⟨true, true, ∅⟩
          false default).runFrom ([250, 55, 0] ++ (undelegateFrame ++ [5])) 0 =
        .ok ((true, 55, { undelegateTxInfo with
          intStatus := some 5, sizeRawTx := 55, allRawTx }), 58) := by
  refine ⟨readSimple_undelegate, rfl, ?_⟩
  rintro ⟨allRawTx, h⟩
  have hseven : ((readSimpleTransactionInfo (undelegateEnv.withMemory 7) true true ⟨true, true, ∅⟩
      false default).runFrom ([250, 55, 0] ++ (undelegateFrame ++ [5])) 0).toOption.map
        (fun r => r.1.2.2.delegate) = some (some { value := 7, isDelegate := false }) := by
    decide +kernel
  rw [h] at hseven
  cases hseven

end TorrentNode
