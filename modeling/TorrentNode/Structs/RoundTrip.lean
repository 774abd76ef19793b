import TorrentNode.Structs.BalanceInfo
import TorrentNode.Structs.BlockInfo
import TorrentNode.Structs.NodeTests
import TorrentNode.Structs.SignBlock

/-!
# What is stored reads back

A record passes the checks of its `serialize` or it is refused. What passed is a string
that `deserialize` turns into the record again, up to the fields that are not stored,
and the cursor of the reader stands behind the last byte then.
-/

namespace TorrentNode

/-- `deserialize` makes `x` out of the string, its cursor ending behind the last byte. -/
structure ReadsWhole {α : Type} (deserialize : Blob → Except Err α) (reader : Deserializer α)
    (raw : Blob) (x : α) : Prop where
  result : deserialize raw = .ok x
  cursor : reader.runFrom raw.val 0 = .ok (x, raw.size)

theorem ReadsWhole.of_reads {α : Type} {absent x : α} {reader : Deserializer α} {raw : Blob}
    (hne : 0 < raw.val.length) (h : Reads reader raw.val x) :
    ReadsWhole (deserializeOr absent reader) reader raw x :=
  ⟨deserializeOr_of_reads hne h, h.run raw.property⟩

/-- Two alternatives of a status hold the same; an address counts by its bytes. -/
def TransactionStatus.Kind.SameAs : TransactionStatus.Kind → TransactionStatus.Kind → Prop
  | .v8Status isServerError isScriptError address, .v8Status isServerError' isScriptError' address' =>
    isServerError = isServerError' ∧ isScriptError = isScriptError' ∧ address.eq address' = .ok true
  | k, k' => k = k'

/-- An address out of its bytes is the address. -/
theorem Address.eq_stored {a : Address} (h : a.isSet = true) :
    (if a.address.isEmpty then Address.unset.setEmpty else Address.ofBlob a.address).eq a =
      .ok true := by
  cases he : a.address.isEmpty with
  | true =>
      have hbytes : a.address = ∅ := Subtype.ext (Blob.isEmpty_iff.mp he)
      simp [Address.eq, Address.setEmpty, h, hbytes]
      rfl
  | false =>
      simp [Address.eq, Address.ofBlob, h]
      rfl

theorem TransactionStatus.Kind.stored_sameAs {k : TransactionStatus.Kind} {raw : Bytes}
    (h : k.serialize = .ok raw) : k.stored.SameAs k := by
  cases k with
  | monostate => rfl
  | delegate => rfl
  | unDelegate value delegateHash => rfl
  | v8Status isServerError isScriptError address =>
      -- the address was asked whether it is empty, which only a set one answers
      obtain ⟨isEmpty, hempty, -⟩ := bind_eq_ok.mp h
      exact ⟨rfl, rfl, Address.eq_stored (check_bind_eq_ok.mp hempty).1⟩

/--
**What is stored reads back**: each of the seven records, out of whatever string its
`serialize` made of it, and the reader takes the whole string. Not stored are the number of a
block and the mark of `BestNodeTest`, which is set by reading; the two `unordered_map`s may be
walked in any order.
-/
theorem records_round_trip (raw : Blob) :
    (∀ b : BalanceInfo, b.serialize = .ok (b.written b.tokens.entries) ∧
      ∀ tokens, tokens.Perm b.tokens.entries → raw.val = b.written tokens →
        ReadsWhole BalanceInfo.deserialize (BalanceInfo.reader raw.size) raw b) ∧
    (∀ h : BlockHeader, h.serialize = .ok raw.val →
      ReadsWhole BlockHeader.deserialize BlockHeader.reader raw (h.withNumber none)) ∧
    (∀ h : SignBlockHeader, h.serialize = .ok raw.val →
      ReadsWhole SignBlockHeader.deserialize SignBlockHeader.reader raw h) ∧
    (∀ s : TransactionStatus, s.serialize = .ok raw.val →
      ∃ t, ReadsWhole TransactionStatus.deserialize TransactionStatus.reader raw t ∧
        t.isSuccess = s.isSuccess ∧ t.transaction = s.transaction ∧
        t.blockNumber = s.blockNumber ∧ t.status.SameAs s.status) ∧
    (∀ t : BestNodeTest, t.serialize = .ok raw.val →
      ReadsWhole BestNodeTest.deserialize BestNodeTest.reader raw { t with deserialized := true }) ∧
    (∀ n : AllNodes, n.serialize = .ok raw.val →
      ReadsWhole AllNodes.deserialize AllNodes.reader raw n) ∧
    (∀ f : ForgingSums, f.serialize = .ok (f.written f.sums.entries) ∧
      ∀ sums, sums.Perm f.sums.entries → raw.val = f.written sums →
        ReadsWhole ForgingSums.deserialize ForgingSums.reader raw f) := by
  have hsmall := raw.property
  refine ⟨fun b => ⟨rfl, fun tokens htokens hraw => ?_⟩, fun h hs => ?_, fun h hs => ?_,
    fun s hs => ?_, fun t ht => ?_, fun n hn => ?_, fun f => ⟨rfl, fun sums hsums hraw => ?_⟩⟩
  · obtain ⟨hread, hne⟩ := BalanceInfo.reader_written htokens hraw
    exact ⟨deserializeOr_of_run hne hread, hread⟩
  · exact ⟨BlockHeader.deserialize_serialize hs, (BlockHeader.reads hs).run hsmall⟩
  · have hread := SignBlockHeader.reads hs
    exact ⟨deserializeAll_of_reads hread, hread.run hsmall⟩
  · obtain ⟨hread, -⟩ := TransactionStatus.reads hs
    refine ⟨s.stored, ⟨TransactionStatus.deserialize_serialize hs, hread.run hsmall⟩, rfl, rfl, rfl,
      ?_⟩
    obtain ⟨-, hs⟩ := check_bind_eq_ok.mp hs
    obtain ⟨kind, hkind, -⟩ := bind_eq_ok.mp hs
    exact TransactionStatus.Kind.stored_sameAs hkind
  · obtain ⟨hread, hne⟩ := BestNodeTest.reads ht hsmall
    exact ReadsWhole.of_reads hne hread
  · obtain ⟨hread, hne⟩ := AllNodes.reads hn hsmall
    exact ReadsWhole.of_reads hne hread
  · rw [hraw] at hsmall
    have hread := ForgingSums.reads_written hsums hsmall
    rw [← hraw] at hread
    refine ReadsWhole.of_reads ?_ hread
    rw [hraw, ForgingSums.written, List.length_append, length_serializeUInt64]
    unfold sizeofSizeT; omega

/-- A balance with one token and all three optional parts, and the status of a contract. -/
theorem records_round_trip_some :
    (∃ raw, ReadsWhole BalanceInfo.deserialize (BalanceInfo.reader raw.size) raw
      { (default : BalanceInfo) with
        delegated := some default, forged := some ⟨5, 1⟩, tokenBlockNumber := some 7
        tokens := (∅ : OrdMap Blob TokenBalance).insert ∅ default }) ∧
    (∃ raw t, ReadsWhole TransactionStatus.deserialize TransactionStatus.reader raw t ∧
      t.status.SameAs (.v8Status true false (Address.unset.setEmpty))) := by
  refine ⟨⟨⟨BalanceInfo.written _ [(∅, default)], by decide +kernel⟩,
    ((records_round_trip _).1 _).2 _ (List.Perm.refl _) rfl⟩, ?_⟩
  obtain ⟨t, ht, -, -, -, hsame⟩ := (records_round_trip ⟨[0, 0, 0, 0, 0, 0, 0, 0, 9,
    0, 0, 0, 0, 0, 0, 0, 0, 0, 0, 0, 0, 0, 0, 0, 3, 1, 0, 0, 0, 0, 0, 0, 0, 0, 0], by decide⟩).2.2.2.1
    { isSuccess := false, transaction := ∅, blockNumber := 9,
      status := .v8Status true false (Address.unset.setEmpty) } rfl
  exact ⟨_, t, ht, hsame⟩

end TorrentNode
