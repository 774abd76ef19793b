import Mathlib.Data.List.GetD
import TorrentNode.Lib.PrefixScan
import TorrentNode.Storage.Frames
import TorrentNode.Storage.MainRecords

/-!
# The records of delegations

A delegation stands under the two addresses of its pair and a number off a
counter that runs downwards. So under the key of a pair the records are a stack,
the latest in front, and one prefix up stand all the stacks of an address.
-/

namespace TorrentNode

/-- Two addresses of the length that all have but the initial wallet. -/
structure DelegatePair where
  keyFrom : Blob
  keyTo : Blob
  size_from : keyFrom.size = 25
  size_to : keyTo.size = 25
  deriving DecidableEq

namespace DelegatePair

variable {P Q : DelegatePair} {c c' : UInt64} {k : Bytes}

/-- What `makeKeyDelegatePair` returns. -/
def name (P : DelegatePair) : Blob :=
  ⟨P.keyFrom.val ++ ascii [DELEGATE_KEY_PAIR_DELIMITER] ++ P.keyTo.val, by
    have hf : P.keyFrom.val.length = 25 := P.size_from
    have ht : P.keyTo.val.length = 25 := P.size_to
    rw [List.length_append, List.length_append, hf, ht]
    decide⟩

/-- Where the records of the pair stand. -/
def scan (P : DelegatePair) : Bytes :=
  literalKey DELEGATE_PREFIX ++ P.name.val ++ ascii [DELEGATE_POSTFIX]

/-- The key of a delegation: that of the pair, and its counter. -/
def key (P : DelegatePair) (counter : UInt64) : Bytes := P.scan ++ serializeUInt64 counter

/-- Where the records of all pairs from one address stand. -/
def scanFrom (keyFrom : Blob) : Bytes :=
  literalKey DELEGATE_PREFIX ++ keyFrom.val ++ ascii [DELEGATE_KEY_PAIR_DELIMITER]

theorem makeKeyDelegatePair_eq (P : DelegatePair) :
    makeKeyDelegatePair P.keyFrom P.keyTo = .ok P.name := Blob.ofBytes_val P.name

theorem size_name (P : DelegatePair) : P.name.val.length = 51 := by
  have hf : P.keyFrom.val.length = 25 := P.size_from
  have ht : P.keyTo.val.length = 25 := P.size_to
  unfold name
  rw [List.length_append, List.length_append, hf, ht]
  rfl

theorem length_scan (P : DelegatePair) : P.scan.length = 54 := by
  unfold scan
  rw [List.length_append, List.length_append, P.size_name]
  rfl

theorem name_ne (P : DelegatePair) : P.name ≠ ∅ := by
  intro h
  have hlen := P.size_name
  rw [h] at hlen
  exact absurd hlen (by decide)

theorem makeKey_scan (P : DelegatePair) :
    makeKey [.lit DELEGATE_PREFIX, .str P.name, .chr DELEGATE_POSTFIX] = .ok P.scan := by
  have hname : P.name.isEmpty = false := Blob.isEmpty_eq_false.mpr P.name_ne
  show (addToBuf (literalKey DELEGATE_PREFIX) (.str P.name) >>= fun b => _) = _
  rw [addToBuf_str.mpr ⟨P.name_ne, rfl⟩]
  rfl

theorem makeKey_key (P : DelegatePair) (c : UInt64) :
    makeKey [.lit DELEGATE_PREFIX, .str P.name, .chr DELEGATE_POSTFIX, .int c] =
      .ok (P.key c) := by
  show (addToBuf (literalKey DELEGATE_PREFIX) (.str P.name) >>= fun b => _) = _
  rw [addToBuf_str.mpr ⟨P.name_ne, rfl⟩]
  rfl

theorem scanFrom_prefix (P : DelegatePair) : scanFrom P.keyFrom <+: P.scan := by
  unfold scan scanFrom name
  exact ⟨P.keyTo.val ++ ascii [DELEGATE_POSTFIX], by simp⟩

theorem prefix_scanFrom (keyFrom : Blob) : literalKey DELEGATE_PREFIX <+: scanFrom keyFrom :=
  ⟨keyFrom.val ++ ascii [DELEGATE_KEY_PAIR_DELIMITER], by unfold scanFrom; simp⟩

theorem prefix_scan (P : DelegatePair) : literalKey DELEGATE_PREFIX <+: P.scan :=
  (prefix_scanFrom P.keyFrom).trans P.scanFrom_prefix

theorem scan_prefix (P : DelegatePair) (c : UInt64) : P.scan <+: P.key c := List.prefix_append _ _

theorem prefix_key (P : DelegatePair) (c : UInt64) : literalKey DELEGATE_PREFIX <+: P.key c :=
  P.prefix_scan.trans (P.scan_prefix c)

/-- Only the address itself has its pairs under its prefix. -/
theorem keyFrom_of_scanFrom {keyFrom : Blob} (hsize : keyFrom.size = 25)
    (h : scanFrom keyFrom <+: P.key c) : P.keyFrom = keyFrom := by
  have hP := P.scanFrom_prefix.trans (P.scan_prefix c)
  have hlen : (scanFrom keyFrom).length = (scanFrom P.keyFrom).length := by
    unfold scanFrom
    simp only [List.length_append]
    rw [show keyFrom.val.length = 25 from hsize, show P.keyFrom.val.length = 25 from P.size_from]
  have heq := (List.prefix_of_prefix_length_le h hP hlen.le).eq_of_length hlen
  unfold scanFrom at heq
  have hval := List.append_cancel_left (List.append_cancel_right heq)
  exact (Subtype.ext hval).symm

theorem eq_of_scan (h : P.scan = Q.scan) : P = Q := by
  have hname := List.append_cancel_left (List.append_cancel_right h)
  change P.keyFrom.val ++ _ ++ P.keyTo.val = Q.keyFrom.val ++ _ ++ Q.keyTo.val at hname
  have hlen : P.keyFrom.val.length = Q.keyFrom.val.length :=
    (show P.keyFrom.val.length = 25 from P.size_from).trans Q.size_from.symm
  rw [List.append_assoc, List.append_assoc] at hname
  obtain ⟨hfrom, hto⟩ := List.append_inj hname hlen
  have hfrom' : P.keyFrom = Q.keyFrom := Subtype.ext hfrom
  have hto' : P.keyTo = Q.keyTo := Subtype.ext (List.append_cancel_left hto)
  cases P; cases Q
  simp only at hfrom' hto'
  subst hfrom' hto'
  rfl

/-- Two pairs have no key in common. -/
theorem eq_of_prefix (hP : P.scan <+: k) (hQ : Q.scan <+: k) : P = Q := by
  refine eq_of_scan ?_
  have hlen : P.scan.length = Q.scan.length := by rw [P.length_scan, Q.length_scan]
  exact (List.prefix_of_prefix_length_le hP hQ hlen.le).eq_of_length hlen

theorem scan_prefix_key : P.scan <+: Q.key c ↔ P = Q :=
  ⟨fun h => eq_of_prefix h (Q.scan_prefix c), fun h => h ▸ Q.scan_prefix c⟩

theorem key_inj (h : P.key c = Q.key c') : P = Q ∧ c = c' := by
  have hPQ : P = Q := eq_of_prefix (P.scan_prefix c) (h ▸ Q.scan_prefix c')
  subst hPQ
  refine ⟨rfl, UInt64.toNat_inj.mp ?_⟩
  exact BigEndian.encode_inj (w := sizeofSizeT) c.toNat_lt c'.toNat_lt (List.append_cancel_left h)

/-- **The records of a pair stand in the order of their numbers.** -/
theorem key_lt_key : P.key c < P.key c' ↔ c.toNat < c'.toNat := by
  unfold key
  rw [List.append_lt_append_iff, serializeUInt64_lt]

/-- The second address of a pair is read off its keys. -/
theorem getSecondOnKeyDelegatePair_key (P : DelegatePair) (c : UInt64) :
    getSecondOnKeyDelegatePair P.keyFrom (P.key c) = .ok P.keyTo := by
  have hf : P.keyFrom.size = 25 := P.size_from
  have hf' : P.keyFrom.val.length = 25 := P.size_from
  have ht : P.keyTo.val.length = 25 := P.size_to
  have hkey : P.key c = (literalKey DELEGATE_PREFIX ++ P.keyFrom.val) ++
      (ascii [DELEGATE_KEY_PAIR_DELIMITER] ++ (P.keyTo.val ++
        (ascii [DELEGATE_POSTFIX] ++ serializeUInt64 c))) := by
    unfold key scan name; simp
  have hpre : (literalKey DELEGATE_PREFIX ++ P.keyFrom.val).length = 27 := by
    rw [List.length_append, hf']; rfl
  have hfirst : (P.key c).getD 27 0 = 59 := by
    rw [hkey, List.getD_append_right _ _ _ _ (by omega), hpre]; rfl
  have hsecond : (P.key c).getD 53 0 = 33 := by
    rw [hkey, List.getD_append_right _ _ _ _ (by omega), hpre,
      List.getD_append_right _ _ _ _ (by decide)]
    rw [List.getD_append_right _ _ _ _ (by rw [ht]; decide), ht]
    rfl
  have hlen : 28 ≤ (P.key c).length := by
    rw [key, List.length_append, P.length_scan]; omega
  have htake : ((P.key c).drop 28).take 25 = P.keyTo.val := by
    have hdrop : (P.key c).drop 28 = P.keyTo.val ++ (ascii [DELEGATE_POSTFIX] ++ serializeUInt64 c) := by
      rw [hkey, List.drop_append, hpre, List.drop_eq_nil_of_le (by omega)]
      rfl
    rw [hdrop, List.take_append_of_le_length (by omega), List.take_of_length_le (by omega)]
  unfold getSecondOnKeyDelegatePair
  rw [hf]
  show (check (decide (28 ≤ (P.key c).length) && (P.key c).getD 27 0 == 59 &&
    (P.key c).getD 53 0 == 33) _ >>= fun _ => Blob.ofBytes (((P.key c).drop 28).take 25)) = _
  rw [hfirst, hsecond, htake, decide_eq_true hlen, Blob.ofBytes_val]
  rfl

end DelegatePair

/-! ## Lookups -/

namespace LevelDb

theorem findFirstOf_eq (db : LevelDb) (key : Bytes) (excluded : List Bytes) :
    db.findFirstOf key excluded = (db.under key).find? (fun e => e.1 ∉ excluded) := by
  unfold findFirstOf
  rw [← OrdMap.takeWhile_seek]
  congr 2
  funext e
  rw [Bool.eq_iff_iff, List.isPrefixOf_iff_prefix, decide_eq_true_iff]

/-- Without a page a scan returns what it makes of everything below its end. -/
theorem collect_mapM {α : Type} {func : Bytes × Blob → Except Err α} {keyTo : Bytes} :
    ∀ {es : List (Bytes × Blob)} {index : UInt64},
      collect keyTo 0 0 func index es = (es.takeWhile (fun e => e.1 < keyTo)).mapM func
  | [], _ => rfl
  | e :: es, index => by
      unfold collect
      by_cases h : keyTo ≤ e.1
      · rw [if_pos h, List.takeWhile_cons_of_neg (by simpa using h)]
        rfl
      · rw [if_neg h, List.takeWhile_cons_of_pos (by simpa using h), if_neg (by simp),
          if_pos (UInt64.zero_le), collect_mapM, List.mapM_cons]

theorem collect_map {α : Type} (g : Bytes × Blob → α) {keyTo : Bytes}
    {es : List (Bytes × Blob)} {index : UInt64} :
    collect keyTo 0 0 (fun e => .ok (g e)) index es =
      .ok ((es.takeWhile (fun e => e.1 < keyTo)).map g) :=
  collect_mapM.trans (mapM_eq_ok (fun _ _ => rfl))

theorem collect_all {keyTo : Bytes} {es : List (Bytes × Blob)} {index : UInt64} :
    collect keyTo 0 0 .ok index es = .ok (es.takeWhile (fun e => e.1 < keyTo)) :=
  (collect_map id).trans (by rw [List.map_id])

theorem findAllDelegatedPairKeys_eq (db : LevelDb) {keyFrom : Blob} (h : keyFrom ≠ ∅) :
    db.findAllDelegatedPairKeys keyFrom = .ok (db.under (DelegatePair.scanFrom keyFrom)) := by
  unfold findAllDelegatedPairKeys findKey2 findKeyInternal
  rw [Blob.isEmpty_eq_false.mpr h, collect_all]
  refine congrArg Except.ok (OrdMap.takeWhile_seek_range (by decide) ?_)
  intro c hle hlt
  rw [UInt8.le_iff_toNat_le] at hle
  rw [UInt8.lt_iff_toNat_lt] at hlt
  refine UInt8.toNat_inj.mp ?_
  have h1 : (59 : Nat) ≤ c.toNat := hle
  have h2 : c.toNat < 60 := hlt
  show c.toNat = 59
  omega

end LevelDb

end TorrentNode
