import TorrentNode.Storage.DelegateRecords
import TorrentNode.Utils.Chars

/-!
# Keys that end in an integer

The database compares keys byte by byte, and an integer at the end of a key is written so
that this compares the integers. A scan, of a range or of a prefix, then meets the
records with the same key up to the integer in the order of their numbers.
-/

namespace TorrentNode

/-- A key that ends in an integer of `w` bytes. -/
def integerKey (begin : Bytes) (w x : Nat) : Bytes :=
  begin ++ (Chars.toBinaryStringBigEndian w x).bytes

/-- Numerals compare as bytes as the numbers do. -/
theorem bytes_lt_iff {w x y : Nat} (hx : x < 256 ^ w) (hy : y < 256 ^ w) :
    (Chars.toBinaryStringBigEndian w x).bytes < (Chars.toBinaryStringBigEndian w y).bytes ↔
      x < y := by
  rw [Chars.bytes_toBinaryStringBigEndian, Chars.bytes_toBinaryStringBigEndian, serializeInt,
    serializeInt, BigEndian.encode_lt_iff, Nat.mod_eq_of_lt hx, Nat.mod_eq_of_lt hy]

theorem integerKey_lt_iff {begin : Bytes} {w x y : Nat} (hx : x < 256 ^ w) (hy : y < 256 ^ w) :
    integerKey begin w x < integerKey begin w y ↔ x < y :=
  List.append_lt_append_iff.trans (bytes_lt_iff hx hy)

namespace LevelDb

/-- A scan, whatever it makes of the records, goes through some of them in their order. -/
theorem collect_sublist (keyTo : Bytes) (fromIndex count : UInt64) :
    ∀ (es : List (Bytes × Blob)) (index : UInt64), ∃ page : List (Bytes × Blob),
      page.Sublist es ∧ ∀ {α : Type} (func : Bytes × Blob → Except Err α),
        collect keyTo fromIndex count func index es = page.mapM func
  | [], _ => ⟨[], List.Sublist.refl _, fun _ => rfl⟩
  | e :: es, index => by
      obtain ⟨page, hsub, hpage⟩ := collect_sublist keyTo fromIndex count es (index + 1)
      by_cases hend : keyTo ≤ e.1
      · refine ⟨[], List.nil_sublist _, fun func => ?_⟩
        rw [collect, if_pos hend]
        rfl
      by_cases hcount : count ≠ 0 ∧ fromIndex + count ≤ index
      · refine ⟨[], List.nil_sublist _, fun func => ?_⟩
        rw [collect, if_neg hend, if_pos hcount]
        rfl
      by_cases hfrom : fromIndex ≤ index
      · refine ⟨e :: page, hsub.cons_cons e, fun func => ?_⟩
        rw [collect, if_neg hend, if_neg hcount, if_pos hfrom, hpage, List.mapM_cons]
      · refine ⟨page, hsub.cons e, fun func => ?_⟩
        rw [collect, if_neg hend, if_neg hcount, if_neg hfrom, hpage]

/-- The records of an increasing list that end in integers have them in order. -/
theorem numeric_of_increasing {w : Nat} {es : List (Bytes × Blob)} (h : OrdMap.Increasing es) :
    es.Pairwise (fun e e' => ∀ begin x y, x < 256 ^ w → y < 256 ^ w →
      e.1 = integerKey begin w x → e'.1 = integerKey begin w y → x < y) := by
  refine h.imp (fun hlt begin x y hx hy he he' => ?_)
  rw [he, he'] at hlt
  exact (integerKey_lt_iff hx hy).mp hlt

/-- **A range is scanned in numeric order**, and as a whole when no page is asked for. -/
theorem findKeyInternal_numeric (w : Nat) (db : LevelDb) (keyFrom keyTo : Bytes)
    (fromIndex count : UInt64) : ∃ page : List (Bytes × Blob),
      (∀ {α : Type} (func : Bytes × Blob → Except Err α),
        db.findKeyInternal keyFrom keyTo fromIndex count func = page.mapM func) ∧
      page.Pairwise (fun e e' => ∀ begin x y, x < 256 ^ w → y < 256 ^ w →
        e.1 = integerKey begin w x → e'.1 = integerKey begin w y → x < y) ∧
      (fromIndex = 0 → count = 0 → ∀ e, e ∈ page ↔
        db.find? e.1 = some e.2 ∧ keyFrom ≤ e.1 ∧ e.1 < keyTo) := by
  obtain ⟨page, hsub, hpage⟩ := collect_sublist keyTo fromIndex count (db.seek keyFrom) 0
  refine ⟨page, hpage, ?_, ?_⟩
  · exact numeric_of_increasing ((OrdMap.increasing_seek db keyFrom).sublist hsub)
  · rintro rfl rfl e
    have hpure : page.mapM (fun e => (.ok e : Except Err (Bytes × Blob))) = .ok (page.map id) :=
      mapM_eq_ok (fun _ _ => rfl)
    have hall := hpure.symm.trans ((hpage .ok).symm.trans collect_all)
    rw [List.map_id] at hall
    have hbelow : ((db.seek keyFrom).takeWhile (fun e => e.1 < keyTo)) =
        (db.seek keyFrom).filter (fun e => e.1 < keyTo) := by
      refine OrdMap.takeWhile_eq_filter ((OrdMap.increasing_seek db keyFrom).imp ?_)
      intro a b hlt hb
      exact decide_eq_true (hlt.trans (of_decide_eq_true hb))
    rw [Except.ok.inj hall, hbelow, List.mem_filter, OrdMap.mem_seek, decide_eq_true_eq]
    constructor
    · rintro ⟨⟨hfrom, hfind⟩, hto⟩
      exact ⟨hfind, hfrom, hto⟩
    · rintro ⟨hfind, hfrom, hto⟩
      exact ⟨⟨hfrom, hfind⟩, hto⟩

/-- **A prefix is scanned in numeric order**: the record that is found has the least number of
those that are not excluded. -/
theorem findFirstOf_least {w x y : Nat} {db : LevelDb} {begin : Bytes} {excluded : List Bytes}
    {e : Bytes × Blob} (hx : x < 256 ^ w) (hy : y < 256 ^ w)
    (hfirst : db.findFirstOf begin excluded = some e) (he : e.1 = integerKey begin w x)
    (hrecord : (db.find? (integerKey begin w y)).isSome)
    (hexcluded : integerKey begin w y ∉ excluded) : x ≤ y := by
  rw [findFirstOf_eq] at hfirst
  obtain ⟨value, hvalue⟩ := Option.isSome_iff_exists.mp hrecord
  have hmem : (integerKey begin w y, value) ∈ db.under begin :=
    OrdMap.mem_under.mpr ⟨List.prefix_append _ _, hvalue⟩
  obtain ⟨_, before, after, hsplit, hbefore⟩ := List.find?_eq_some_iff_append.mp hfirst
  have hincreasing := OrdMap.increasing_under (m := db) (p := begin)
  rw [hsplit] at hmem hincreasing
  rcases List.mem_append.mp hmem with hmem | hmem
  · -- what was passed over is excluded
    exact absurd (hbefore _ hmem) (by simpa using hexcluded)
  · rcases List.mem_cons.mp hmem with heq | hmem
    · have hkey : integerKey begin w y = e.1 := congrArg Prod.fst heq
      rw [he] at hkey
      by_contra hlt
      have hless : integerKey begin w y < integerKey begin w x :=
        (integerKey_lt_iff hy hx).mpr (Nat.lt_of_not_le hlt)
      rw [hkey] at hless
      exact lt_irrefl _ hless
    · have hless := (List.pairwise_cons.mp (List.pairwise_append.mp hincreasing).2.1).1 _ hmem
      have hless : e.1 < integerKey begin w y := hless
      rw [he] at hless
      exact ((integerKey_lt_iff hx hy).mp hless).le

end LevelDb

/-- **Integers at the end of keys**: they read back from wherever they stand, compare as bytes the
way the numbers do and are the same from either encoder, so that scans meet them in order. -/
theorem integer_keys {w : Nat} (hw : 0 < w) :
    (∀ x, x < 256 ^ w → ∀ before after : Chars,
      (before ++ Chars.toBinaryStringBigEndian w x ++ after).length < 2 ^ 63 →
        Chars.fromBinaryStringBigEndian w (before ++ Chars.toBinaryStringBigEndian w x ++ after)
          before.length = (x, before.length + w) ∧
        Chars.deserializeIntBigEndian w (before ++ Chars.toBinaryStringBigEndian w x ++ after)
          before.length = .ok (x, before.length + w)) ∧
    (∀ x y, x < 256 ^ w → y < 256 ^ w →
      ((Chars.toBinaryStringBigEndian w x).bytes < (Chars.toBinaryStringBigEndian w y).bytes ↔
        x < y)) ∧
    (∀ x, x < 256 ^ w → ∀ buffer : Chars,
      Chars.toBinaryStringBigEndianBuffer w x buffer =
        buffer ++ Chars.toBinaryStringBigEndian w x) ∧
    (∀ (db : LevelDb) (keyFrom keyTo : Bytes) (fromIndex count : UInt64),
      ∃ page : List (Bytes × Blob),
        (∀ {α : Type} (func : Bytes × Blob → Except Err α),
          db.findKeyInternal keyFrom keyTo fromIndex count func = page.mapM func) ∧
        page.Pairwise (fun e e' => ∀ begin x y, x < 256 ^ w → y < 256 ^ w →
          e.1 = integerKey begin w x → e'.1 = integerKey begin w y → x < y) ∧
        (fromIndex = 0 → count = 0 → ∀ e, e ∈ page ↔
          db.find? e.1 = some e.2 ∧ keyFrom ≤ e.1 ∧ e.1 < keyTo)) ∧
    (∀ (db : LevelDb) (begin : Bytes) (excluded : List Bytes) (e : Bytes × Blob) (x y : Nat),
      x < 256 ^ w → y < 256 ^ w → db.findFirstOf begin excluded = some e →
        e.1 = integerKey begin w x → (db.find? (integerKey begin w y)).isSome →
          integerKey begin w y ∉ excluded → x ≤ y) := by
  refine ⟨fun x hx before after hlen => ?_, fun x y hx hy => bytes_lt_iff hx hy,
    fun x _ buffer => Chars.toBinaryStringBigEndianBuffer_eq w x buffer,
    fun db keyFrom keyTo fromIndex count =>
      db.findKeyInternal_numeric w keyFrom keyTo fromIndex count,
    fun db begin excluded e x y hx hy hfirst he hrecord hexcluded =>
      LevelDb.findFirstOf_least hx hy hfirst he hrecord hexcluded⟩
  have hread := Chars.fromBinaryStringBigEndian_at hw hx before after hlen
  refine ⟨hread, ?_⟩
  unfold Chars.deserializeIntBigEndian
  rw [hread]
  have hmoved : (before.length + w != before.length) = true := by
    rw [bne_iff_ne]
    omega
  show (check (before.length + w != before.length) "Incorrect raw" >>= fun _ => _) = _
  rw [hmoved]
  rfl

/-- Where signed comparison would go wrong. -/
theorem integer_keys_uint64 :
    Chars.deserializeIntBigEndian 8 ([1, 2] ++ Chars.toBinaryStringBigEndian 8 128 ++ [3]) 2 =
        .ok (128, 10) ∧
      (Chars.toBinaryStringBigEndian 8 127).bytes < (Chars.toBinaryStringBigEndian 8 128).bytes :=
  ⟨((integer_keys (by decide)).1 128 (by decide) [1, 2] [3] (by decide)).2,
    ((integer_keys (w := 8) (by decide)).2.1 127 128 (by decide) (by decide)).mpr (by decide)⟩

end TorrentNode
