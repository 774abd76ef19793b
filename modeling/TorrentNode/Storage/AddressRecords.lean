import TorrentNode.Lib.NamedKeys
import TorrentNode.Storage.DelegateRecords

/-!
# The records of addresses

The history of an address, its token history and the statuses of its transactions stand
under keys of one shape: the prefix of the kind, the address as it is, a separator and
the number or the hash. Nothing escapes the separator, and an address that comes out of
a token transfer can be of any length.
-/

namespace TorrentNode

open NamedKeys OrdMap

/-- The kinds of records that stand under an address, or under a pair of addresses. -/
inductive AddressKind where
  | address
  | addressToken
  | addressStatus
  | delegate
  deriving DecidableEq

namespace AddressKind

/-- What the keys of a kind start with. -/
def pre : AddressKind → String
  | address => ADDRESS_PREFIX
  | addressToken => ADDRESS_TOKEN_PREFIX
  | addressStatus => ADDRESS_STATUS_PREFIX
  | delegate => DELEGATE_PREFIX

/-- How long a number or a hash is. -/
def width : AddressKind → Nat
  | addressStatus => 32
  | _ => sizeofSizeT

/-- No kind has its keys among those of another. -/
theorem apart {k k' : AddressKind} (h : k' ≠ k) : Apart (literalKey k.pre) (literalKey k'.pre) := by
  cases k <;> cases k' <;> first | exact absurd rfl h | decide

end AddressKind

/-- A call that saves a record of such a kind. -/
inductive Saved where
  | addAddress (address : Blob) (value : AddressInfo) (counter : UInt64)
  | addAddressToken (address : Blob) (value : AddressInfo) (counter : UInt64)
  | addAddressStatus (address : Blob) (txHash : {h : Blob // h.size = 32})
    (value : TransactionStatus)
  | addDelegateKey (keyFrom keyTo : Blob) (value : DelegateState) (counter : UInt64)
  deriving DecidableEq

namespace Saved

/-- The call. -/
def save (b : Batch) : Saved → Except Err Batch
  | addAddress address value counter => b.addAddress address value counter
  | addAddressToken address value counter => b.addAddressToken address value counter
  | addAddressStatus address txHash value =>
    b.addAddressStatus (makeAddressStatusKey address txHash) value
  | addDelegateKey keyFrom keyTo value counter => do
    let delegatePair ← makeKeyDelegatePair keyFrom keyTo
    let r ← b.addDelegateKey delegatePair value counter
    pure r.2

/-- The kind of a record. -/
def kind : Saved → AddressKind
  | addAddress _ _ _ => .address
  | addAddressToken _ _ _ => .addressToken
  | addAddressStatus _ _ _ => .addressStatus
  | addDelegateKey _ _ _ _ => .delegate

/-- What stands between the prefix and the separator. -/
def name : Saved → Bytes
  | addAddress address _ _ => address.val
  | addAddressToken address _ _ => address.val
  | addAddressStatus address _ _ => address.val
  | addDelegateKey keyFrom keyTo _ _ =>
    keyFrom.val ++ ascii [DELEGATE_KEY_PAIR_DELIMITER] ++ keyTo.val

/-- What stands behind it. -/
def rest : Saved → Bytes
  | addAddress _ _ counter => serializeUInt64 counter
  | addAddressToken _ _ counter => serializeUInt64 counter
  | addAddressStatus _ txHash _ => txHash.val.val
  | addDelegateKey _ _ _ counter => serializeUInt64 counter

theorem length_rest (s : Saved) : s.rest.length = s.kind.width := by
  cases s with
  | addAddress address value counter => exact length_serializeUInt64 counter
  | addAddressToken address value counter => exact length_serializeUInt64 counter
  | addAddressStatus address txHash value => exact txHash.property
  | addDelegateKey keyFrom keyTo value counter => exact length_serializeUInt64 counter

/-- What is stored under the key. -/
def serialize : Saved → Except Err Bytes
  | addAddress _ value _ => value.serialize
  | addAddressToken _ value _ => value.serialize
  | addAddressStatus _ _ value => value.serialize
  | addDelegateKey _ _ value _ => value.serialize

/-- `'!'` -/
def separator : UInt8 := 33

/-- The key: what the scan of a name starts with, and what tells its records apart. -/
def key (s : Saved) : Bytes := scan (literalKey s.kind.pre) separator s.name ++ s.rest

/-- The bytes that are put, when they can be. -/
def value (s : Saved) : Blob :=
  match s.serialize.bind Blob.ofBytes with
  | .ok value => value
  | .error _ => ∅

theorem addKey_value {b b' : Batch} {key : Bytes} {s : Saved} {isSave : Bool}
    (h : b.addKey key s.serialize isSave = .ok b') :
    s.serialize = .ok s.value.val ∧ b'.batch = b.batch ++ [.put key s.value] := by
  obtain ⟨value, hvalue, rfl⟩ := Batch.addKey_eq_ok h
  have heq : s.value = value := by
    unfold Saved.value
    rw [hvalue]
    simp only [Except.bind, Blob.ofBytes_val]
  rw [heq]
  exact ⟨hvalue, rfl⟩

/-- **Each call puts one record**, under its prefix, name and rest. -/
theorem save_eq_ok {b b' : Batch} {s : Saved} (h : s.save b = .ok b') :
    s.serialize = .ok s.value.val ∧ b'.batch = b.batch ++ [.put s.key s.value] := by
  cases s with
  | addAddress address value counter =>
      obtain ⟨key, hkey, h⟩ := bind_eq_ok.mp h
      obtain ⟨-, rfl⟩ := (makeKey_counter rfl).mp hkey
      exact addKey_value (s := addAddress address value counter) h
  | addAddressToken address value counter =>
      obtain ⟨key, hkey, h⟩ := bind_eq_ok.mp h
      obtain ⟨-, rfl⟩ := (makeKey_counter rfl).mp hkey
      exact addKey_value (s := addAddressToken address value counter) h
  | addAddressStatus address txHash value =>
      exact addKey_value (s := addAddressStatus address txHash value) h
  | addDelegateKey keyFrom keyTo value counter =>
      obtain ⟨pair, hpair, h⟩ := bind_eq_ok.mp h
      obtain ⟨r, hr, h⟩ := bind_eq_ok.mp h
      obtain rfl := Except.ok.inj h
      obtain ⟨key, hkey, hr⟩ := bind_eq_ok.mp hr
      obtain ⟨-, rfl⟩ := (makeKey_counter rfl).mp hkey
      obtain ⟨b', hb', hr⟩ := bind_eq_ok.mp hr
      obtain rfl := Except.ok.inj hr
      rw [Blob.ofBytes_eq_ok.mp hpair] at hb'
      exact addKey_value (s := addDelegateKey keyFrom keyTo value counter) hb'

end Saved

/-- The databases that batches of such records leave behind. -/
inductive SavedIn : List Saved → LevelDb → Prop where
  | empty : SavedIn [] ∅
  | batch {l l' : List Saved} {db : LevelDb} {b : Batch} :
      SavedIn l db → l'.foldlM Saved.save Batch.new = .ok b → SavedIn (l ++ l') (addBatch b db)

namespace SavedIn

variable {l : List Saved} {db : LevelDb}

theorem foldlM_save : ∀ {l : List Saved} {b b' : Batch}, l.foldlM Saved.save b = .ok b' →
    (∀ s ∈ l, s.serialize = .ok s.value.val) ∧
      b'.batch = b.batch ++ l.map (fun s => .put s.key s.value)
  | [], b, b', h => by
      obtain rfl := Except.ok.inj h
      exact ⟨by simp, by simp⟩
  | s :: l, b, b', h => by
      rw [List.foldlM_cons] at h
      obtain ⟨b'', hsave, h⟩ := bind_eq_ok.mp h
      obtain ⟨hser, hbatch⟩ := Saved.save_eq_ok hsave
      obtain ⟨hall, hrest⟩ := foldlM_save h
      refine ⟨List.forall_mem_cons.mpr ⟨hser, hall⟩, ?_⟩
      rw [hrest, hbatch, List.map_cons, List.append_assoc]
      rfl

theorem apply_puts (m : LevelDb) : ∀ (l : List Saved),
    WriteOp.apply m (l.map (fun s => .put s.key s.value)) =
      (l.map (fun s => (s.key, s.value))).foldl (fun m e => m.insert e.1 e.2) m
  | [] => rfl
  | s :: l => apply_puts (m.insert s.key s.value) l

/-- **The database holds what was put**, the last value of each key. -/
theorem holds (h : SavedIn l db) :
    (∀ s ∈ l, s.serialize = .ok s.value.val) ∧ db = ofList (l.map (fun s => (s.key, s.value))) := by
  induction h with
  | empty => exact ⟨by simp, rfl⟩
  | @batch l l' db b _ hb ih =>
      obtain ⟨hall, hbatch⟩ := foldlM_save hb
      refine ⟨?_, ?_⟩
      · intro s hs
        rcases List.mem_append.mp hs with hs | hs
        · exact ih.1 s hs
        · exact hall s hs
      · rw [addBatch, hbatch, show Batch.new.batch = [] from rfl, List.nil_append, apply_puts,
          ih.2, List.map_append, ofList, ofList, List.foldl_append]

end SavedIn

/-! ## What was saved for an address -/

namespace Saved

/-- The values of these records, in the order of their keys, and of each key the last one. -/
def values {V : Type} (select : Saved → Option (Bytes × V)) (l : List Saved) : List V :=
  (ofList (l.filterMap select)).entries.map Prod.snd

/-- The record of `addAddress` for this address, with the rest of its key. -/
def forAddress (A : Blob) : Saved → Option (Bytes × AddressInfo)
  | addAddress address value counter =>
    if address = A then some (serializeUInt64 counter, value) else none
  | _ => none

/-- The record of `addAddressToken` for it. -/
def forAddressToken (A : Blob) : Saved → Option (Bytes × AddressInfo)
  | addAddressToken address value counter =>
    if address = A then some (serializeUInt64 counter, value) else none
  | _ => none

/-- The record of `addAddressStatus` for it. -/
def forAddressStatus (A : Blob) : Saved → Option (Bytes × TransactionStatus)
  | addAddressStatus address txHash value =>
    if address = A then some (txHash.val.val, value.stored) else none
  | _ => none

/-- No other address, followed by a separator and a number or a hash, starts with this address and
a separator. -/
def Isolated (A : Blob) (l : List Saved) : Prop :=
  ∀ s ∈ l, s.kind ≠ .delegate →
    A.val ++ [separator] <+: s.name ++ [separator] ++ s.rest → s.name = A.val

instance decidableIsolated (A : Blob) (l : List Saved) : Decidable (Isolated A l) :=
  inferInstanceAs (Decidable (∀ s ∈ l, _))

/-- Where a record of a kind stands. -/
def place (k : AddressKind) (s : Saved) : Option (Bytes × Bytes) :=
  if s.kind = k then some (s.name, s.rest) else none

theorem place_eq_some {k : AddressKind} {s : Saved} {q : Bytes × Bytes} (h : s.place k = some q) :
    s.kind = k ∧ q = (s.name, s.rest) := by
  unfold place at h
  split at h
  · rename_i hk
    exact ⟨hk, (Option.some.inj h).symm⟩
  · cases h

theorem key_of_place {k : AddressKind} {s : Saved} {q : Bytes × Bytes} (h : s.place k = some q) :
    s.key = scan (literalKey k.pre) separator q.1 ++ q.2 := by
  obtain ⟨rfl, rfl⟩ := place_eq_some h
  rfl

theorem not_prefix_of_place {k : AddressKind} {s : Saved} (h : s.place k = none) :
    ¬literalKey k.pre <+: s.key := by
  have hne : s.kind ≠ k := by
    intro he
    unfold place at h
    rw [if_pos he] at h
    cases h
  refine Apart.not_prefix (AddressKind.apart hne) ?_
  unfold key
  exact prefix_scan.trans (List.prefix_append _ _)

theorem scan_prefix_key {k : AddressKind} {A : Bytes} {s : Saved} (hk : s.kind = k) :
    scan (literalKey k.pre) separator A <+: s.key ↔
      A ++ [separator] <+: s.name ++ [separator] ++ s.rest := by
  subst hk
  unfold key scan
  simp only [List.append_assoc]
  exact List.prefix_append_right_inj _

/-- **A scan of an address** returns the records saved for it exactly when it meets no other key. -/
theorem scan_iff {V : Type} {k : AddressKind} {read : Blob → Except Err V} {A : Blob}
    {select : Saved → Option (Bytes × V)} {l : List Saved} {db : LevelDb} (h : SavedIn l db)
    (hselect : ∀ s ∈ l, ((s.place k).filter (fun q => q.1 = A.val)).map
        (fun q => (q.2, read s.value)) = (select s).map (fun e => (e.1, .ok e.2))) :
    (db.under (scan (literalKey k.pre) separator A.val)).mapM (fun e => read e.2) =
        .ok (values select l) ↔
      ∀ s ∈ l, s.kind = k → A.val ++ [separator] <+: s.name ++ [separator] ++ s.rest →
        s.name = A.val := by
  obtain ⟨-, rfl⟩ := h.holds
  have hplace : ∀ s ∈ l, ∀ q, s.place k = some q →
      s.key = scan (literalKey k.pre) separator q.1 ++ q.2 := fun s _ q hq => key_of_place hq
  -- what was saved for the address, as it is and as it is read
  have hown : (ofList (own (place k) value A.val l)).mapValues read =
      (ofList (l.filterMap select)).mapValues .ok := by
    rw [mapValues_ofList, mapValues_ofList]
    congr 1
    unfold own
    rw [List.map_filterMap, List.map_filterMap]
    refine List.filterMap_congr (fun s hs => ?_)
    rw [← hselect s hs, Option.map_map]
    rfl
  have hentries : (ofList (own (place k) value A.val l)).entries.map (fun e => read e.2) =
      (values select l).map .ok := by
    have hsnd := congrArg (fun m => m.entries.map Prod.snd) hown
    simp only [mapValues, List.map_map] at hsnd
    unfold values
    rw [List.map_map]
    exact hsnd
  constructor
  -- A record of another address would make the answer longer than it is.
  · intro hfound s hs hkind hstart
    by_contra hne
    have hlt := @length_own_lt _ _ _ _ _ _ _ _ _ value _ _ hplace
      (fun s _ q hq => by
        obtain ⟨hk, rfl⟩ := place_eq_some hq
        exact hk ▸ s.length_rest) _ hs _ (show s.place k = some (s.name, s.rest) from if_pos hkind)
      ((scan_prefix_key hkind).mpr hstart) hne
    have hlen := (forall₂_of_mapM hfound).length_eq
    have hlen' := congrArg List.length hentries
    rw [List.length_map, List.length_map] at hlen'
    omega
  -- Without one, what the prefix finds is what was saved for the address.
  · intro hapart
    have hstrip := @strip_eq_own _ _ _ _ _ _ _ _ _ value _ hplace
      (fun s _ hs => not_prefix_of_place hs) (fun s hs q hq hstart => by
        obtain ⟨hk, rfl⟩ := place_eq_some hq
        exact hapart s hs hk ((scan_prefix_key hk).mp hstart))
    rw [under_ofList, hstrip, List.mapM_map]
    exact mapM_eq_ok_iff.mpr hentries

/-- A record that reads back as its value is selected as that. -/
theorem select_some {V : Type} {read : Blob → Except Err V} {A : Blob} {s : Saved}
    {address : Blob} {v : V} (hname : s.name = address.val) (hread : read s.value = .ok v) :
    ((s.place s.kind).filter (fun q => q.1 = A.val)).map (fun q => (q.2, read s.value)) =
      ((if address = A then some (s.rest, v) else none : Option (Bytes × V))).map
        (fun e => (e.1, .ok e.2)) := by
  have hplace : s.place s.kind = some (s.name, s.rest) := if_pos rfl
  rw [hplace, hread]
  by_cases hA : address = A
  · subst hA
    rw [if_pos rfl, Option.filter_some_pos (by simpa using hname)]
    rfl
  · have hne : s.name ≠ A.val := fun h => hA (Subtype.ext (hname.symm.trans h))
    rw [if_neg hA, Option.filter_some_neg (by simpa using hne)]
    rfl

/-- A record of another kind is not selected. -/
theorem select_none {V : Type} {k : AddressKind} {read : Blob → Except Err V} {A : Blob}
    {s : Saved} (hkind : s.kind ≠ k) :
    ((s.place k).filter (fun q => q.1 = A.val)).map (fun q => (q.2, read s.value)) =
      (none : Option (Bytes × V)).map (fun e => (e.1, .ok e.2)) := by
  have hplace : s.place k = none := if_neg hkind
  rw [hplace]
  rfl

end Saved

namespace LevelDb

/-- The bounds of a lookup take in what stands under the address. -/
theorem takeWhile_seek_address (db : LevelDb) (keyPrefix : Bytes) :
    (db.seek (keyPrefix ++ ascii [ADDRESS_POSTFIX])).takeWhile
        (fun e => e.1 < keyPrefix ++ ascii ['"']) = db.under (keyPrefix ++ [Saved.separator]) := by
  refine OrdMap.takeWhile_seek_range (by decide) ?_
  intro c hle hlt
  rw [UInt8.le_iff_toNat_le] at hle
  rw [UInt8.lt_iff_toNat_lt] at hlt
  refine UInt8.toNat_inj.mp ?_
  have h1 : (33 : Nat) ≤ c.toNat := hle
  have h2 : c.toNat < 34 := hlt
  show c.toNat = 33
  omega

/-- A lookup of an address is a scan of it. -/
theorem scan_address {α : Type} {p : String} (hp : p.isEmpty = false) {A : Blob} (hA : A ≠ ∅)
    (db : LevelDb) (read : Blob → Except Err α) :
    (do
      let keyPrefix ← makeKey [.lit p, .str A]
      db.findKeyInternal (keyPrefix ++ ascii [ADDRESS_POSTFIX]) (keyPrefix ++ ascii ['"'])
        0 0 (fun e => read e.2)) =
      (db.under (scan (literalKey p) Saved.separator A.val)).mapM (fun e => read e.2) := by
  rw [(makeKey_name hp).mpr ⟨hA, rfl⟩]
  show collect _ _ _ _ _ _ = _
  rw [collect_mapM, takeWhile_seek_address]
  rfl

/-! ## Pages -/

/-- The part of a list that a lookup with `from` and `count` is about. -/
def page {α : Type} (fromIndex count : Nat) (l : List α) : List α :=
  if count = 0 then l.drop fromIndex else (l.drop fromIndex).take count

theorem map_page {α β : Type} (f : α → β) (l : List α) (fromIndex count : Nat) :
    (page fromIndex count l).map f = page fromIndex count (l.map f) := by
  unfold page
  split
  · exact List.map_drop
  · rw [List.map_take, List.map_drop]

/-- Page after page gives the list from its start. -/
theorem flatten_pages {α : Type} (l : List α) {c : Nat} (hc : c ≠ 0) :
    ∀ k, ((List.range k).map (fun i => page (i * c) c l)).flatten = l.take (k * c)
  | 0 => by rw [Nat.zero_mul]; rfl
  | k + 1 => by
      rw [List.range_succ, List.map_append, List.flatten_append, flatten_pages l hc k]
      show l.take (k * c) ++ (page (k * c) c l ++ []) = _
      rw [page, if_neg hc, List.append_nil, Nat.succ_mul, List.take_add]

/-- **A scan with a page** makes it of what is below its end, while the numbers do not overflow. -/
theorem collect_page {α : Type} {func : Bytes × Blob → Except Err α} {keyTo : Bytes}
    {fromIndex count : UInt64} (hsum : count ≠ 0 → fromIndex.toNat + count.toNat < 2 ^ 64) :
    ∀ {es : List (Bytes × Blob)} {index : UInt64},
      index.toNat + (es.takeWhile (fun e => e.1 < keyTo)).length < 2 ^ 64 →
      collect keyTo fromIndex count func index es =
        ((if count = 0 then es.takeWhile (fun e => e.1 < keyTo)
          else (es.takeWhile (fun e => e.1 < keyTo)).take
            (fromIndex.toNat + count.toNat - index.toNat)).drop
              (fromIndex.toNat - index.toNat)).mapM func
  | [], index, _ => by
      unfold collect
      split <;> simp [Pure.pure, Except.pure]
  | e :: es, index, hlen => by
      unfold collect
      by_cases h : keyTo ≤ e.1
      · rw [if_pos h, List.takeWhile_cons_of_neg (by simpa using h)]
        split <;> simp [Pure.pure, Except.pure]
      · rw [List.takeWhile_cons_of_pos (by simpa using h)] at hlen ⊢
        rw [if_neg h]
        rw [List.length_cons] at hlen
        have hnext : (index + 1).toNat = index.toNat + 1 := by
          rw [UInt64.toNat_add]
          exact Nat.mod_eq_of_lt (by show index.toNat + 1 < 2 ^ 64; omega)
        have ih : collect keyTo fromIndex count func (index + 1) es = _ :=
          collect_page hsum (by rw [hnext]; omega)
        -- The page is over, or the entry stands in front of it, or in it.
        by_cases hend : count ≠ 0 ∧ fromIndex + count ≤ index
        · have hadd : (fromIndex + count).toNat = fromIndex.toNat + count.toNat := by
            rw [UInt64.toNat_add]
            exact Nat.mod_eq_of_lt (hsum hend.1)
          have hle := UInt64.le_iff_toNat_le.mp hend.2
          rw [if_pos hend, if_neg hend.1, show fromIndex.toNat + count.toNat - index.toNat = 0 by omega]
          simp [Pure.pure, Except.pure]
        · rw [if_neg hend]
          have hbelow : count ≠ 0 → index.toNat < fromIndex.toNat + count.toNat := by
            intro hc
            have hadd : (fromIndex + count).toNat = fromIndex.toNat + count.toNat := by
              rw [UInt64.toNat_add]
              exact Nat.mod_eq_of_lt (hsum hc)
            by_contra hge
            exact hend ⟨hc, UInt64.le_iff_toNat_le.mpr (by omega)⟩
          have htake : ∀ T : List (Bytes × Blob), (if count = 0 then e :: T
              else (e :: T).take (fromIndex.toNat + count.toNat - index.toNat)) =
              e :: (if count = 0 then T
                else T.take (fromIndex.toNat + count.toNat - (index + 1).toNat)) := by
            intro T
            by_cases hc : count = 0
            · rw [if_pos hc, if_pos hc]
            · have := hbelow hc
              rw [if_neg hc, if_neg hc, show fromIndex.toNat + count.toNat - index.toNat =
                fromIndex.toNat + count.toNat - (index + 1).toNat + 1 by omega]
              rfl
          rw [htake]
          by_cases hin : fromIndex ≤ index
          · have hle := UInt64.le_iff_toNat_le.mp hin
            rw [if_pos hin, ih, show fromIndex.toNat - index.toNat = 0 by omega,
              show fromIndex.toNat - (index + 1).toNat = 0 by omega]
            simp only [List.drop_zero, List.mapM_cons]
          · have hlt := not_le.mp (fun h => hin (UInt64.le_iff_toNat_le.mpr h))
            rw [if_neg hin, ih, show fromIndex.toNat - index.toNat =
              fromIndex.toNat - (index + 1).toNat + 1 by omega]
            rfl

/-- A lookup of an address gives a page of the scan. -/
theorem findAddressUnder_page {p : String} (hp : p.isEmpty = false) {A : Blob} (hA : A ≠ ∅)
    {db : LevelDb} {fromIndex count : UInt64}
    (hsum : count ≠ 0 → fromIndex.toNat + count.toNat < 2 ^ 64)
    (hlen : (db.under (scan (literalKey p) Saved.separator A.val)).length < 2 ^ 64) :
    db.findAddressUnder p A fromIndex count =
      (page fromIndex.toNat count.toNat (db.under (scan (literalKey p) Saved.separator A.val))).mapM
        (fun e => AddressInfo.deserialize e.2) := by
  unfold findAddressUnder
  rw [(makeKey_name hp).mpr ⟨hA, rfl⟩]
  have hpage := @collect_page _ (fun e => AddressInfo.deserialize e.2)
    (literalKey p ++ A.val ++ ascii ['"']) _ _ hsum
    (db.seek (literalKey p ++ A.val ++ ascii [ADDRESS_POSTFIX])) 0
  rw [takeWhile_seek_address] at hpage
  refine (hpage (by rw [show (0 : UInt64).toNat = 0 from rfl, Nat.zero_add]; exact hlen)).trans ?_
  unfold page
  have hzero : count = 0 ↔ count.toNat = 0 := UInt64.toNat_inj.symm
  by_cases hc : count = 0
  · rw [if_pos hc, if_pos (hzero.mp hc)]
    rfl
  · have hcount : fromIndex.toNat + count.toNat - (0 : UInt64).toNat -
        (fromIndex.toNat - (0 : UInt64).toNat) = count.toNat := by
      rw [show (0 : UInt64).toNat = 0 from rfl]
      omega
    rw [if_neg hc, if_neg (fun h => hc (hzero.mpr h)), List.drop_take, hcount]
    rfl

end LevelDb

namespace Saved

variable {l : List Saved} {db : LevelDb} {A : Blob}

theorem findAddress_iff (h : SavedIn l db) (hA : A ≠ ∅) :
    db.findAddress A 0 0 = .ok (values (forAddress A) l) ↔
      ∀ s ∈ l, s.kind = .address →
        A.val ++ [separator] <+: s.name ++ [separator] ++ s.rest → s.name = A.val := by
  rw [show db.findAddress A 0 0 = _ from
    LevelDb.scan_address (p := ADDRESS_PREFIX) rfl hA db AddressInfo.deserialize]
  refine scan_iff (k := .address) h (fun s hs => ?_)
  cases s with
  | addAddress address value counter =>
      exact select_some (s := addAddress address value counter) rfl
        (AddressInfo.deserialize_serialize (h.holds.1 _ hs))
  | addAddressToken address value counter => exact select_none (by simp [kind])
  | addAddressStatus address txHash value => exact select_none (by simp [kind])
  | addDelegateKey keyFrom keyTo value counter => exact select_none (by simp [kind])

theorem findAddressTokens_iff (h : SavedIn l db) (hA : A ≠ ∅) :
    db.findAddressTokens A 0 0 = .ok (values (forAddressToken A) l) ↔
      ∀ s ∈ l, s.kind = .addressToken →
        A.val ++ [separator] <+: s.name ++ [separator] ++ s.rest → s.name = A.val := by
  rw [show db.findAddressTokens A 0 0 = _ from
    LevelDb.scan_address (p := ADDRESS_TOKEN_PREFIX) rfl hA db AddressInfo.deserialize]
  refine scan_iff (k := .addressToken) h (fun s hs => ?_)
  cases s with
  | addAddress address value counter => exact select_none (by simp [kind])
  | addAddressToken address value counter =>
      exact select_some (s := addAddressToken address value counter) rfl
        (AddressInfo.deserialize_serialize (h.holds.1 _ hs))
  | addAddressStatus address txHash value => exact select_none (by simp [kind])
  | addDelegateKey keyFrom keyTo value counter => exact select_none (by simp [kind])

theorem findAddressStatus_iff (h : SavedIn l db) (hA : A ≠ ∅) :
    db.findAddressStatus A = .ok (values (forAddressStatus A) l) ↔
      ∀ s ∈ l, s.kind = .addressStatus →
        A.val ++ [separator] <+: s.name ++ [separator] ++ s.rest → s.name = A.val := by
  rw [show db.findAddressStatus A = _ from
    LevelDb.scan_address (p := ADDRESS_STATUS_PREFIX) rfl hA db TransactionStatus.deserialize]
  refine scan_iff (k := .addressStatus) h (fun s hs => ?_)
  cases s with
  | addAddress address value counter => exact select_none (by simp [kind])
  | addAddressToken address value counter => exact select_none (by simp [kind])
  | addAddressStatus address txHash value =>
      exact select_some (s := addAddressStatus address txHash value) rfl
        (TransactionStatus.deserialize_serialize (h.holds.1 _ hs))
  | addDelegateKey keyFrom keyTo value counter => exact select_none (by simp [kind])

/--
**The records of an address are found, and only they**, exactly when no other address
with its number or hash starts the same way.
-/
theorem find_iff_isolated (h : SavedIn l db) {address : Address}
    (hA : address.toBdString = .ok A) :
    (db.findAddress A 0 0 = .ok (values (forAddress A) l) ∧
      db.findAddressTokens A 0 0 = .ok (values (forAddressToken A) l) ∧
      db.findAddressStatus A = .ok (values (forAddressStatus A) l)) ↔ Isolated A l := by
  have hne := Address.getBinaryString_ne hA
  rw [findAddress_iff h hne, findAddressTokens_iff h hne, findAddressStatus_iff h hne]
  constructor
  · intro hall s hs hkind
    obtain ⟨haddress, htoken, hstatus⟩ := hall
    cases s with
    | addAddress address value counter => exact haddress _ hs rfl
    | addAddressToken address value counter => exact htoken _ hs rfl
    | addAddressStatus address txHash value => exact hstatus _ hs rfl
    | addDelegateKey keyFrom keyTo value counter => exact absurd rfl hkind
  · intro hall
    refine ⟨?_, ?_, ?_⟩
    · intro s hs hkind
      exact hall s hs (by rw [hkind]; simp)
    · intro s hs hkind
      exact hall s hs (by rw [hkind]; simp)
    · intro s hs hkind
      exact hall s hs (by rw [hkind]; simp)

/-- **Addresses of one length are kept apart.** -/
theorem isolated_of_length (h : ∀ s ∈ l, s.name.length = A.val.length) : Isolated A l := by
  intro s hs _ hstart
  exact (@name_of_same_length _ [] _ _ _ _ (h s hs).symm hstart).symm

/-- A token transfer in block 1, in the history of the one who gets the token. -/
def transferTo (recipient : Blob) (counter : UInt64) : Saved :=
  addAddressToken recipient
    (AddressInfo.new 0 ⟨ascii ['b', 'l', 'k'], Blob.blk_fits⟩ 1 0) counter

/-- A recipient whose address is one byte, and two whose addresses start with it, the second one
with a separator behind it. -/
def shortRecipient : Blob := Blob.replicate 1 1 Blob.byte_fits

/-- An address that begins with another. -/
def nextRecipient : Blob := ⟨[1, 5], by decide⟩

/-- An address that goes on with the byte that ends a name. -/
def longRecipient : Blob := ⟨[1, 33, 5], by decide⟩

/-- The database with these records. -/
def transfersIn (l : List Saved) : LevelDb :=
  match l.foldlM Saved.save Batch.new with
  | .ok b => addBatch b ∅
  | .error _ => ∅

/-- Transfers to two recipients whose addresses start the same way, and a transaction of one. -/
def mixedTransfers : List Saved :=
  [transferTo shortRecipient 9, transferTo nextRecipient 8,
    addAddress shortRecipient (AddressInfo.new 40 ⟨ascii ['b', 'l', 'k'], Blob.blk_fits⟩ 2 1) 7,
    transferTo shortRecipient 6]

theorem find_iff_isolated_two :
    (transfersIn mixedTransfers).findAddress shortRecipient 0 0 =
        .ok (values (forAddress shortRecipient) mixedTransfers) ∧
      (transfersIn mixedTransfers).findAddressTokens shortRecipient 0 0 =
        .ok (values (forAddressToken shortRecipient) mixedTransfers) ∧
      (transfersIn mixedTransfers).findAddressStatus shortRecipient =
        .ok (values (forAddressStatus shortRecipient) mixedTransfers) := by
  have hsaved : SavedIn ([] ++ mixedTransfers) (transfersIn mixedTransfers) :=
    SavedIn.batch SavedIn.empty rfl
  have hname : (Address.ofBlob shortRecipient).toBdString = .ok shortRecipient := rfl
  exact (find_iff_isolated hsaved hname).mpr (by decide +kernel)

/-- The history of the first address has the transfer to the second one in it. -/
theorem transfer_misfiled :
    ¬ ∀ (l : List Saved) (db : LevelDb) (address : Address) (A : Blob), SavedIn l db →
      address.toBdString = .ok A →
      (db.findAddress A 0 0 = .ok (values (forAddress A) l) ∧
        db.findAddressTokens A 0 0 = .ok (values (forAddressToken A) l) ∧
        db.findAddressStatus A = .ok (values (forAddressStatus A) l)) := by
  intro h
  have hsaved : SavedIn ([] ++ [transferTo shortRecipient 9, transferTo longRecipient 8])
      (transfersIn [transferTo shortRecipient 9, transferTo longRecipient 8]) :=
    SavedIn.batch SavedIn.empty rfl
  have hfound := (h _ _ (Address.ofBlob shortRecipient) shortRecipient hsaved rfl).2.1
  revert hfound
  decide +kernel

end Saved

end TorrentNode
