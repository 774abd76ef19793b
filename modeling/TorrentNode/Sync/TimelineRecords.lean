import Mathlib.Data.List.Induction
import TorrentNode.Storage.BlockFiles
import TorrentNode.Storage.DelegateRecords
import TorrentNode.Sync.Process

/-!
# The timeline in the database

Each element of the timeline is saved under its place, so a scan of the records
gives the elements in order, and reading them back builds the timeline anew.
-/

namespace TorrentNode

open CursorReader

/-! ## The records -/

/-- The key of the element at a place. -/
def timelineKey (i : Nat) : Bytes :=
  ascii BLOCKS_TIMELINE_PREFIX.toList ++ serializeUInt64 (UInt64.ofNat i)

namespace LevelDb

/-- A scan of the keys that begin with `p` and `c`, up to the next character. -/
theorem findKeyInternal_under {α : Type} (g : Bytes × Blob → α) {p : Bytes} {c d : UInt8}
    (hcd : c.toNat + 1 = d.toNat) (db : LevelDb) :
    db.findKeyInternal (p ++ [c]) (p ++ [d]) 0 0 (fun e => .ok (g e)) =
      .ok ((db.under (p ++ [c])).map g) := by
  unfold findKeyInternal
  rw [collect_map g]
  refine congrArg (fun l => Except.ok (List.map g l)) (OrdMap.takeWhile_seek_range ?_ ?_)
  · rw [UInt8.lt_iff_toNat_lt]; omega
  · intro x hle hlt
    rw [UInt8.le_iff_toNat_le] at hle
    rw [UInt8.lt_iff_toNat_lt] at hlt
    exact UInt8.toNat_inj.mp (by omega)

theorem findKey2_under {p : Bytes} {c d : UInt8} (hcd : c.toNat + 1 = d.toNat) (db : LevelDb) :
    db.findKey2 (p ++ [c]) (p ++ [d]) = .ok (db.under (p ++ [c])) :=
  (findKeyInternal_under id hcd db).trans (by rw [List.map_id])

/-- What `findAllBlocksTimeline` does with a record. -/
def timelineRecord (e : Bytes × Blob) : Except Err (UInt64 × Blob) := do
  check (decide (BLOCKS_TIMELINE_PREFIX.length < e.1.length)) "Incorrect data"
  check (e.1.take BLOCKS_TIMELINE_PREFIX.length == ascii BLOCKS_TIMELINE_PREFIX.toList)
    "Incorrect data"
  let keySuffix ← Blob.ofBytes (e.1.drop BLOCKS_TIMELINE_PREFIX.length)
  let keyInt ← deserializeAll deserializeUInt64 keySuffix
  pure (keyInt, e.2)

/-- `findAllBlocksTimeline()` -/
def findAllBlocksTimeline (db : LevelDb) : Except Err (List (UInt64 × Blob)) := do
  let found ← db.findKey2 (ascii "timeline_".toList) (ascii "timeline`".toList)
  let result ← found.mapM timelineRecord
  pure (result.mergeSort (fun a b => decide (a.1 ≤ b.1)))

/-- The records of these elements and no others stand in the database. -/
def HasTimeline (db : LevelDb) (raws : List Blob) : Prop :=
  db.under (ascii BLOCKS_TIMELINE_PREFIX.toList) = raws.mapIdx (fun i raw => (timelineKey i, raw))

theorem timelineRecord_key (i : Nat) (raw : Blob) :
    timelineRecord (timelineKey i, raw) = .ok (UInt64.ofNat i, raw) := by
  have hlen : (ascii BLOCKS_TIMELINE_PREFIX.toList).length = BLOCKS_TIMELINE_PREFIX.length := by decide
  have htake : (timelineKey i).take BLOCKS_TIMELINE_PREFIX.length
      = ascii BLOCKS_TIMELINE_PREFIX.toList := List.take_left' hlen
  have hdrop : (timelineKey i).drop BLOCKS_TIMELINE_PREFIX.length
      = serializeUInt64 (UInt64.ofNat i) := List.drop_left' hlen
  have hlong : BLOCKS_TIMELINE_PREFIX.length < (timelineKey i).length := by
    rw [timelineKey, List.length_append, hlen, length_serializeUInt64]
    unfold sizeofSizeT
    omega
  have hsmall : (serializeUInt64 (UInt64.ofNat i)).length < 2 ^ 63 := by
    rw [length_serializeUInt64]; decide
  have hread : deserializeAll deserializeUInt64 ⟨_, hsmall⟩ = .ok (UInt64.ofNat i) :=
    deserializeAll_of_reads (reads_uint64 _)
  rw [timelineRecord]
  simp only [hlong, decide_true, check_true, htake, hdrop, beq_self_eq_true, Blob.ofBytes,
    dif_pos hsmall, bind, Except.bind, hread]
  rfl

/-- **A scan finds the records in their order.** -/
theorem findAllBlocksTimeline_eq {db : LevelDb} {raws : List Blob} (h : db.HasTimeline raws)
    (hlen : raws.length ≤ 2 ^ 64) :
    db.findAllBlocksTimeline = .ok (raws.mapIdx (fun i raw => (UInt64.ofNat i, raw))) := by
  have hscan : db.findKey2 (ascii "timeline_".toList) (ascii "timeline`".toList)
      = .ok (raws.mapIdx (fun i raw => (timelineKey i, raw))) := by
    rw [← h]
    exact findKey2_under (p := ascii "timeline".toList) (c := 95) (d := 96) rfl db
  -- Each key gives back its number,
  have hread : (raws.mapIdx (fun i raw => (timelineKey i, raw))).mapM timelineRecord
      = .ok (raws.mapIdx (fun i raw => (UInt64.ofNat i, raw))) := by
    have hval : ∀ e ∈ raws.mapIdx (fun i raw => (timelineKey i, raw)), timelineRecord e =
        .ok (UInt64.ofNat (BigEndian.decode (e.1.drop BLOCKS_TIMELINE_PREFIX.length)), e.2) := by
      intro e he
      obtain ⟨i, hi, rfl⟩ := List.mem_mapIdx.mp he
      rw [timelineRecord_key]
      have hdrop : (timelineKey i).drop BLOCKS_TIMELINE_PREFIX.length
          = serializeUInt64 (UInt64.ofNat i) := List.drop_left' (by decide)
      rw [hdrop, serializeUInt64, serializeInt, BigEndian.decode_encode (UInt64.toNat_lt _),
        UInt64.ofNat_toNat]
    rw [mapM_eq_ok hval]
    refine congrArg Except.ok (List.ext_getElem (by simp) (fun i hi hi' => ?_))
    have hrec := hval _ (List.getElem_mem (by simpa using hi))
    rw [List.getElem_mapIdx, timelineRecord_key] at hrec
    rw [List.getElem_map, List.getElem_mapIdx, List.getElem_mapIdx]
    exact (Except.ok.inj hrec).symm
  -- and by these numbers the records are in order already.
  have hsorted : (raws.mapIdx (fun i raw => (UInt64.ofNat i, raw))).Pairwise
      (fun a b => decide (a.1 ≤ b.1) = true) := by
    rw [List.pairwise_iff_getElem]
    intro i j hi hj hij
    rw [List.length_mapIdx] at hi hj
    rw [List.getElem_mapIdx, List.getElem_mapIdx, decide_eq_true_eq, UInt64.le_iff_toNat_le,
      UInt64.toNat_ofNat', UInt64.toNat_ofNat', Nat.mod_eq_of_lt (by omega),
      Nat.mod_eq_of_lt (by omega)]
    omega
  rw [findAllBlocksTimeline, hscan]
  refine bind_eq_ok.mpr ⟨_, rfl, bind_eq_ok.mpr ⟨_, hread, ?_⟩⟩
  rw [List.mergeSort_of_pairwise hsorted]
  rfl

theorem hasTimeline_empty : HasTimeline ∅ [] := rfl

/-- What is written elsewhere leaves the records alone. -/
theorem HasTimeline.congr {db db' : LevelDb} {raws : List Blob} (h : db.HasTimeline raws)
    (hsame : ∀ k, ascii BLOCKS_TIMELINE_PREFIX.toList <+: k → db'.find? k = db.find? k) :
    db'.HasTimeline raws := by
  rw [HasTimeline, OrdMap.under_congr hsame]
  exact h

/-- **One more record**, under the next key. -/
theorem HasTimeline.insert {db : LevelDb} {raws : List Blob} (h : db.HasTimeline raws)
    (hlen : raws.length < 2 ^ 64) (raw : Blob) :
    LevelDb.HasTimeline (OrdMap.insert db (timelineKey raws.length) raw) (raws ++ [raw]) := by
  have hlast : ∀ e ∈ db.under (ascii BLOCKS_TIMELINE_PREFIX.toList), e.1 < timelineKey raws.length := by
    intro e he
    rw [h] at he
    obtain ⟨i, hi, rfl⟩ := List.mem_mapIdx.mp he
    rw [timelineKey, timelineKey, List.append_lt_append_iff, serializeUInt64, serializeUInt64,
      serializeInt, serializeInt, BigEndian.encode_lt_iff, toNat_ofNat_of_lt (by omega),
      toNat_ofNat_of_lt hlen]
    have h8 : 256 ^ sizeofSizeT = 2 ^ 64 := by decide
    rw [h8, Nat.mod_eq_of_lt (by omega), Nat.mod_eq_of_lt hlen]
    exact hi
  have hpre : ascii BLOCKS_TIMELINE_PREFIX.toList <+: timelineKey raws.length :=
    List.prefix_append _ _
  rw [HasTimeline, OrdMap.under_insert_last hpre hlast, h, List.mapIdx_concat]

end LevelDb

/-! ## The elements -/

namespace BlocksTimeline

theorem reads_minimumSignBlockHeader {h : MinimumSignBlockHeader} {raw : Bytes}
    (hs : h.serialize = .ok raw) : Reads MinimumSignBlockHeader.deserialize raw h := by
  unfold MinimumSignBlockHeader.serialize at hs
  obtain ⟨-, hs⟩ := check_bind_eq_ok.mp hs
  obtain ⟨-, hs⟩ := check_bind_eq_ok.mp hs
  obtain ⟨filePos, hpos, hs⟩ := bind_eq_ok.mp hs
  cases hs
  rw [List.append_assoc]
  exact (FilePosition.reads hpos).bind ((reads_string h.hash).bind (reads_string h.prevHash).map)

/-- **An element reads back.** -/
theorem Element.reads {e : Element} {raw : Bytes} (hs : e.serialize = .ok raw) :
    Reads Element.deserialize raw e := by
  cases e with
  | sign block =>
      unfold Element.serialize at hs
      obtain ⟨body, hbody, hs⟩ := bind_eq_ok.mp hs
      cases hs
      exact (reads_uint64 0).bind (reads_minimumSignBlockHeader hbody).map
  | simple hash =>
      unfold Element.serialize at hs
      obtain ⟨-, hs⟩ := check_bind_eq_ok.mp hs
      cases hs
      exact (reads_uint64 1).bind (reads_string hash).map

/-- The records `raws` are what the elements serialise to. -/
def SerializesTo (els : List Element) (raws : List Blob) : Prop :=
  List.Forall₂ (fun e raw => e.serialize = .ok raw.val) els raws

/-- **The records build the timeline anew.** -/
theorem deserialize_built : ∀ {els : List Element} {raws : List Blob} (past : List Element),
    SerializesTo els raws → ((past ++ els).map Element.hash).Nodup →
    (past ++ els).length ≤ 2 ^ 64 →
    deserialize (built past) (raws.mapIdx (fun i raw => (UInt64.ofNat (past.length + i), raw))) =
      .ok (built (past ++ els))
  | [], [], past, _, _, _ => by rw [List.append_nil]; rfl
  | e :: els, raw :: raws, past, hser, hnodup, hlen => by
      obtain ⟨hraw, hser⟩ := List.forall₂_cons.mp hser
      have hassoc : past ++ e :: els = past ++ [e] ++ els := by simp
      have hsize : (built past).size = past.length := by
        rw [List.map_append] at hnodup
        exact size_built (List.nodup_append.mp hnodup).1
      have hnum : (UInt64.ofNat (past.length + 0)).toNat = past.length := by
        rw [List.length_append, List.length_cons] at hlen
        exact toNat_ofNat_of_lt (by omega)
      have hel : deserializeAll Element.deserialize raw = .ok e :=
        deserializeAll_of_reads (Element.reads hraw)
      have ih := deserialize_built (past ++ [e]) hser (hassoc ▸ hnodup) (hassoc ▸ hlen)
      rw [List.mapIdx_cons, deserialize, hnum, hsize, beq_self_eq_true, check_true, hel, hassoc, ← ih,
        built_concat]
      show deserialize _ _ = _
      congr 2
      funext i raw
      rw [List.length_append, List.length_singleton, Nat.add_assoc, Nat.add_comm 1 i]

end BlocksTimeline

end TorrentNode
