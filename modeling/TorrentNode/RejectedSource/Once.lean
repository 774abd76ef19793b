import TorrentNode.RejectedSource.Blocks

/-!
# Rejected blocks are recorded once

Two windows keep a block from being recorded again: the container, which takes in only
what it does not hold, and the last hundred of its blocks, which the worker remembers.
An old block never rises among the last hundred, so what is new there was taken in by
the same round. The container does not look for repetitions within an answer, and a
block that it dropped is as good as new.
-/

namespace TorrentNode

open Ranked

namespace NetworkRejectedBlockSource

variable {env : ParseEnv} {s : NetworkRejectedBlockSource} {answers : RejectedAnswers}
  {holders : List BlockHolder}

theorem hash_of_findHash {hash : Blob} {b : BlockHolder} (h : s.blocks.findHash hash = some b) :
    b ∈ s.blocks.list ∧ b.hash = hash := by
  unfold BlocksContainer.findHash at h
  have hfound := List.find?_some h
  exact ⟨List.mem_of_find?_eq_some h, of_decide_eq_true hfound⟩

theorem findHash_eq_none {hash : Blob} :
    s.blocks.findHash hash = none ↔ ∀ b ∈ s.blocks.list, b.hash ≠ hash := by
  unfold BlocksContainer.findHash
  rw [List.find?_eq_none]
  exact forall₂_congr (fun b _ => by rw [decide_eq_true_eq])

/-- What is put into the container was not there. -/
theorem newBlocks_missing (h : s.newBlocks env answers = .ok holders) {holder : BlockHolder}
    (hmem : holder ∈ holders) : s.blocks.findHash holder.hash = none := by
  obtain ⟨headers, -, h⟩ := bind_eq_ok.mp h
  obtain ⟨-, h⟩ := check_bind_eq_ok.mp h
  obtain ⟨dumps, -, h⟩ := bind_eq_ok.mp h
  obtain ⟨-, h⟩ := check_bind_eq_ok.mp h
  obtain ⟨parsed, hparsed, h⟩ := bind_eq_ok.mp h
  obtain rfl := Except.ok.inj h
  obtain ⟨_, hsome, rfl⟩ := List.mem_filterMap.mp hmem
  obtain ⟨⟨index, dump⟩, hin, hparse⟩ := exists_of_mapM hparsed _ hsome
  have hindex := (List.of_mem_zip hin).1
  obtain ⟨⟨header, index'⟩, hmissing, rfl⟩ := List.mem_map.mp hindex
  obtain ⟨hheader, hnone⟩ := List.mem_filter.mp hmissing
  have hat : headers[index']? = some header := List.mk_mem_zipIdx_iff_getElem?.mp hheader
  simp only [parseBlock, hat] at hparse
  by_cases hempty : dump.isEmpty = true
  · rw [if_pos hempty] at hparse
    cases hparse
  · rw [if_neg hempty] at hparse
    obtain ⟨info, -, hparse⟩ := bind_eq_ok.mp hparse
    obtain ⟨hcheck, hparse⟩ := check_bind_eq_ok.mp hparse
    obtain rfl := Option.some.inj (Except.ok.inj hparse)
    have hhash : info.header.hash = header.hash := by
      rw [Bool.and_eq_true] at hcheck
      exact beq_iff_eq.mp hcheck.1
    unfold BlockHolder.hash
    rw [hhash]
    exact Option.isNone_iff_eq_none.mp hnone

/-- The blocks that are found have the hashes that were asked for. -/
theorem getBlocks_sublist (s : NetworkRejectedBlockSource) :
    ∀ hashes : List Blob, ((s.getBlocks hashes).map RejectedBlock.hash).Sublist hashes
  | [] => List.Sublist.refl _
  | hash :: hashes => by
      have ih := getBlocks_sublist s hashes
      unfold getBlocks at ih ⊢
      cases hfind : s.blocks.findHash hash with
      | none =>
          rw [List.filterMap_cons_none (by rw [hfind]; rfl)]
          exact ih.cons _
      | some b =>
          rw [List.filterMap_cons_some (by rw [hfind]; rfl), List.map_cons]
          have hhash : b.info.header.hash = hash := (hash_of_findHash hfind).2
          rw [show RejectedBlock.hash ⟨b.info, b.number⟩ = hash from hhash]
          exact ih.cons_cons _

theorem mem_getBlocks {hash : Blob} {hashes : List Blob} {b : BlockHolder} (hmem : hash ∈ hashes)
    (hb : b ∈ s.blocks.list) (hhash : b.hash = hash) :
    hash ∈ (s.getBlocks hashes).map RejectedBlock.hash := by
  cases hfind : s.blocks.findHash hash with
  | none => exact absurd hhash (findHash_eq_none.mp hfind b hb)
  | some b' =>
      refine List.mem_map.mpr ⟨⟨b'.info, b'.number⟩, ?_, (hash_of_findHash hfind).2⟩
      exact List.mem_filterMap.mpr ⟨hash, hmem, by rw [hfind]; rfl⟩

/-- The last blocks are not those that are dropped. -/
theorem last_addNewBlocks {count : Nat} (hle : count ≤ MAXIMUM_REJECTED_BLOCKS) :
    (s.addNewBlocks holders).blocks.last count =
      (holders.foldl Ranked.insert s.blocks).last count :=
  last_bounded _ hle

theorem addNewBlocks_sublist (s : NetworkRejectedBlockSource) (holders : List BlockHolder) :
    (s.addNewBlocks holders).blocks.list.Sublist (holders.foldl Ranked.insert s.blocks).list :=
  bounded_sublist _ _

theorem mem_getLastBlocks {count : Nat} {hash : Bytes} :
    hash ∈ (s.getLastBlocks count).map (fun b => b.hash.val) ↔
      ∃ b ∈ s.blocks.last count, b.hash.val = hash := by
  unfold getLastBlocks
  constructor
  · intro h
    obtain ⟨result, hresult, hhash⟩ := List.mem_map.mp h
    obtain ⟨b, hb, rfl⟩ := List.mem_map.mp hresult
    exact ⟨b, hb, hhash⟩
  · rintro ⟨b, hb, hhash⟩
    exact List.mem_map.mpr ⟨⟨b.hash, b.number, b.timestamp⟩, List.mem_map.mpr ⟨b, hb, rfl⟩, hhash⟩

theorem perm_addAll (s : NetworkRejectedBlockSource) (holders : List BlockHolder) :
    ((holders.foldl Ranked.insert s.blocks).list.map BlockHolder.hash).Perm
      (holders.map BlockHolder.hash ++ s.blocks.list.map BlockHolder.hash) := by
  rw [← List.map_append]
  exact (perm_foldl_insert holders s.blocks).map _

end NetworkRejectedBlockSource

namespace RejectedTxsWorker

variable {env : ParseEnv} {w w' : RejectedTxsWorker} {r : Round} {recorded blocks : List RejectedBlock}

/-! ## Runs -/

/-- The rounds of the loop from its start, each of which meets `Meets`, with all the blocks whose
transactions were appended. A round that throws changes nothing and is the last. -/
inductive Run (env : ParseEnv) (Meets : List RejectedBlock → RejectedTxsWorker → Round → Prop) :
    RejectedTxsWorker → List RejectedBlock → Prop where
  | start : Run env Meets new []
  | round {w w' : RejectedTxsWorker} {r : Round} {recorded blocks : List RejectedBlock} :
      Run env Meets w recorded → Meets recorded w r → w.round env r = (.ok blocks, w') →
      Run env Meets w' (recorded ++ blocks)

/-- An answer brings no block twice, and none that was recorded is by it among the last again. -/
structure BringsOnce (env : ParseEnv) (recorded : List RejectedBlock) (w : RejectedTxsWorker)
    (r : Round) : Prop where
  distinct : ∀ holders, w.blockSource.newBlocks env r.answers = .ok holders →
    (holders.map BlockHolder.hash).Nodup
  stays_out : ∀ holders, w.blockSource.newBlocks env r.answers = .ok holders →
    ∀ holder ∈ (holders.foldl Ranked.insert w.blockSource.blocks).last 100, holder ∈ holders →
      holder.hash ∉ recorded.map RejectedBlock.hash

/-- What holds between two rounds. -/
structure Inv (w : RejectedTxsWorker) (recorded : List RejectedBlock) : Prop where
  distinct : (w.blockSource.blocks.list.map BlockHolder.hash).Nodup
  bounded : w.blockSource.blocks.list.length ≤ MAXIMUM_REJECTED_BLOCKS
  once : (recorded.map RejectedBlock.hash).Nodup
  /-- The worker remembers the last hundred. -/
  current : ∀ hash : Blob, w.currentRejectedBlocks.find? hash.val = some () ↔
    ∃ b ∈ w.blockSource.blocks.last 100, b.hash = hash

theorem inv_new : Inv new [] where
  distinct := List.nodup_nil
  bounded := Nat.zero_le _
  once := List.nodup_nil
  current := by
    intro hash
    refine iff_of_false (fun h => by cases h) ?_
    rintro ⟨b, hb, _⟩
    cases hb

/-- The hashes of the last blocks that the worker does not remember. -/
def newHashes (w : RejectedTxsWorker) (blockSource : NetworkRejectedBlockSource) : List Blob :=
  (w.filterNewBlocks (blockSource.getLastBlocks 100)).map (fun b => b.hash)

theorem mem_newHashes {blockSource : NetworkRejectedBlockSource} {hash : Blob} :
    hash ∈ w.newHashes blockSource ↔ w.currentRejectedBlocks.find? hash.val = none ∧
      ∃ b ∈ blockSource.blocks.last 100, b.hash = hash := by
  unfold newHashes filterNewBlocks NetworkRejectedBlockSource.getLastBlocks
  constructor
  · intro h
    obtain ⟨result, hresult, rfl⟩ := List.mem_map.mp h
    obtain ⟨hresult, hnone⟩ := List.mem_filter.mp hresult
    obtain ⟨b, hb, rfl⟩ := List.mem_map.mp hresult
    exact ⟨Option.isNone_iff_eq_none.mp hnone, b, hb, rfl⟩
  · rintro ⟨hnone, b, hb, hhash⟩
    subst hhash
    refine List.mem_map.mpr ⟨⟨b.hash, b.number, b.timestamp⟩, List.mem_filter.mpr ⟨?_, ?_⟩, rfl⟩
    · exact List.mem_map.mpr ⟨b, hb, rfl⟩
    · exact Option.isNone_iff_eq_none.mpr hnone

theorem newHashes_sublist (w : RejectedTxsWorker) (blockSource : NetworkRejectedBlockSource) :
    (w.newHashes blockSource).Sublist
      (blockSource.blocks.list.reverse.map BlockHolder.hash) := by
  unfold newHashes filterNewBlocks NetworkRejectedBlockSource.getLastBlocks
  refine (List.filter_sublist.map _).trans ?_
  rw [List.map_map]
  exact (List.take_sublist _ _).map BlockHolder.hash

/-- A round that does not throw. -/
theorem round_ok (h : w.round env r = (.ok blocks, w')) :
    ∃ holders, w.blockSource.newBlocks env r.answers = .ok holders ∧
      w'.blockSource = w.blockSource.addNewBlocks holders ∧
      w'.currentRejectedBlocks = OrdSet.ofList
        (((w.blockSource.addNewBlocks holders).getLastBlocks 100).map (fun b => b.hash.val)) ∧
      blocks = w'.blockSource.getBlocks (w.newHashes w'.blockSource) := by
  unfold round NetworkRejectedBlockSource.calcLastBlocks at h
  cases hnew : w.blockSource.newBlocks env r.answers with
  | error e =>
      rw [hnew] at h
      cases (Prod.mk.inj h).1
  | ok holders =>
      rw [hnew] at h
      obtain ⟨hblocks, rfl⟩ := Prod.mk.inj h
      refine ⟨holders, rfl, rfl, ?_, (Except.ok.inj hblocks).symm⟩
      obtain ⟨last, hlast⟩ : ∃ last,
          (w.blockSource.addNewBlocks holders).getLastBlocks 100 = last := ⟨_, rfl⟩
      simp only [hlast, clearOldHistory, processBlocks, List.map_map]
      rfl

/-- The hashes that a round asks for are those of new blocks among the last. -/
theorem mem_newHashes_iff (hw : Inv w recorded) {holders : List BlockHolder}
    (hnew : w.blockSource.newBlocks env r.answers = .ok holders) {hash : Blob} :
    hash ∈ w.newHashes (w.blockSource.addNewBlocks holders) ↔
      ∃ holder ∈ (holders.foldl Ranked.insert w.blockSource.blocks).last 100, holder ∈ holders ∧
        holder.hash = hash := by
  rw [mem_newHashes, NetworkRejectedBlockSource.last_addNewBlocks (by decide)]
  constructor
  · rintro ⟨hnone, b, hb, hhash⟩
    rcases mem_last_foldl_insert _ _ hb with hmem | hold
    · exact ⟨b, hb, hmem, hhash⟩
    · exfalso
      have hsome := (hw.current hash).mpr ⟨b, hold, hhash⟩
      rw [hnone] at hsome
      cases hsome
  · rintro ⟨holder, hlast, hmem, hhash⟩
    refine ⟨?_, holder, hlast, hhash⟩
    cases hcurrent : w.currentRejectedBlocks.find? hash.val with
    | none => rfl
    | some u =>
        -- a remembered block is in the container, and this one was not
        exfalso
        obtain ⟨b, hb, hb'⟩ := (hw.current hash).mp hcurrent
        have hmissing := NetworkRejectedBlockSource.newBlocks_missing hnew hmem
        rw [hhash] at hmissing
        exact NetworkRejectedBlockSource.findHash_eq_none.mp hmissing b (mem_of_mem_last hb) hb'

theorem mem_blocks_iff (h : w.round env r = (.ok blocks, w')) (hw : Inv w recorded)
    {holders : List BlockHolder} (hnew : w.blockSource.newBlocks env r.answers = .ok holders)
    {hash : Blob} :
    hash ∈ blocks.map RejectedBlock.hash ↔
      ∃ holder ∈ (holders.foldl Ranked.insert w.blockSource.blocks).last 100, holder ∈ holders ∧
        holder.hash = hash := by
  obtain ⟨holders', hnew', hsource, -, hblocks⟩ := round_ok h
  obtain rfl := Except.ok.inj (hnew.symm.trans hnew')
  rw [hblocks, hsource, ← mem_newHashes_iff hw hnew]
  constructor
  · exact fun hmem => (NetworkRejectedBlockSource.getBlocks_sublist _ _).subset hmem
  · intro hmem
    obtain ⟨-, b, hb, hhash⟩ := mem_newHashes.mp hmem
    exact NetworkRejectedBlockSource.mem_getBlocks hmem (mem_of_mem_last hb) hhash

/-! ## A round -/

/-- A block is twice in the container only if an answer brings it twice. -/
theorem nodup_addAll_iff (hw : Inv w recorded) {holders : List BlockHolder}
    (hnew : w.blockSource.newBlocks env r.answers = .ok holders) :
    ((holders.foldl Ranked.insert w.blockSource.blocks).list.map BlockHolder.hash).Nodup ↔
      (holders.map BlockHolder.hash).Nodup := by
  rw [(NetworkRejectedBlockSource.perm_addAll _ _).nodup_iff, List.nodup_append]
  constructor
  · exact fun h => h.1
  · intro h
    refine ⟨h, hw.distinct, ?_⟩
    intro hash hnewhash hash' hold heq
    obtain ⟨holder, hmem, rfl⟩ := List.mem_map.mp hnewhash
    obtain ⟨b, hb, rfl⟩ := List.mem_map.mp hold
    have hmissing := NetworkRejectedBlockSource.newBlocks_missing hnew hmem
    exact NetworkRejectedBlockSource.findHash_eq_none.mp hmissing b hb heq.symm

/-- **One round**: the container holds each block once while it grows, and no block is recorded
again, exactly if the answer brings blocks once. -/
theorem round_once_iff (hw : Inv w recorded) (h : w.round env r = (.ok blocks, w')) :
    ((∀ holders, w.blockSource.newBlocks env r.answers = .ok holders →
      ((holders.foldl Ranked.insert w.blockSource.blocks).list.map BlockHolder.hash).Nodup) ∧
        ((recorded ++ blocks).map RejectedBlock.hash).Nodup) ↔ BringsOnce env recorded w r := by
  obtain ⟨holders, hnew, hsource, -, hblocks⟩ := round_ok h
  constructor
  · rintro ⟨hcontainer, honce⟩
    rw [List.map_append, List.nodup_append] at honce
    refine ⟨fun holders' hnew' => (nodup_addAll_iff hw hnew').mp (hcontainer holders' hnew'), ?_⟩
    intro holders' hnew' holder hlast hmem hrecorded
    exact honce.2.2 _ hrecorded _ ((mem_blocks_iff h hw hnew').mpr ⟨holder, hlast, hmem, rfl⟩) rfl
  · intro hbrings
    refine ⟨fun holders' hnew' => (nodup_addAll_iff hw hnew').mpr (hbrings.distinct holders' hnew'), ?_⟩
    rw [List.map_append, List.nodup_append]
    refine ⟨hw.once, ?_, ?_⟩
    · -- the hashes that are asked for are those of different blocks
      rw [hblocks]
      refine (NetworkRejectedBlockSource.getBlocks_sublist _ _).nodup ?_
      refine (newHashes_sublist w w'.blockSource).nodup ?_
      rw [List.map_reverse, (List.reverse_perm _).nodup_iff, hsource]
      refine ((NetworkRejectedBlockSource.addNewBlocks_sublist _ _).map _).nodup ?_
      exact (nodup_addAll_iff hw hnew).mpr (hbrings.distinct _ hnew)
    · intro hash hrecorded hash' hmem heq
      obtain ⟨holder, hlast, hin, hhash⟩ := (mem_blocks_iff h hw hnew).mp hmem
      rw [← hhash] at heq
      exact hbrings.stays_out holders hnew holder hlast hin (heq ▸ hrecorded)

/-- The invariant is kept. -/
theorem Inv.round (hw : Inv w recorded) (hbrings : BringsOnce env recorded w r)
    (h : w.round env r = (.ok blocks, w')) : Inv w' (recorded ++ blocks) := by
  obtain ⟨holders, hnew, hsource, hcurrent, -⟩ := round_ok h
  refine ⟨?_, ?_, ((round_once_iff hw h).mpr hbrings).2, ?_⟩
  · rw [hsource]
    refine ((NetworkRejectedBlockSource.addNewBlocks_sublist _ _).map _).nodup ?_
    exact (nodup_addAll_iff hw hnew).mpr (hbrings.distinct _ hnew)
  · rw [hsource]
    exact length_bounded _ _
  · intro hash
    rw [hcurrent, hsource, ← OrdSet.mem_toList, OrdSet.mem_toList_ofList,
      NetworkRejectedBlockSource.mem_getLastBlocks]
    exact exists_congr (fun b => and_congr_right (fun _ => Subtype.ext_iff.symm))

/-! ## All rounds -/

theorem Run.inv (h : Run env (BringsOnce env) w recorded) : Inv w recorded := by
  induction h with
  | start => exact inv_new
  | round _ hbrings hround ih => exact ih.round hbrings hround

/-- **Rejected blocks are recorded once** in a run whose answers bring blocks once: the container
holds no block twice, and each block is recorded at most once. In such a run the next round keeps to
this only if its answer brings blocks once. There are never more than a thousand blocks. -/
theorem rejected_recorded_once (env : ParseEnv) :
    (∀ w recorded, Run env (BringsOnce env) w recorded →
      (w.blockSource.blocks.list.map BlockHolder.hash).Nodup ∧
        (recorded.map RejectedBlock.hash).Nodup) ∧
    (∀ w recorded r blocks w', Run env (BringsOnce env) w recorded →
      w.round env r = (.ok blocks, w') →
        (((∀ holders, w.blockSource.newBlocks env r.answers = .ok holders →
          ((holders.foldl Ranked.insert w.blockSource.blocks).list.map BlockHolder.hash).Nodup) ∧
            ((recorded ++ blocks).map RejectedBlock.hash).Nodup) ↔ BringsOnce env recorded w r)) ∧
    ∀ Meets w recorded, Run env Meets w recorded →
      w.blockSource.blocks.list.length ≤ MAXIMUM_REJECTED_BLOCKS := by
  refine ⟨fun w recorded h => ⟨h.inv.distinct, h.inv.once⟩,
    fun w recorded r blocks w' h hround => round_once_iff h.inv hround, ?_⟩
  intro Meets w recorded h
  cases h with
  | start => exact Nat.zero_le _
  | round _ _ hround =>
      obtain ⟨holders, -, hsource, -, -⟩ := round_ok hround
      rw [hsource]
      exact length_bounded _ _

/-- A block of this time with one rejected transaction. -/
def rejectedDump (timestamp tx : UInt8) : Blob :=
  ⟨[0x01, 0x23, 0x45, 0x67, 0x11, 0x11, 0x00, 0x33] ++ (timestamp :: List.replicate 7 0) ++
    List.replicate 34 0 ++ (33 :: (List.replicate 32 tx ++ [9])) ++ [0], by
      simp only [List.length_append, List.length_cons, List.length_replicate, List.length_nil]
      decide⟩

/-- A block with one rejected transaction. -/
def firstDump : Blob := rejectedDump 5 7

/-- A later one. -/
def laterDump : Blob := rejectedDump 6 8

/-- Their hashes. -/
def firstHash : Blob :=
  ⟨[118, 225, 159, 66, 44, 254, 123, 231, 65, 86, 90, 5, 28, 200, 61, 223,
    203, 18, 139, 146, 239, 205, 199, 148, 213, 71, 82, 53, 251, 179, 174, 247], by decide +kernel⟩

/-- Its hash. -/
def laterHash : Blob :=
  ⟨[138, 44, 241, 26, 244, 165, 32, 45, 208, 17, 107, 18, 69, 55, 56, 210,
    138, 238, 53, 69, 222, 217, 115, 81, 210, 134, 193, 137, 202, 38, 192, 26], by decide +kernel⟩

/-- A parser that hashes these two. -/
def rejectedEnv : ParseEnv where
  get_double_sha256 dump := if dump = laterDump.val then laterHash else firstHash
  get_address_bin pubkey := .ok pubkey
  crypto_check_sign_data _ _ _ := .ok true
  Parse _ := none
  fromHex _ := .ok ∅
  moduleV8 := false
  uninitialized _ := 0

/-- A round in which a server names the first block for each of some numbers, and then the later
one. -/
def rejectedRound (numbers laterNumbers : List UInt64) : Round where
  answers :=
    { getLastRejectedBlocks := .ok (numbers.map (fun n => ⟨firstHash, n, 5⟩) ++
        laterNumbers.map (fun n => ⟨laterHash, n, 6⟩))
      getRejectedBlocksDumps := fun hashes =>
        .ok (hashes.map (fun hash => if hash = laterHash then laterDump else firstDump)) }
  processed := 0
  cleared := 0

/-- What the answer of a round brings to a worker. -/
def brought (w : RejectedTxsWorker) (r : Round) : List BlockHolder :=
  (w.blockSource.newBlocks rejectedEnv r.answers).toOption.getD []

/-- The blocks that the round records. -/
def recordedBy (w : RejectedTxsWorker) (r : Round) : List RejectedBlock :=
  (w.round rejectedEnv r).1.toOption.getD []

/-- The worker behind it. -/
def behind (w : RejectedTxsWorker) (r : Round) : RejectedTxsWorker := (w.round rejectedEnv r).2

/-- The worker that has got the first block. -/
def behindFirst : RejectedTxsWorker := behind new (rejectedRound [1] [])

theorem round_first : new.round rejectedEnv (rejectedRound [1] []) =
    (.ok (recordedBy new (rejectedRound [1] [])), behindFirst) :=
  Prod.ext (by decide +kernel) rfl

theorem bringsOnce_first : BringsOnce rejectedEnv [] new (rejectedRound [1] []) where
  distinct := by
    intro holders hnew
    have hbrought : new.blockSource.newBlocks rejectedEnv (rejectedRound [1] []).answers =
      .ok (brought new (rejectedRound [1] [])) := by decide +kernel
    obtain rfl := Except.ok.inj (hnew.symm.trans hbrought)
    decide +kernel
  stays_out := fun _ _ _ _ _ hrecorded => List.not_mem_nil hrecorded

theorem round_later : behindFirst.round rejectedEnv (rejectedRound [1] [2]) =
    (.ok (recordedBy behindFirst (rejectedRound [1] [2])),
      behind behindFirst (rejectedRound [1] [2])) :=
  Prod.ext (by decide +kernel) rfl

/-- The first block is named again, and the container keeps it from being brought. -/
theorem bringsOnce_later : BringsOnce rejectedEnv ([] ++ recordedBy new (rejectedRound [1] []))
    behindFirst (rejectedRound [1] [2]) := by
  have hbrought : behindFirst.blockSource.newBlocks rejectedEnv (rejectedRound [1] [2]).answers =
    .ok (brought behindFirst (rejectedRound [1] [2])) := by decide +kernel
  refine ⟨?_, ?_⟩
  · intro holders hnew
    obtain rfl := Except.ok.inj (hnew.symm.trans hbrought)
    decide +kernel
  · intro holders hnew
    obtain rfl := Except.ok.inj (hnew.symm.trans hbrought)
    decide +kernel

theorem rejected_recorded_once_two :
    ((behind behindFirst (rejectedRound [1] [2])).blockSource.blocks.list.map BlockHolder.hash =
        [firstHash, laterHash] ∧
      ([] ++ recordedBy new (rejectedRound [1] []) ++
        recordedBy behindFirst (rejectedRound [1] [2])).map RejectedBlock.hash =
          [firstHash, laterHash]) ∧
    (((behind behindFirst (rejectedRound [1] [2])).blockSource.blocks.list.map
        BlockHolder.hash).Nodup ∧
      (([] ++ recordedBy new (rejectedRound [1] []) ++
        recordedBy behindFirst (rejectedRound [1] [2])).map RejectedBlock.hash).Nodup) ∧
    (behind behindFirst (rejectedRound [1] [2])).blockSource.blocks.list.length ≤
      MAXIMUM_REJECTED_BLOCKS := by
  have hrun := Run.round (Run.round Run.start bringsOnce_first round_first) bringsOnce_later
    round_later
  refine ⟨by decide +kernel, (rejected_recorded_once rejectedEnv).1 _ _ hrun, ?_⟩
  exact (rejected_recorded_once rejectedEnv).2.2 _ _ _ hrun

/-- A server that names a block twice has it recorded twice. -/
theorem repeated_recorded_twice :
    ¬∀ (env : ParseEnv) w recorded, Run env (fun _ _ _ => True) w recorded →
      (w.blockSource.blocks.list.map BlockHolder.hash).Nodup ∧
        w.blockSource.blocks.list.length ≤ MAXIMUM_REJECTED_BLOCKS ∧
        (recorded.map RejectedBlock.hash).Nodup := by
  intro h
  have hround : new.round rejectedEnv (rejectedRound [1, 1] []) =
    (.ok (recordedBy new (rejectedRound [1, 1] [])), behind new (rejectedRound [1, 1] [])) :=
      Prod.ext (by decide +kernel) rfl
  have htwice : ([] ++ recordedBy new (rejectedRound [1, 1] [])).map RejectedBlock.hash =
      [firstHash, firstHash] := by
    decide +kernel
  have hnodup := (h _ _ _ (Run.round Run.start trivial hround)).2.2
  rw [htwice] at hnodup
  exact absurd hnodup (by decide)

end RejectedTxsWorker

end TorrentNode
