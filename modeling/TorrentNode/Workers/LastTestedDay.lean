import TorrentNode.Storage.DelegateRecords
import TorrentNode.Workers.NodeRating

/-!
# The last day with tests

The record of a day stands under the negated number of the day, so that the first record
in the database is that of the last day. The negation is modulo `2 ^ 64`, and day zero is
its own negation: its record stands in front of all others.
-/

namespace TorrentNode

open OrdMap

/-- What the records of the tested nodes stand under. -/
def testedDaysPrefix : Bytes :=
  ascii NODES_TESTED_STATS_ALL_DAY.toList ++ ascii [NODE_STAT_COUNT_POSTFIX]

theorem prefix_of_testedDays {k : Bytes} (h : testedDaysPrefix <+: k) :
    ascii NODES_TESTED_STATS_ALL_DAY.toList <+: k := (List.prefix_append _ _).trans h

theorem testedDays_prefix_key (day : UInt64) : testedDaysPrefix <+: testedNodesKey day :=
  List.prefix_append _ _

/-- The number of a negated day. -/
theorem toNat_neg_day (day : UInt64) :
    (-day).toNat = if day = 0 then 0 else 2 ^ 64 - day.toNat := by
  by_cases h : day = 0
  · rw [if_pos h, h]
    rfl
  · have hpos : day.toNat ≠ 0 := fun h0 => h (UInt64.toNat_inj.mp h0)
    have hlt := day.toNat_lt
    rw [if_neg h, UInt64.toNat_neg]
    exact Nat.mod_eq_of_lt (by show 2 ^ 64 - day.toNat < 2 ^ 64; omega)

/-- **The order of the records**: a later day stands before an earlier one, and day zero before all. -/
theorem testedNodesKey_lt {day day' : UInt64} :
    testedNodesKey day < testedNodesKey day' ↔ day' ≠ 0 ∧ (day = 0 ∨ day'.toNat < day.toNat) := by
  have hday := day.toNat_lt
  have hday' := day'.toNat_lt
  unfold testedNodesKey
  rw [List.append_lt_append_iff, serializeUInt64_lt, toNat_neg_day, toNat_neg_day]
  by_cases h' : day' = 0
  · rw [if_pos h']
    exact iff_of_false (Nat.not_lt_zero _) (fun h => h.1 h')
  · have hpos' : day'.toNat ≠ 0 := fun h0 => h' (UInt64.toNat_inj.mp h0)
    rw [if_neg h']
    by_cases h : day = 0
    · rw [if_pos h]
      exact iff_of_true (by omega) ⟨h', Or.inl h⟩
    · rw [if_neg h]
      constructor
      · exact fun hlt => ⟨h', Or.inr (by omega)⟩
      · rintro ⟨-, hzero | hlt⟩
        · exact absurd hzero h
        · omega

/-- The last day with tests is read off the first record. -/
theorem findAllTestedNodesForLastDay_eq {db : LevelDb} {k : Bytes} {v : Blob}
    {rest : List (Bytes × Blob)} (h : db.under testedDaysPrefix = (k, v) :: rest) :
    db.findAllTestedNodesForLastDay = AllTestedNodes.deserialize v := by
  have hkey : makeKey [.lit NODES_TESTED_STATS_ALL_DAY, .chr NODE_STAT_COUNT_POSTFIX] =
      .ok testedDaysPrefix := rfl
  unfold LevelDb.findAllTestedNodesForLastDay
  rw [hkey]
  show AllTestedNodes.deserialize (((db.findFirstOf testedDaysPrefix []).map Prod.snd).getD ∅) = _
  rw [LevelDb.findFirstOf_eq, h, List.find?_cons_of_pos (by simp)]
  rfl

namespace WorkerNodeTest

variable {w : WorkerNodeTest} {bi : BlockInfo} {day : UInt64} {db : LevelDb}

/-- The records are those of days with tests, each with its day. -/
def HoldsDays (db : LevelDb) (l : List (Nat × Tested)) : Prop :=
  ∀ e ∈ db.under testedDaysPrefix, ∃ n, AllTestedNodes.deserialize e.2 = .ok n ∧
    e.1 = testedNodesKey n.day ∧ ∃ t, (n.day.toNat, t) ∈ l

/-- **A block** records today, if it tested a node. -/
theorem Processed.holdsDays {before today : List (Nat × Tested)} {b : Batch}
    (hb : w.Processed db bi day before today b) (h : HoldsDays db before) :
    HoldsDays (addBatch b db) (before ++ today) := by
  obtain ⟨s, b₁, b₂, b₃, b₄, b₅, -, hc, hp⟩ := hb.run
  rintro ⟨k, v⟩ he
  obtain ⟨hunder, hfind⟩ := mem_under.mp he
  have hold : db.find? k = some v → ∃ n, AllTestedNodes.deserialize v = .ok n ∧
      k = testedNodesKey n.day ∧ ∃ t, (n.day.toNat, t) ∈ before ++ today := by
    intro hv
    obtain ⟨n, hn, hk, t, ht⟩ := h (k, v) (mem_under.mpr ⟨hunder, hv⟩)
    exact ⟨n, hn, hk, t, List.mem_append_left _ ht⟩
  rcases hp.find?_testedNodes hc rfl with ⟨-, hsame⟩ | ⟨old, value, hne, -, hvalue, hnew⟩
  · exact hold ((hsame k (prefix_of_testedDays hunder)).symm.trans hfind)
  · have hk := hnew k (prefix_of_testedDays hunder)
    by_cases hday : k = testedNodesKey day
    · rw [if_pos hday] at hk
      obtain rfl := Option.some.inj (hk.symm.trans hfind)
      -- the block tested some node, and that test is of today
      obtain ⟨e, hmem⟩ := List.exists_mem_of_ne_nil _ hne
      obtain ⟨x, hx⟩ := List.exists_mem_of_ne_nil _ ((hc.nodes e.1).mp (mem_entries.mp hmem))
      have hx := (mem_testsOf.mp hx).1
      refine ⟨_, AllTestedNodes.deserialize_serialize hvalue, hday, x.2, List.mem_append_right _ ?_⟩
      have hxday := hb.oneDay x hx
      show (day.toNat, x.2) ∈ today
      rw [← hxday]
      exact hx
    · rw [if_neg hday] at hk
      exact hold (hk.symm.trans hfind)

/-- **Every run** records days with tests only. -/
theorem Reached.holdsDays {blocks : List BlockInfo} (h : w.Reached db blocks) :
    HoldsDays db (w.datedTests 0 (eventsOf blocks)) := by
  induction h with
  | start => exact fun e he => by cases he
  | @block db db' blocks bi r hreach hround ih =>
      unfold taken
      by_cases hr : r = .written ()
      · subst hr
        obtain ⟨b, rfl, hprocessed⟩ := hreach.kept.processed hround
        rw [if_pos rfl, hreach.kept.datedTests_concat]
        exact hprocessed.holdsDays ih
      · rw [if_neg hr, List.append_nil, work_not_written hround hr]
        exact ih

/-- Each day with tests has its record. -/
theorem Reached.recorded {blocks : List BlockInfo} (h : w.Reached db blocks) {e : Nat × Tested}
    (he : e ∈ w.datedTests 0 (eventsOf blocks)) :
    (UInt64.ofNat e.1).toNat = e.1 ∧ ∃ n v, AllTestedNodes.deserialize v = .ok n ∧
      n.day = UInt64.ofNat e.1 ∧ (testedNodesKey n.day, v) ∈ db.under testedDaysPrefix ∧
      db.findAllTestedNodesForDay (UInt64.ofNat e.1) = .ok n := by
  have hsmall : (UInt64.ofNat e.1).toNat = e.1 := by
    obtain ⟨k, hash, -, hdays, hk⟩ := h.kept.recorded
    have hle := day_le_of_mem he
    unfold daysOf at hdays
    rw [UInt64.toNat_ofNat', Nat.mod_eq_of_lt (by omega)]
  refine ⟨hsmall, ?_⟩
  obtain ⟨n, hn, hnames⟩ := h.kept.holds.nodes (UInt64.ofNat e.1)
  have htested : n.nodes.find? e.2.serverAddress = some () := by
    rw [hnames, hsmall]
    have hmem : e ∈ testsOf e.2.serverAddress (testsOn e.1 (w.datedTests 0 (eventsOf blocks))) :=
      mem_testsOf.mpr ⟨List.mem_filter.mpr ⟨he, decide_eq_true rfl⟩, rfl⟩
    exact List.ne_nil_of_mem hmem
  -- The day has a node, so it has a record.
  cases hfind : db.find? (testedNodesKey (UInt64.ofNat e.1)) with
  | none =>
      -- an absent record reads as one without nodes
      have hempty : db.findAllTestedNodesForDay (UInt64.ofNat e.1) = .ok ⟨∅, 0⟩ := by
        rw [findAllTestedNodesForDay_eq]
        unfold LevelDb.findOneValueWithoutCheckValue LevelDb.findOneValueInternal
        rw [hfind]
        rfl
      obtain rfl := Except.ok.inj (hempty.symm.trans hn)
      cases htested
  | some v =>
      have hread : AllTestedNodes.deserialize v = .ok n := by
        rw [← hn, findAllTestedNodesForDay_eq]
        exact (LevelDb.findOneValue_of_find? hfind).symm
      have hunder : (testedNodesKey (UInt64.ofNat e.1), v) ∈ db.under testedDaysPrefix :=
        mem_under.mpr ⟨testedDays_prefix_key _, hfind⟩
      obtain ⟨n', hn', hkey, -⟩ := h.holdsDays _ hunder
      obtain rfl := Except.ok.inj (hread.symm.trans hn')
      have hday := testedNodesKey_inj hkey
      rw [hday] at hunder
      exact ⟨n, v, hread, hday.symm, hunder, hn⟩

/-- The query finds the record of this day. -/
def FindsDay (db : LevelDb) (day : Nat) : Prop :=
  ∃ n, db.findAllTestedNodesForLastDay = .ok n ∧ n.day = UInt64.ofNat day ∧
    db.findAllTestedNodesForDay (UInt64.ofNat day) = .ok n

/-- **The last day with tests is found exactly when day zero has none, or is the last one.** -/
theorem lastTestedDay_iff (w : WorkerNodeTest) (db : LevelDb) (blocks : List BlockInfo)
    (h : w.Reached db blocks) (last : Nat)
    (hlast : ∃ t, (last, t) ∈ w.datedTests 0 (eventsOf blocks))
    (hmax : ∀ e ∈ w.datedTests 0 (eventsOf blocks), e.1 ≤ last) :
    FindsDay db last ↔ testsOn 0 (w.datedTests 0 (eventsOf blocks)) = [] ∨ last = 0 := by
  obtain ⟨t, ht⟩ := hlast
  obtain ⟨hsmall, n, v, hn, hday, hmem, hread⟩ := h.recorded ht
  dsimp only at hsmall hday hread
  cases hunder : db.under testedDaysPrefix with
  | nil =>
      rw [hunder] at hmem
      cases hmem
  | cons e rest =>
      have hfirst := findAllTestedNodesForLastDay_eq hunder
      obtain ⟨n₀, hn₀, hkey₀, t₀, ht₀⟩ := h.holdsDays e (by rw [hunder]; exact List.mem_cons_self)
      rw [hn₀] at hfirst
      -- no record stands in front of the first one
      have hleast : ∀ x ∈ db.under testedDaysPrefix, x = e ∨ testedNodesKey n₀.day < x.1 := by
        intro x hx
        have hinc : Increasing (e :: rest) := hunder ▸ increasing_under
        rw [hunder] at hx
        rcases List.mem_cons.mp hx with rfl | hx
        · exact Or.inl rfl
        · rw [← hkey₀]
          exact Or.inr ((List.pairwise_cons.mp hinc).1 x hx)
      -- If the last day is found and is not zero, no record of day zero can stand in front of it.
      constructor
      · rintro ⟨n', hn', hday', -⟩
        obtain rfl := Except.ok.inj (hfirst.symm.trans hn')
        by_contra hnot
        obtain ⟨hzero, hpos⟩ := not_or.mp hnot
        obtain ⟨x, hx⟩ := List.exists_mem_of_ne_nil _ hzero
        obtain ⟨hx, hx0⟩ := List.mem_filter.mp hx
        have hx0 : x.1 = 0 := of_decide_eq_true hx0
        obtain ⟨-, m, u, hm, hmday, hmunder, -⟩ := h.recorded hx
        rw [hx0] at hmday
        have hne : n₀.day ≠ 0 := by
          intro h0
          rw [hday'] at h0
          have h0 := congrArg UInt64.toNat h0
          rw [hsmall] at h0
          exact hpos h0
        rcases hleast _ hmunder with heq | hlt
        · rw [← heq] at hkey₀
          rw [← testedNodesKey_inj hkey₀] at hne
          exact hne hmday
        · exact (testedNodesKey_lt.mp hlt).1 hmday
      -- Conversely, only day zero would stand in front of a later one.
      · intro hcond
        rcases hleast _ hmem with heq | hlt
        · rw [← heq] at hn₀
          obtain rfl := Except.ok.inj (hn.symm.trans hn₀)
          exact ⟨n, hfirst, hday, hread⟩
        · exfalso
          obtain ⟨hne, hzero | hlater⟩ := testedNodesKey_lt.mp hlt
          · rcases hcond with hnone | h0
            · have hmem₀ : (n₀.day.toNat, t₀) ∈ testsOn 0 (w.datedTests 0 (eventsOf blocks)) :=
                List.mem_filter.mpr ⟨ht₀, decide_eq_true (by rw [hzero]; rfl)⟩
              rw [hnone] at hmem₀
              cases hmem₀
            · rw [hday, h0] at hne
              exact hne rfl
          · have hle := hmax _ ht₀
            rw [hday, hsmall] at hlater
            dsimp only at hle
            omega

/-- What the worker leaves of blocks. -/
def testRun (blocks : List BlockInfo) : LevelDb :=
  blocks.foldl (fun db bi => ((testWorker.on db).work bi).2) ∅

/-- Tests on days one and two, and tests on days zero and one. -/
def laterTests : List BlockInfo :=
  [testBlock BLOCK_TYPE_STATE 1 [], testBlock BLOCK_TYPE_COMMON 2 [10],
    testBlock BLOCK_TYPE_STATE 3 [], testBlock BLOCK_TYPE_COMMON 4 [20]]

/-- Tests before the first state block, and tests behind it. -/
def testsFromZero : List BlockInfo :=
  [testBlock BLOCK_TYPE_COMMON 1 [10], testBlock BLOCK_TYPE_STATE 2 [],
    testBlock BLOCK_TYPE_COMMON 3 [20]]

theorem lastTestedDay_one : FindsDay (testRun laterTests) 2 := by
  have hreached := (Reached.start (w := testWorker)).next (testBlock BLOCK_TYPE_STATE 1 [])
    (by decide +kernel)
  have hreached := hreached.next (testBlock BLOCK_TYPE_COMMON 2 [10]) (by decide +kernel)
  have hreached := hreached.next (testBlock BLOCK_TYPE_STATE 3 []) (by decide +kernel)
  have hreached := hreached.next (testBlock BLOCK_TYPE_COMMON 4 [20]) (by decide +kernel)
  have htests : testWorker.datedTests 0 (eventsOf laterTests) =
      [(1, ⟨⟨[97], by decide⟩, ⟨[103], by decide⟩, 6, ⟨10, Blob.replicate 1 102 Blob.byte_fits⟩,
          true⟩),
        (2, ⟨⟨[97], by decide⟩, ⟨[103], by decide⟩, 6, ⟨20, Blob.replicate 1 102 Blob.byte_fits⟩,
          true⟩)] := by
    decide +kernel
  refine (lastTestedDay_iff testWorker _ laterTests hreached 2 ?_ ?_).mpr ?_
  · rw [htests]
    exact ⟨_, List.mem_cons_of_mem _ (List.mem_singleton.mpr rfl)⟩
  · rw [htests]
    intro e he
    rcases List.mem_cons.mp he with rfl | he
    · exact Nat.le_succ 1
    · rw [List.mem_singleton.mp he]
  · rw [htests]
    exact Or.inl rfl

/-- **Tests on day zero hide those of later days.** -/
theorem lastTestedDay_hidden :
    ¬ ∀ db blocks last, testWorker.Reached db blocks →
      (∃ t, (last, t) ∈ testWorker.datedTests 0 (eventsOf blocks)) →
      (∀ e ∈ testWorker.datedTests 0 (eventsOf blocks), e.1 ≤ last) → FindsDay db last := by
  intro h
  have hreached := (Reached.start (w := testWorker)).next (testBlock BLOCK_TYPE_COMMON 1 [10])
    (by decide +kernel)
  have hreached := hreached.next (testBlock BLOCK_TYPE_STATE 2 []) (by decide +kernel)
  have hreached := hreached.next (testBlock BLOCK_TYPE_COMMON 3 [20]) (by decide +kernel)
  have hdays : (testWorker.datedTests 0 (eventsOf testsFromZero)).map Prod.fst = [0, 1] := by
    decide +kernel
  have hfound : ((testRun testsFromZero).findAllTestedNodesForLastDay.map AllTestedNodes.day) =
      .ok 0 := by
    decide +kernel
  have hlast : ∃ t, (1, t) ∈ testWorker.datedTests 0 (eventsOf testsFromZero) := by
    have hmem : 1 ∈ (testWorker.datedTests 0 (eventsOf testsFromZero)).map Prod.fst := by
      rw [hdays]
      decide
    obtain ⟨⟨d, t⟩, he, hd⟩ := List.mem_map.mp hmem
    obtain rfl : d = 1 := hd
    exact ⟨t, he⟩
  have hmax : ∀ e ∈ testWorker.datedTests 0 (eventsOf testsFromZero), e.1 ≤ 1 := by
    intro e he
    have hmem := List.mem_map_of_mem (f := Prod.fst) he
    rw [hdays] at hmem
    rcases List.mem_cons.mp hmem with h0 | hmem
    · omega
    · rw [List.mem_singleton.mp hmem]
  obtain ⟨n, hn, hday, -⟩ := h _ testsFromZero 1 hreached hlast hmax
  have hsame : (testRun testsFromZero).findAllTestedNodesForLastDay = .ok n := hn
  rw [hsame] at hfound
  have hzero := Except.ok.inj hfound
  rw [hday] at hzero
  exact absurd hzero (by decide)

end WorkerNodeTest

end TorrentNode
