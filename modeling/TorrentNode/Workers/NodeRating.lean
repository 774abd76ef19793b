import Mathlib.Algebra.Order.BigOperators.Group.List
import Mathlib.Algebra.Order.Floor.Semifield
import Mathlib.Data.List.ReduceOption
import Mathlib.Data.List.Sort
import Mathlib.Data.Rat.Floor
import TorrentNode.Workers.NodeTestCrash

/-!
# The rating of the nodes (`calcNodeRaiting`)

The nodes that were tested often enough on the last tested day are sorted by the average
of their results and cut into five groups. The average is that of `std::accumulate`, whose
sum is as wide as the `0` it starts with.
-/

namespace TorrentNode

/-- What `findAllTestedNodesForLastDay` puts behind the name of the records. -/
def NODE_STAT_COUNT_POSTFIX : Char := '!'

/-- The first record of tested nodes, whatever its day. -/
def LevelDb.findAllTestedNodesForLastDay (db : LevelDb) : Except Err AllTestedNodes := do
  let key ← makeKey [.lit NODES_TESTED_STATS_ALL_DAY, .chr NODE_STAT_COUNT_POSTFIX]
  AllTestedNodes.deserialize (((db.findFirstOf key []).map Prod.snd).getD ∅)

/-- `std::sort` with a comparison of keys: equal keys may come to stand in any order. -/
structure StdSort (α : Type) (key : α → UInt64) where
  sort : List α → List α
  perm : ∀ l, (sort l).Perm l
  sorted : ∀ l, (sort l).Pairwise (fun a b => key a ≤ key b)

/-- What a conversion to `int` keeps of a number. -/
def castInt (n : Int) : Int := if n % 2 ^ 32 < 2 ^ 31 then n % 2 ^ 32 else n % 2 ^ 32 - 2 ^ 32

/-- `std::accumulate(begin, end, 0)`: each sum is formed in 64 bits and kept in an `int`. -/
def accumulate (numbers : List UInt64) : Int :=
  numbers.foldl (fun sum x => castInt ((sum + x.toNat) % 2 ^ 64)) 0

/-- The `int` is widened to divide it. -/
def findAvg (numbers : List UInt64) : Except Err UInt64 := do
  check (!numbers.isEmpty) "Empty numbers"
  pure (UInt64.ofNat ((accumulate numbers % 2 ^ 64).toNat / numbers.length))

/-- A division of unsigned numbers. -/
def divide (a b : Nat) : Except Err Nat :=
  if b = 0 then .error (.std "division by zero") else .ok (a / b)

/-- The end of `calcNodeRaiting`: the group of the node at a place of the sorted ones. -/
def raitingOf (countNodes elementNumber : Nat) : Except Err Nat := do
  let countGroups := 5
  let normalGroupSize := countNodes / countGroups
  let extendenGroupSize := normalGroupSize + 1
  let countExtendedGroups := countNodes % countGroups
  let countNormalGroups := countGroups - countExtendedGroups
  let countElementsInNormalGroups := countNormalGroups * normalGroupSize
  if elementNumber < countElementsInNormalGroups then do
    let group ← divide elementNumber normalGroupSize
    pure (group + 1)
  else do
    let group ← divide (elementNumber - countElementsInNormalGroups) extendenGroupSize
    pure (group + countNormalGroups + 1)

namespace WorkerNodeTest

/-- The average of a node with enough results. -/
def nodeAvg (w : WorkerNodeTest) (day countTests : UInt64) (node : Blob) :
    Except Err (Option (Blob × UInt64)) := do
  let nodeRps ← w.leveldbNodeTest.findNodeStatRps node day
  if countTests.toNat ≤ nodeRps.rps.length then do
    let median ← findAvg nodeRps.rps
    pure (some (node, median))
  else pure none

/-- The first half of `calcNodeRaiting`: the nodes with their averages, sorted, and the day. -/
def sortedAvgs (w : WorkerNodeTest) (std : StdSort (Blob × UInt64) Prod.snd) (countTests : UInt64) :
    Except Err (List (Blob × UInt64) × UInt64) := do
  let allNodesForDay ← w.leveldbNodeTest.findAllTestedNodesForLastDay
  let avgs ← allNodesForDay.nodes.entries.mapM (fun e => w.nodeAvg allNodesForDay.day countTests e.1)
  pure (std.sort avgs.reduceOption, allNodesForDay.day)

/-- `calcNodeRaiting(address, countTests)`: the group of a node, zero if it has none, and the day.
-/
def calcNodeRaiting (w : WorkerNodeTest) (std : StdSort (Blob × UInt64) Prod.snd) (address : Blob)
    (countTests : UInt64) : Except Err (Int × UInt64) := do
  check (countTests != 0) "Incorrect countTests parameter"
  let (avgs, day) ← w.sortedAvgs std countTests
  match avgs.findIdx? (fun e => e.1 == address) with
  | none => pure (0, day)
  | some elementNumber => do
    let group ← raitingOf avgs.length elementNumber
    pure (castInt group, day)

end WorkerNodeTest

/-! ## Five groups -/

/-- The size of a group; those behind the normal ones have one more. -/
def groupSize (countNodes group : Nat) : Nat :=
  if group ≤ 5 - countNodes % 5 then countNodes / 5 else countNodes / 5 + 1

/-- The places before a group. -/
def groupStart (countNodes group : Nat) : Nat :=
  ((List.range (group - 1)).map (fun g => groupSize countNodes (g + 1))).sum

theorem groupStart_succ {n g : Nat} (hg : 1 ≤ g) :
    groupStart n (g + 1) = groupStart n g + groupSize n g := by
  obtain ⟨k, rfl⟩ : ∃ k, g = k + 1 := ⟨g - 1, by omega⟩
  unfold groupStart
  rw [Nat.add_sub_cancel, Nat.add_sub_cancel, List.range_succ, List.map_append, List.sum_append]
  rfl

/-- Up to the last normal group there are only places of normal groups. -/
theorem groupStart_normal {n : Nat} :
    ∀ {g : Nat}, g ≤ 5 - n % 5 → groupStart n (g + 1) = g * (n / 5)
  | 0, _ => by rw [Nat.zero_mul]; rfl
  | g + 1, hg => by
      have ih := groupStart_normal (n := n) (g := g) (by omega)
      rw [groupStart_succ (by omega), ih, groupSize, if_pos hg, Nat.succ_mul]

theorem groupStart_extended {n : Nat} :
    ∀ k, groupStart n (5 - n % 5 + k + 1) = (5 - n % 5) * (n / 5) + k * (n / 5 + 1)
  | 0 => by rw [Nat.add_zero, groupStart_normal (le_refl _), Nat.zero_mul, Nat.add_zero]
  | k + 1 => by
      have ih := groupStart_extended (n := n) k
      rw [groupStart_succ (by omega), ← Nat.add_assoc, ih, groupSize, if_neg (by omega),
        Nat.succ_mul, Nat.add_assoc]

/-- All the places are in groups. -/
theorem groupStart_last (n : Nat) : groupStart n 6 = n := by
  have hend := @groupStart_extended n (n % 5)
  have hmod := Nat.mod_lt n (show 0 < 5 by decide)
  have hdiv := Nat.div_add_mod n 5
  rw [show 5 - n % 5 + n % 5 + 1 = 6 by omega, Nat.mul_add, Nat.mul_one, ← Nat.add_assoc,
    ← Nat.add_mul] at hend
  rw [hend, show 5 - n % 5 + n % 5 = 5 by omega]
  exact hdiv

theorem groupStart_mono {n g h : Nat} (hg : 1 ≤ g) (hle : g ≤ h) : groupStart n g ≤ groupStart n h := by
  induction h, hle using Nat.le_induction with
  | base => exact le_refl _
  | succ h hle ih => exact le_trans ih (by rw [groupStart_succ (by omega)]; omega)

/-- **The group of a place** is the one whose places it is among. -/
theorem raitingOf_group {n p : Nat} (hp : p < n) :
    ∃ g, raitingOf n p = .ok g ∧ 1 ≤ g ∧ g ≤ 5 ∧ groupStart n g ≤ p ∧ p < groupStart n (g + 1) := by
  have hmod := Nat.mod_lt n (show 0 < 5 by decide)
  unfold raitingOf divide
  by_cases hnormal : p < (5 - n % 5) * (n / 5)
  · -- there is a place in a normal group, so that these groups are not empty
    have hsize : 0 < n / 5 := Nat.pos_of_mul_pos_left (Nat.zero_lt_of_lt hnormal)
    obtain ⟨g, hg⟩ : ∃ g, p / (n / 5) = g := ⟨_, rfl⟩
    have hgroup : g < 5 - n % 5 := hg ▸ Nat.div_lt_of_lt_mul (Nat.mul_comm _ _ ▸ hnormal)
    refine ⟨g + 1, ?_, by omega, by omega, ?_, ?_⟩
    · simp only [if_pos hnormal, if_neg (Nat.ne_of_gt hsize), hg]
      rfl
    · rw [groupStart_normal (by omega), ← hg]
      exact Nat.div_mul_le_self p (n / 5)
    · rw [groupStart_normal (by omega), ← hg, Nat.mul_comm]
      exact Nat.lt_mul_div_succ p hsize
  · obtain ⟨q, hq⟩ : ∃ q, p - (5 - n % 5) * (n / 5) = q := ⟨_, rfl⟩
    obtain ⟨g, hg⟩ : ∃ g, q / (n / 5 + 1) = g := ⟨_, rfl⟩
    have hsum := groupStart_extended (n := n) (n % 5)
    rw [show 5 - n % 5 + n % 5 + 1 = 6 by omega, groupStart_last] at hsum
    have hgroup : g < n % 5 := hg ▸ Nat.div_lt_of_lt_mul (by rw [Nat.mul_comm]; omega)
    have hle := Nat.div_mul_le_self q (n / 5 + 1)
    have hlt := Nat.lt_mul_div_succ q (Nat.succ_pos (n / 5))
    rw [Nat.succ_eq_add_one, Nat.mul_comm, hg] at hlt
    rw [hg] at hle
    refine ⟨5 - n % 5 + g + 1, ?_, by omega, by omega, ?_, ?_⟩
    · simp only [if_neg hnormal, hq, if_neg (Nat.succ_ne_zero _), hg, Nat.add_comm (5 - n % 5)]
      rfl
    · rw [groupStart_extended]
      omega
    · rw [Nat.add_assoc (5 - n % 5), groupStart_extended]
      omega

theorem raitingOf_eq_ok_iff {n p g : Nat} (hp : p < n) (hg : 1 ≤ g) :
    raitingOf n p = .ok g ↔ groupStart n g ≤ p ∧ p < groupStart n (g + 1) := by
  obtain ⟨g', hg', hpos', -, hstart', hend'⟩ := raitingOf_group hp
  rw [hg']
  constructor
  · intro h
    obtain rfl := Except.ok.inj h
    exact ⟨hstart', hend'⟩
  · rintro ⟨hstart, hend⟩
    rcases Nat.lt_trichotomy g g' with hlt | rfl | hlt
    · have := groupStart_mono (n := n) (show 1 ≤ g + 1 by omega) (show g + 1 ≤ g' from hlt)
      omega
    · rfl
    · have := groupStart_mono (n := n) (show 1 ≤ g' + 1 by omega) (show g' + 1 ≤ g from hlt)
      omega

/-- The places `0, …, n - 1` are rated from one to five, upwards, in five groups of nearly the same
size that follow each other. -/
structure RatesInGroups (n : Nat) : Prop where
  rated : ∀ p, p < n → ∃ g, raitingOf n p = .ok g ∧ 1 ≤ g ∧ g ≤ 5
  upwards : ∀ p q g h, p ≤ q → q < n → raitingOf n p = .ok g → raitingOf n q = .ok h → g ≤ h
  consecutive : ∀ p g, p < n → 1 ≤ g → g ≤ 5 →
    (raitingOf n p = .ok g ↔ groupStart n g ≤ p ∧ p < groupStart n g + groupSize n g)
  starts : groupStart n 1 = 0 ∧ groupStart n 6 = n ∧
    ∀ g, 1 ≤ g → groupStart n (g + 1) = groupStart n g + groupSize n g
  sizes : ∀ g h, 1 ≤ g → g ≤ h → h ≤ 5 →
    groupSize n g ≤ groupSize n h ∧ groupSize n h ≤ groupSize n g + 1

theorem ratesInGroups (n : Nat) : RatesInGroups n where
  rated := fun p hp => by
    obtain ⟨g, hg, hpos, hle, -, -⟩ := raitingOf_group hp
    exact ⟨g, hg, hpos, hle⟩
  upwards := fun p q g h hpq hq hg hh => by
    obtain ⟨g', hg', hpos, -, hstart, -⟩ := raitingOf_group (lt_of_le_of_lt hpq hq)
    obtain ⟨h', hh', hpos', -, -, hend⟩ := raitingOf_group hq
    obtain rfl := Except.ok.inj (hg'.symm.trans hg)
    obtain rfl := Except.ok.inj (hh'.symm.trans hh)
    by_contra hlt
    have := groupStart_mono (n := n) (show 1 ≤ h' + 1 by omega) (show h' + 1 ≤ g' by omega)
    omega
  consecutive := fun p g hp hg _ => by rw [raitingOf_eq_ok_iff hp hg, groupStart_succ hg]
  starts := ⟨rfl, groupStart_last n, fun g hg => groupStart_succ hg⟩
  sizes := fun g h hg hle hh => by
    unfold groupSize
    split <;> split <;> omega

/-! ## The place of a node -/

/-- An insertion sort is one. -/
def StdSort.insertion {α : Type} (key : α → UInt64) : StdSort α key where
  sort l := l.insertionSort (fun a b => key a ≤ key b)
  perm l := List.perm_insertionSort _ l
  sorted l := by
    have htotal : Std.Total (fun a b : α => key a ≤ key b) := ⟨fun a b => UInt64.le_total _ _⟩
    have htrans : IsTrans α (fun a b : α => key a ≤ key b) := ⟨fun _ _ _ => UInt64.le_trans⟩
    exact List.pairwise_insertionSort _ l

namespace WorkerNodeTest

variable {w : WorkerNodeTest} {std : StdSort (Blob × UInt64) Prod.snd} {countTests day : UInt64}

theorem nodeAvg_some {node : Blob} {e : Blob × UInt64}
    (h : w.nodeAvg day countTests node = .ok (some e)) :
    e.1 = node ∧ ∃ rps, w.leveldbNodeTest.findNodeStatRps node day = .ok rps ∧
      findAvg rps.rps = .ok e.2 := by
  obtain ⟨rps, hrps, h⟩ := bind_eq_ok.mp h
  by_cases hcount : countTests.toNat ≤ rps.rps.length
  · rw [if_pos hcount] at h
    obtain ⟨median, hmedian, h⟩ := bind_eq_ok.mp h
    obtain rfl := Option.some.inj (Except.ok.inj h)
    exact ⟨rfl, rps, hrps, hmedian⟩
  · rw [if_neg hcount] at h
    cases Except.ok.inj h

/-- The averages are those of some of the nodes, in their order. -/
theorem sublist_of_mapM : ∀ {nodes : List (Blob × Unit)} {avgs : List (Option (Blob × UInt64))},
    nodes.mapM (fun e => w.nodeAvg day countTests e.1) = .ok avgs →
    (avgs.reduceOption.map Prod.fst).Sublist (nodes.map Prod.fst) ∧
      ∀ e ∈ avgs.reduceOption, ∃ rps, w.leveldbNodeTest.findNodeStatRps e.1 day = .ok rps ∧
        findAvg rps.rps = .ok e.2
  | [], _, h => by
      obtain rfl := Except.ok.inj h
      exact ⟨List.Sublist.refl _, fun e he => by cases he⟩
  | node :: nodes, _, h => by
      rw [List.mapM_cons] at h
      obtain ⟨avg, havg, h⟩ := bind_eq_ok.mp h
      obtain ⟨avgs, havgs, h⟩ := bind_eq_ok.mp h
      obtain rfl := Except.ok.inj h
      obtain ⟨hsub, hall⟩ := sublist_of_mapM havgs
      cases avg with
      | none =>
          exact ⟨hsub.cons _, hall⟩
      | some e =>
          obtain ⟨hname, hrps⟩ := nodeAvg_some havg
          rw [List.reduceOption_cons_of_some, List.map_cons, List.map_cons, hname]
          refine ⟨hsub.cons_cons _, fun e' he' => ?_⟩
          rcases List.mem_cons.mp he' with rfl | he'
          · rw [hname]
            exact hrps
          · exact hall e' he'

/-- The sorted nodes: each is there once, with the average of its results. -/
theorem sortedAvgs_eq_ok {avgs : List (Blob × UInt64)}
    (h : w.sortedAvgs std countTests = .ok (avgs, day)) :
    (avgs.map Prod.fst).Nodup ∧ avgs.Pairwise (fun a b => a.2 ≤ b.2) ∧
      ∀ e ∈ avgs, ∃ rps, w.leveldbNodeTest.findNodeStatRps e.1 day = .ok rps ∧
        findAvg rps.rps = .ok e.2 := by
  obtain ⟨nodes, -, h⟩ := bind_eq_ok.mp h
  obtain ⟨found, hfound, h⟩ := bind_eq_ok.mp h
  obtain ⟨rfl, rfl⟩ := Prod.mk.inj (Except.ok.inj h)
  obtain ⟨hsub, hall⟩ := sublist_of_mapM hfound
  have hnames : (nodes.nodes.entries.map Prod.fst).Nodup :=
    List.pairwise_map.mpr (nodes.nodes.increasing.imp (fun hlt => ne_of_lt hlt))
  have hperm := std.perm found.reduceOption
  refine ⟨((hperm.map Prod.fst).nodup_iff).mpr (hnames.sublist hsub), std.sorted _, ?_⟩
  exact fun e he => hall e (hperm.mem_iff.mp he)

theorem findIdx?_of_nodup {avgs : List (Blob × UInt64)} (h : (avgs.map Prod.fst).Nodup) {p : Nat}
    (hp : p < avgs.length) : avgs.findIdx? (fun e => e.1 == avgs[p].1) = some p := by
  rw [List.findIdx?_eq_some_iff_getElem]
  refine ⟨hp, beq_self_eq_true _, fun j hj heq => ?_⟩
  have hne := List.pairwise_iff_getElem.mp (List.pairwise_map.mp h) j p (by omega) hp hj
  exact hne (beq_iff_eq.mp heq)

/-- **The rating of a node** is that of its place among the sorted ones. -/
theorem calcNodeRaiting_eq {avgs : List (Blob × UInt64)}
    (h : w.sortedAvgs std countTests = .ok (avgs, day)) (hcount : countTests ≠ 0) {p : Nat}
    (hp : p < avgs.length) :
    ∃ g, raitingOf avgs.length p = .ok g ∧
      w.calcNodeRaiting std avgs[p].1 countTests = .ok ((g : Int), day) := by
  obtain ⟨g, hg, -, hle, -, -⟩ := raitingOf_group hp
  refine ⟨g, hg, ?_⟩
  have hcast : castInt g = g := by
    unfold castInt
    omega
  unfold calcNodeRaiting
  rw [bne_iff_ne.mpr hcount, check_true, h]
  simp only [Bind.bind, Except.bind, findIdx?_of_nodup (sortedAvgs_eq_ok h).1 hp, hg, hcast]
  rfl

/-- **The rating** takes the sorted nodes in five groups, however many there are. -/
theorem raiting_groups (w : WorkerNodeTest) (std : StdSort (Blob × UInt64) Prod.snd)
    (countTests : UInt64) :
    (∀ n, RatesInGroups n) ∧
      ∀ avgs day, w.sortedAvgs std countTests = .ok (avgs, day) → countTests ≠ 0 →
        ∀ p (hp : p < avgs.length), ∃ g, raitingOf avgs.length p = .ok g ∧
          w.calcNodeRaiting std avgs[p].1 countTests = .ok ((g : Int), day) :=
  ⟨ratesInGroups, fun _ _ h hcount _ hp => calcNodeRaiting_eq h hcount hp⟩

/-- The nodes of a day with their requests per second. -/
def sixNodes : List (String × String) :=
  [("a", "30"), ("b", "10"), ("c", "50"), ("d", "20"), ("e", "60"), ("f", "40")]

/-- A worker with a parser for the texts of their tests. -/
def sixWorker : WorkerNodeTest :=
  { testWorker with
    parseJson := fun data => sixNodes.findSome? (fun node =>
      if data = testText node.1 node.2 then some (testDoc node.1 node.2) else none) }

/-- A block with a test of each. -/
def sixBlock : BlockInfo :=
  { testBlock BLOCK_TYPE_COMMON 1 [] with
    txs := sixNodes.map (fun node =>
      { testTransaction 10 with
        data := (Blob.ofBytes (testText node.1 node.2)).toOption.getD ∅ }) }

/-- Four groups have one node and the last has two. -/
theorem raiting_groups_six :
    let w := sixWorker.on (sixWorker.after [sixBlock])
    w.calcNodeRaiting (StdSort.insertion _) (Blob.replicate 1 97 Blob.byte_fits) 1 = .ok (3, 0) ∧
      w.calcNodeRaiting (StdSort.insertion _) (Blob.replicate 1 99 Blob.byte_fits) 1 =
        .ok (5, 0) := by
  intro w
  let name (b : UInt8) : Blob := Blob.replicate 1 b Blob.byte_fits
  have hsorted : w.sortedAvgs (StdSort.insertion _) 1 =
      .ok ([(name 98, 11), (name 100, 21), (name 97, 31), (name 102, 41), (name 99, 51),
        (name 101, 61)], 0) := by
    decide +kernel
  obtain ⟨-, hrating⟩ := raiting_groups w (StdSort.insertion _) 1
  obtain ⟨g, hg, hthird⟩ := hrating _ _ hsorted (by decide) 2 (by decide)
  obtain ⟨g', hg', hfifth⟩ := hrating _ _ hsorted (by decide) 4 (by decide)
  obtain rfl := Except.ok.inj ((show raitingOf 6 2 = .ok 3 by decide +kernel).symm.trans hg)
  obtain rfl := Except.ok.inj ((show raitingOf 6 4 = .ok 5 by decide +kernel).symm.trans hg')
  exact ⟨hthird, hfifth⟩

end WorkerNodeTest

/-! ## The average -/

/-- The exact sum. -/
def total (numbers : List UInt64) : Nat := (numbers.map UInt64.toNat).sum

/-- What an `int` leaves of a sum, as a number of 64 bits. -/
def kept (sum : Nat) : Nat := (castInt sum % 2 ^ 64).toNat

/-- No multiple of the length lies between the sum and what the `int` leaves of it. -/
def KeepsAvg (numbers : List UInt64) : Prop :=
  ∀ k, k * numbers.length ≤ total numbers ↔ k * numbers.length ≤ kept (total numbers)

theorem castInt_add (a b : Int) : castInt ((castInt a + b) % 2 ^ 64) = castInt (a + b) := by
  unfold castInt
  omega

/-- The `int` holds the low bits of the sum. -/
theorem accumulate_eq (numbers : List UInt64) : accumulate numbers = castInt (total numbers) := by
  have hfold : ∀ (l : List UInt64) (a : Int),
      l.foldl (fun sum x => castInt ((sum + x.toNat) % 2 ^ 64)) (castInt a) = castInt (a + total l) := by
    intro l
    induction l with
    | nil =>
        intro a
        rw [show (total [] : Int) = 0 from rfl, Int.add_zero]
        rfl
    | cons x l ih =>
        intro a
        rw [List.foldl_cons, castInt_add, ih, Int.add_assoc, ← Nat.cast_add]
        rfl
  have h := hfold numbers 0
  rwa [Int.zero_add] at h

theorem kept_lt (sum : Nat) : kept sum < 2 ^ 64 := by
  unfold kept
  omega

/-- A sum stays as it is, or loses or gains a multiple of `2 ^ 32`. -/
theorem kept_eq_or (sum : Nat) (h : sum < 2 ^ 64) :
    (kept sum = sum ↔ sum < 2 ^ 31 ∨ 2 ^ 64 - 2 ^ 31 ≤ sum) ∧
      (kept sum = sum ∨ kept sum + 2 ^ 32 ≤ sum ∨ sum + 2 ^ 32 ≤ kept sum) := by
  unfold kept castInt
  omega

theorem div_eq_div_iff_multiples {a b n : Nat} (hn : 0 < n) :
    a / n = b / n ↔ ∀ k, k * n ≤ a ↔ k * n ≤ b := by
  constructor
  · intro h k
    rw [← Nat.le_div_iff_mul_le hn, ← Nat.le_div_iff_mul_le hn, h]
  · intro h
    refine Nat.le_antisymm ?_ ?_
    · exact (Nat.le_div_iff_mul_le hn).mpr ((h _).mp (Nat.div_mul_le_self a n))
    · exact (Nat.le_div_iff_mul_le hn).mpr ((h _).mpr (Nat.div_mul_le_self b n))

theorem findAvg_eq {numbers : List UInt64} (hne : numbers ≠ []) :
    ∃ avg, findAvg numbers = .ok avg ∧ avg.toNat = kept (total numbers) / numbers.length := by
  refine ⟨UInt64.ofNat (kept (total numbers) / numbers.length), ?_, ?_⟩
  · have hfull : numbers.isEmpty = false := by
      rw [← Bool.not_eq_true, List.isEmpty_iff]
      exact hne
    unfold findAvg
    rw [hfull, accumulate_eq]
    rfl
  · rw [UInt64.toNat_ofNat', Nat.mod_eq_of_lt]
    exact lt_of_le_of_lt (Nat.div_le_self _ _) (kept_lt _)

/-- The average is a true one. -/
def AvgRight (numbers : List UInt64) : Prop :=
  ∃ avg, findAvg numbers = .ok avg ∧ avg.toNat = total numbers / numbers.length ∧
    (∃ x ∈ numbers, x ≤ avg) ∧ ∃ x ∈ numbers, avg ≤ x

/-- Some result is at most the average, and some is at least the average. -/
theorem exists_le_avg : ∀ {numbers : List UInt64} (c : Nat), numbers ≠ [] →
    (total numbers < numbers.length * c → ∃ x ∈ numbers, x.toNat < c) ∧
      (numbers.length * c ≤ total numbers → ∃ x ∈ numbers, c ≤ x.toNat) := by
  intro numbers c hne
  constructor
  -- If all were at least `c`, the total would be.
  · intro hlt
    by_contra hall
    have hle : ∀ x ∈ numbers.map UInt64.toNat, c ≤ x := by
      intro n hn
      obtain ⟨x, hx, rfl⟩ := List.mem_map.mp hn
      by_contra hc
      exact hall ⟨x, hx, by omega⟩
    have hsum := List.card_nsmul_le_sum _ c hle
    rw [List.length_map, Nat.nsmul_eq_mul] at hsum
    unfold total at hlt
    omega
  -- If all were below `c`, the total would be.
  · intro hle
    by_contra hall
    have hlt : ∀ x ∈ numbers.map UInt64.toNat, x ≤ c - 1 := by
      intro n hn
      obtain ⟨x, hx, rfl⟩ := List.mem_map.mp hn
      by_contra hc
      exact hall ⟨x, hx, by omega⟩
    have hsum := List.sum_le_card_nsmul _ (c - 1) hlt
    rw [List.length_map, Nat.nsmul_eq_mul] at hsum
    have hpos := List.length_pos_iff.mpr hne
    have hc : 1 ≤ c := by
      by_contra hzero
      obtain ⟨x, hx⟩ := List.exists_mem_of_ne_nil numbers hne
      exact hall ⟨x, hx, by omega⟩
    have hsplit : numbers.length * c = numbers.length * (c - 1) + numbers.length := by
      rw [← Nat.mul_succ, Nat.succ_eq_add_one, Nat.sub_add_cancel hc]
    unfold total at hle
    omega

/-- **`findAvg` is right** exactly for the lists whose sum the `int` keeps so far. -/
theorem avgRight_iff {numbers : List UInt64} (hne : numbers ≠ []) :
    AvgRight numbers ↔ KeepsAvg numbers := by
  have hpos := List.length_pos_iff.mpr hne
  obtain ⟨avg, havg, hval⟩ := findAvg_eq hne
  unfold KeepsAvg
  rw [← div_eq_div_iff_multiples hpos]
  constructor
  · rintro ⟨avg', havg', hright, -, -⟩
    obtain rfl := Except.ok.inj (havg'.symm.trans havg)
    rw [← hright, hval]
  · intro h
    have hright : avg.toNat = total numbers / numbers.length := by rw [hval, h]
    refine ⟨avg, havg, hright, ?_, ?_⟩
    · obtain ⟨x, hx, hlt⟩ := (exists_le_avg (avg.toNat + 1) hne).1 (by
        rw [hright]
        exact Nat.lt_mul_div_succ _ hpos)
      exact ⟨x, hx, UInt64.le_iff_toNat_le.mpr (by omega)⟩
    · obtain ⟨x, hx, hle⟩ := (exists_le_avg avg.toNat hne).2 (by
        rw [hright]
        exact Nat.mul_div_le _ _)
      exact ⟨x, hx, UInt64.le_iff_toNat_le.mpr hle⟩

/-- With no more than `2 ^ 32` results it is the size of the sum that decides. -/
theorem keepsAvg_iff {numbers : List UInt64} (hne : numbers ≠ []) (hsum : total numbers < 2 ^ 64)
    (hlength : numbers.length ≤ 2 ^ 32) :
    KeepsAvg numbers ↔ total numbers < 2 ^ 31 ∨ 2 ^ 64 - 2 ^ 31 ≤ total numbers := by
  have hpos := List.length_pos_iff.mpr hne
  obtain ⟨hkept, hfar⟩ := kept_eq_or _ hsum
  unfold KeepsAvg
  rw [← div_eq_div_iff_multiples hpos, ← hkept]
  constructor
  · intro h
    -- numbers with one quotient are closer to each other than the divisor
    have ha := Nat.lt_mul_div_succ (total numbers) hpos
    have hb := Nat.lt_mul_div_succ (kept (total numbers)) hpos
    have ha' := Nat.mul_div_le (total numbers) numbers.length
    have hb' := Nat.mul_div_le (kept (total numbers)) numbers.length
    rw [Nat.mul_succ] at ha hb
    rw [h] at ha ha'
    omega
  · intro h
    rw [h]

/-- The true average. -/
def trueAvg (numbers : List UInt64) : ℚ := (total numbers : ℚ) / numbers.length

theorem floor_trueAvg (numbers : List UInt64) :
    ⌊trueAvg numbers⌋₊ = total numbers / numbers.length := Nat.floor_div_eq_div _ _

namespace WorkerNodeTest

/-- A node never stands behind one whose true average is larger by at least one. -/
def RanksByAvg (w : WorkerNodeTest) (day : UInt64) (avgs : List (Blob × UInt64)) : Prop :=
  avgs.Pairwise (fun a b => ∀ rps rps', w.leveldbNodeTest.findNodeStatRps a.1 day = .ok rps →
    w.leveldbNodeTest.findNodeStatRps b.1 day = .ok rps' → ¬trueAvg rps'.rps + 1 ≤ trueAvg rps.rps)

theorem ranksByAvg {w : WorkerNodeTest} {std : StdSort (Blob × UInt64) Prod.snd}
    {countTests day : UInt64} {avgs : List (Blob × UInt64)}
    (h : w.sortedAvgs std countTests = .ok (avgs, day))
    (hkeeps : ∀ e ∈ avgs, ∀ rps, w.leveldbNodeTest.findNodeStatRps e.1 day = .ok rps →
      KeepsAvg rps.rps) :
    w.RanksByAvg day avgs := by
  obtain ⟨-, hsorted, hall⟩ := sortedAvgs_eq_ok h
  -- a node stands in the list with the whole part of its true average
  have hfloor : ∀ e ∈ avgs, ∀ rps, w.leveldbNodeTest.findNodeStatRps e.1 day = .ok rps →
      e.2.toNat = ⌊trueAvg rps.rps⌋₊ := by
    intro e he rps hrps
    obtain ⟨rps', hrps', havg⟩ := hall e he
    obtain rfl := Except.ok.inj (hrps'.symm.trans hrps)
    have hne : rps'.rps ≠ [] := by
      intro hnil
      rw [hnil] at havg
      cases havg
    obtain ⟨avg, havg', hright, -, -⟩ := (avgRight_iff hne).mpr (hkeeps e he rps' hrps)
    obtain rfl := Except.ok.inj (havg'.symm.trans havg)
    rw [hright, floor_trueAvg]
  refine List.Pairwise.imp_of_mem (fun {a b} ha hb hle rps rps' hrps hrps' hlarger => ?_) hsorted
  have hfloors := Nat.floor_le_floor hlarger
  have hnonneg : (0 : ℚ) ≤ trueAvg rps'.rps := by
    unfold trueAvg
    positivity
  rw [Nat.floor_add_one hnonneg, ← hfloor a ha rps hrps, ← hfloor b hb rps' hrps'] at hfloors
  have := UInt64.le_iff_toNat_le.mp hle
  omega

/-- **The averages** are right exactly where the `int` keeps the sum so far, and they rank the nodes
rightly where it does so for each of them. -/
theorem findAvg_iff (w : WorkerNodeTest) (std : StdSort (Blob × UInt64) Prod.snd)
    (countTests : UInt64) :
    (∀ numbers : List UInt64, numbers ≠ [] → total numbers < 2 ^ 64 →
      (AvgRight numbers ↔ KeepsAvg numbers) ∧
        (numbers.length ≤ 2 ^ 32 →
          (KeepsAvg numbers ↔ total numbers < 2 ^ 31 ∨ 2 ^ 64 - 2 ^ 31 ≤ total numbers))) ∧
      ∀ avgs day, w.sortedAvgs std countTests = .ok (avgs, day) →
        (∀ e ∈ avgs, ∀ rps, w.leveldbNodeTest.findNodeStatRps e.1 day = .ok rps →
          KeepsAvg rps.rps) →
        w.RanksByAvg day avgs :=
  ⟨fun _ hne hsum => ⟨avgRight_iff hne, keepsAvg_iff hne hsum⟩, fun _ _ h => ranksByAvg h⟩

/-- The average of `2 ^ 31` alone is none of the results. -/
theorem findAvg_wide : [0x80000000] ≠ ([] : List UInt64) ∧ total [0x80000000] < 2 ^ 64 ∧
    findAvg [0x80000000] = .ok 0xFFFFFFFF80000000 ∧ ¬AvgRight [0x80000000] := by
  refine ⟨by decide, by decide, by decide +kernel, ?_⟩
  rintro ⟨avg, havg, hright, -, -⟩
  obtain rfl : 0xFFFFFFFF80000000 = avg := Except.ok.inj havg
  exact absurd hright (by decide)

theorem findAvg_iff_small : AvgRight [6, 6] ∧
    (testWorker.on (testWorker.after spreadTests)).RanksByAvg 0 [(Blob.replicate 1 97 Blob.byte_fits, 6)] := by
  have hfew := ((findAvg_iff testWorker (StdSort.insertion _) 1).1 [6, 6] (by decide) (by decide)).2
    (by decide)
  refine ⟨((findAvg_iff testWorker (StdSort.insertion _) 1).1 [6, 6] (by decide) (by decide)).1.mpr
      (hfew.mpr (Or.inl (by decide))),
    (findAvg_iff (testWorker.on (testWorker.after spreadTests)) (StdSort.insertion _) 1).2 _ _
      (by decide +kernel) (fun e he rps hrps => ?_)⟩
  obtain rfl := List.mem_singleton.mp he
  have hread : (testWorker.on (testWorker.after spreadTests)).leveldbNodeTest.findNodeStatRps
      (Blob.replicate 1 97 Blob.byte_fits) 0 = .ok ⟨[6, 6]⟩ := by decide +kernel
  obtain rfl := Except.ok.inj (hread.symm.trans hrps)
  exact hfew.mpr (Or.inl (by decide))

end WorkerNodeTest

end TorrentNode
