import Mathlib.Tactic.Ring
import TorrentNode.Workers.Prefix

/-!
# Runs of the main worker

What a block keeps of a statement about the database and the numbers below the
counter holds over all runs in which the counter does not pass zero: a failed block
burns numbers, and a restart goes on below the record.
-/

namespace TorrentNode

namespace WorkerMain

open Effect

variable {w : WorkerMain} {s s' : MainState} {n : UInt64}

/-! ## Rounds -/

theorem processTransactions_append {header : BlockHeader} {c : Bool} {txs' : List TransactionInfo}
    {t u : MainState} {statuses' : List (Option TransactionStatus)}
    (h' : (w.processTransactions header n c txs').exec t = (.ok statuses', u)) :
    ∀ {txs : List TransactionInfo} {s : MainState} {statuses : List (Option TransactionStatus)},
      (w.processTransactions header n c txs).exec s = (.ok statuses, t) →
      (w.processTransactions header n c (txs ++ txs')).exec s = (.ok (statuses ++ statuses'), u)
  | [], _, _, h => by
      obtain ⟨rfl, rfl⟩ := exec_pure_ok.mp h
      exact h'
  | tx :: txs, s, _, h => by
      obtain ⟨status, v, htx, h⟩ := exec_bind_ok.mp h
      obtain ⟨rest, v', hrest, h⟩ := exec_bind_ok.mp h
      obtain ⟨rfl, rfl⟩ := exec_pure_ok.mp h
      exact exec_bind_ok.mpr ⟨status, v, htx, exec_bind_ok.mpr
        ⟨_, u, processTransactions_append h' hrest, rfl⟩⟩

/-- A block that is written has a higher number than the one before. -/
theorem worker_written {memory memory' : MainMemory} {bi : BlockInfo} {db' : LevelDb}
    {statuses : List (Option TransactionStatus)}
    (h : w.worker memory bi = (.written statuses, db', memory')) :
    ∃ record, w.leveldb.findMainBlock = .ok record ∧ record.blockNumber < bi.blockNumber := by
  unfold worker at h
  cases hn : bi.header.blockNumber with
  | none =>
      simp only [hn] at h
      cases h
  | some number =>
      have hnum : UInt64.ofNat number = bi.blockNumber := by
        unfold BlockInfo.blockNumber; rw [hn]; rfl
      simp only [hn, hnum] at h
      split at h
      · cases h
      · cases h
      · rename_i hguards
        obtain ⟨record, hrecord, hguard⟩ := bind_eq_ok.mp hguards
        exact ⟨record, hrecord, UInt64.lt_iff_toNat_lt.mpr (guards_eq_true.mp hguard).1⟩

/-- A block that passes the guards and is processed is written. -/
theorem worker_of_processBlock {memory : MainMemory} {bi : BlockInfo} (number : Nat)
    {statuses : List (Option TransactionStatus)} {s : MainState}
    (hnumber : bi.header.blockNumber = some number)
    (hguards : w.leveldb.findMainBlock.bind
      (fun oldMetadata => guards oldMetadata (UInt64.ofNat number) bi.header) = .ok true)
    (hblock : (w.processBlock bi (UInt64.ofNat number)).exec (blockStart memory) =
      (.ok statuses, s)) :
    w.worker memory bi = (.written statuses, addBatch s.batch w.leveldb,
      w.remember s.memory bi (UInt64.ofNat number)) := by
  unfold worker
  simp only [hnumber, hguards, hblock]

/-! ## Runs -/

/-- The blocks that a round takes in. -/
def taken (r : Outcome (List (Option TransactionStatus))) (bi : BlockInfo) : List BlockInfo :=
  match r with
  | .written _ => [bi]
  | _ => []

theorem taken_of_not_written {r : Outcome (List (Option TransactionStatus))} {bi : BlockInfo}
    (h : ∀ statuses, r ≠ .written statuses) : taken r bi = [] := by
  cases r with
  | written statuses => exact absurd rfl (h statuses)
  | skipped => rfl
  | failed e => rfl

/--
The databases and memories that the worker can reach from an empty database, with
the blocks it has written so far: rounds with any blocks, some of which it skips
or fails on, and restarts between them. What the counter does is up to `ok`.
-/
inductive Reached (w : WorkerMain) (ok : Int → Prop) :
    LevelDb → MainMemory → List BlockInfo → Prop where
  | start : Reached w ok ∅ (startMemory default) []
  | block {d d' : LevelDb} {m m' : MainMemory} {blocks : List BlockInfo} {bi : BlockInfo}
      {r : Outcome (List (Option TransactionStatus))} : Reached w ok d m blocks →
      (w.on d).worker m bi = (r, d', m') → ok m'.countVal →
      Reached w ok d' m' (blocks ++ taken r bi)
  | restart {d : LevelDb} {m : MainMemory} {blocks : List BlockInfo} {record : WorkerBlockInfo} :
      Reached w ok d m blocks → d.findMainBlock = .ok record →
      (blocks = [] ∨ ok (record.countVal.toNat - 1)) → Reached w ok d (startMemory record) blocks

/-- The block was worked off and written. -/
def isWritten (r : Outcome (List (Option TransactionStatus))) : Bool :=
  match r with
  | .written _ => true
  | _ => false

theorem Reached.next {w : WorkerMain} {ok : Int → Prop} {d : LevelDb} {m : MainMemory}
    {blocks : List BlockInfo} (h : Reached w ok d m blocks) (bi : BlockInfo)
    (hwritten : isWritten ((w.on d).worker m bi).1 = true)
    (hok : ok ((w.on d).worker m bi).2.2.countVal) :
    Reached w ok ((w.on d).worker m bi).2.1 ((w.on d).worker m bi).2.2 (blocks ++ [bi]) := by
  rcases hround : (w.on d).worker m bi with ⟨r, d', m'⟩
  rw [hround] at hwritten hok
  cases r with
  | written statuses => exact h.block hround hok
  | skipped => exact absurd hwritten (by simp [isWritten])
  | failed e => exact absurd hwritten (by simp [isWritten])

/-- **The blocks of a run** have ascending numbers. -/
theorem Reached.ascending {ok : Int → Prop} {d : LevelDb} {m : MainMemory}
    {blocks : List BlockInfo} (h : Reached w ok d m blocks) :
    blocks.Pairwise (fun b b' => b.blockNumber < b'.blockNumber) ∧
      ∀ record, d.findMainBlock = .ok record → ∀ bi ∈ blocks, bi.blockNumber ≤ record.blockNumber := by
  induction h with
  | start => exact ⟨List.Pairwise.nil, fun _ _ _ hbi => absurd hbi List.not_mem_nil⟩
  | @block d d' m m' blocks bi r _ hround _ ih =>
      rcases worker_cases hround with ⟨statuses, s, rfl, hexec, rfl, _⟩ | ⟨hnot, rfl, _⟩
      · obtain ⟨old, hold, hlt⟩ := worker_written hround
        have hbelow : ∀ b ∈ blocks, b.blockNumber < bi.blockNumber :=
          fun b hb => lt_of_le_of_lt (ih.2 old hold b hb) hlt
        refine ⟨List.pairwise_append.mpr ⟨ih.1, List.pairwise_singleton _ _, ?_⟩, ?_⟩
        · intro b hb b' hb'
          rw [List.mem_singleton.mp hb']
          exact hbelow b hb
        · intro record hrecord b hb
          have hsaved := findMainBlock_processBlock hexec (w.on d).leveldb
          obtain rfl := Except.ok.inj (hsaved.symm.trans hrecord)
          rcases List.mem_append.mp hb with hb | hb
          · exact (hbelow b hb).le
          · rw [List.mem_singleton.mp hb]
      · rw [taken_of_not_written hnot, List.append_nil]
        exact ih
  | restart _ _ _ ih => exact ih

theorem Reached.countVal_nonneg {d : LevelDb} {m : MainMemory} {blocks : List BlockInfo}
    (h : Reached w (fun n => 0 ≤ n) d m blocks) : 0 ≤ m.countVal := by
  cases h with
  | start => decide
  | block _ _ hcount => exact hcount
  | restart => exact Int.natCast_nonneg _

/-- What a run keeps: the statement holds below the numbers that the memory and the record have
left. -/
structure Kept (H : LevelDb → Int → List BlockInfo → Prop) (d : LevelDb) (m : MainMemory)
    (blocks : List BlockInfo) : Prop where
  holds : H d m.countVal blocks
  small : m.countVal < 2 ^ 64
  empty : blocks = [] → d = ∅
  record : ∀ record, d.findMainBlock = .ok record → blocks ≠ [] → H d record.countVal.toNat blocks

theorem countVal_startMemory {record : WorkerBlockInfo} (h : record.countVal ≠ 0) :
    (startMemory record).countVal = record.countVal.toNat - 1 := by
  have hpos : 1 ≤ record.countVal.toNat := by
    have : record.countVal.toNat ≠ 0 := fun he => h (UInt64.toNat_inj.mp he)
    omega
  show ((record.countVal - 1).toNat : Int) = _
  rw [UInt64.toNat_sub_of_le _ _ (by rw [UInt64.le_iff_toNat_le]; exact hpos)]
  show ((record.countVal.toNat - 1 : Nat) : Int) = _
  omega

section Keeping

variable {H : LevelDb → Int → List BlockInfo → Prop} {good : BlockInfo → Prop}

/-- **A round** keeps what its block keeps. -/
theorem Kept.block (hmono : ∀ {d n n' blocks}, H d n blocks → n' ≤ n → H d n' blocks)
    (hblock : ∀ {d blocks bi statuses s} {m : MainMemory}, H d m.countVal blocks →
      m.countVal < 2 ^ 64 → good bi →
      ((w.on d).processBlock bi bi.blockNumber).exec (blockStart m) = (.ok statuses, s) →
      0 ≤ s.memory.countVal → H (addBatch s.batch d) s.memory.countVal (blocks ++ [bi]))
    {d d' : LevelDb} {m m' : MainMemory} {blocks : List BlockInfo} {bi : BlockInfo}
    {r : Outcome (List (Option TransactionStatus))} (h : Kept H d m blocks)
    (hround : (w.on d).worker m bi = (r, d', m')) (hcount : 0 ≤ m'.countVal)
    (hgood : ∀ b ∈ taken r bi, good b) : Kept H d' m' (blocks ++ taken r bi) := by
  rcases worker_cases hround with ⟨statuses, s, rfl, hexec, rfl, hm⟩ | ⟨hnot, rfl, hm⟩
  · have hholds : H (addBatch s.batch d) s.memory.countVal (blocks ++ [bi]) :=
      hblock h.holds h.small (hgood bi (List.mem_singleton_self _)) hexec (by omega)
    have hdown := countsDown_processBlock hexec
    have hsmall : s.memory.countVal < 2 ^ 64 := lt_of_le_of_lt hdown h.small
    refine ⟨?_, by omega, by simp [taken], ?_⟩
    · rw [hm]
      exact hholds
    · intro record hrecord _
      have hsaved := findMainBlock_processBlock hexec (w.on d).leveldb
      obtain rfl := Except.ok.inj (hsaved.symm.trans hrecord)
      show H _ ((UInt64.ofInt s.memory.countVal).toNat : Int) _
      rw [toNat_ofInt (by omega) hsmall]
      exact hholds
  · rw [taken_of_not_written hnot, List.append_nil]
    have hsmall := h.small
    exact ⟨hmono h.holds hm, by omega, h.empty, h.record⟩

/-- **Every run** whose counter does not pass zero keeps it. -/
theorem Reached.kept (hempty : ∀ n, H ∅ n [])
    (hmono : ∀ {d n n' blocks}, H d n blocks → n' ≤ n → H d n' blocks)
    (hblock : ∀ {d blocks bi statuses s} {m : MainMemory}, H d m.countVal blocks →
      m.countVal < 2 ^ 64 → good bi →
      ((w.on d).processBlock bi bi.blockNumber).exec (blockStart m) = (.ok statuses, s) →
      0 ≤ s.memory.countVal → H (addBatch s.batch d) s.memory.countVal (blocks ++ [bi]))
    {d : LevelDb} {m : MainMemory} {blocks : List BlockInfo}
    (h : Reached w (fun n => 0 ≤ n) d m blocks) (hgood : ∀ bi ∈ blocks, good bi) :
    Kept H d m blocks := by
  induction h with
  | start => exact ⟨hempty _, by decide, fun _ => rfl, fun _ _ hne => (hne rfl).elim⟩
  | block _ hround hcount ih =>
      exact (ih (fun b hb => hgood b (List.mem_append_left _ hb))).block @hmono @hblock hround hcount
        (fun b hb => hgood b (List.mem_append_right _ hb))
  | @restart d m blocks record _ hrecord hcount ih =>
      have hold := ih hgood
      have hsmall : (startMemory record).countVal < 2 ^ 64 := by
        have := (record.countVal - 1).toNat_lt
        show ((record.countVal - 1).toNat : Int) < 2 ^ 64
        omega
      refine ⟨?_, hsmall, hold.empty, hold.record⟩
      by_cases hnil : blocks = []
      · rw [hold.empty hnil, hnil]
        exact hempty _
      · have hpos : 0 ≤ (record.countVal.toNat : Int) - 1 := hcount.resolve_left hnil
        have hne : record.countVal ≠ 0 := by
          rintro h0
          rw [h0] at hpos
          exact absurd hpos (by decide)
        rw [countVal_startMemory hne]
        exact hmono (hold.record record hrecord hnil) (by omega)

end Keeping

/-! ## Long runs

Chains of blocks that are all taken in, each of which takes so many numbers.
-/

/-- A hash made of a height. -/
def heightHash (height : Nat) : Blob :=
  ⟨serializeUInt64 (UInt64.ofNat height) ++ List.replicate 24 0, by
    rw [List.length_append, length_serializeUInt64, List.length_replicate]
    decide⟩

/-- A simple block of a chain, at this height. -/
def chainBlock (txs : List TransactionInfo) (height : Nat) : BlockInfo :=
  { header :=
      { (default : BlockHeader) with
        blockType := BLOCK_TYPE_COMMON, blockNumber := some height
        hash := heightHash height, prevHash := heightHash (height - 1) }
    txs }

/-- The record of such a chain that was taken in up to this height. -/
def StandsAt (d : LevelDb) (height : Nat) : Prop :=
  recordedIn d.findMainBlock =
    some (height, if height = 0 then none else some (heightHash height))

theorem length_heightHash (height : Nat) : (heightHash height).val.length = 32 := by
  show (serializeUInt64 (UInt64.ofNat height) ++ List.replicate 24 0).length = 32
  rw [List.length_append, length_serializeUInt64, List.length_replicate]
  rfl

theorem heightHash_isEmpty (height : Nat) : (heightHash height).isEmpty = false := by
  refine Blob.isEmpty_eq_false.mpr (fun h => ?_)
  have hlen := length_heightHash height
  rw [h] at hlen
  exact absurd hlen (by decide)

/-- A simple block, when neither balances nor blocks are kept. -/
theorem processBlock_chainBlock (hbalance : w.modules.balance = false)
    (hblock : w.modules.block = false) {d : LevelDb}
    (hnone : d.find? (literalKey COMMON_BALANCE_KEY) = none) {m : MainMemory} {n : UInt64}
    (hn : n ≠ 0) {txs : List TransactionInfo} {height : Nat} {statuses : List (Option TransactionStatus)}
    {u : MainState}
    (h : ((w.on d).processTransactions (chainBlock txs height).header n (decide (0 < n)) txs).exec
      (blockStart m) = (.ok statuses, u)) :
    ∃ s v, ((w.on d).processBlock (chainBlock txs height) n).exec (blockStart m) =
        (.ok statuses, s) ∧ s.memory.countVal = u.memory.countVal ∧
      s.batch = u.batch.addKeyInternal (literalKey MAIN_BLOCK_NUMBER_PREFIX) v false := by
  have hcommon : (w.on d).leveldb.findCommonBalance = .ok default := by
    show d.findCommonBalance = _
    unfold LevelDb.findCommonBalance LevelDb.findOneValueWithoutCheckValue
      LevelDb.findOneValueInternal
    rw [hnone]
    rfl
  have hbalances : ((w.on d).saveBalances n).exec u = (.ok (), u) := by
    unfold saveBalances
    rw [if_neg (by show ¬w.modules.balance = true; rw [hbalance]; decide)]
    rfl
  have hsums : ((w.on d).saveCommonBalance).exec u = (.ok (), u) := by
    unfold saveCommonBalance
    rw [if_neg (by show ¬w.modules.block = true; rw [hblock]; decide)]
    rfl
  -- The modules for balances and blocks are off, so their steps do nothing.
  have hcontent : ((w.on d).processContent (chainBlock txs height) n).exec (blockStart m) =
      (.ok statuses, u) :=
    exec_lift_bind_ok.mpr ⟨default, hcommon, exec_bind_ok.mpr
      ⟨(), blockStart m, rfl, exec_bind_ok.mpr ⟨statuses, u, h, exec_bind_ok.mpr ⟨(), u, rfl,
        exec_bind_ok.mpr ⟨(), u, hbalances, exec_bind_ok.mpr ⟨(), u, hsums, rfl⟩⟩⟩⟩⟩⟩
  -- The block is recorded with the counter behind it.
  have hrecord : ∃ v : Blob, (WorkerBlockInfo.mk n (heightHash height)
      (UInt64.ofInt u.memory.countVal)).serialize "MainBlockInfo" = .ok v.val := by
    unfold WorkerBlockInfo.serialize
    show ∃ v : Blob, (check (!(heightHash height).isEmpty) _ >>= fun _ => check (n != 0) _ >>= _) = _
    rw [heightHash_isEmpty, show (n != 0) = true from bne_iff_ne.mpr hn]
    refine ⟨⟨_, ?_⟩, rfl⟩
    simp only [List.length_append, length_serializeUInt64, length_serializeString]
    show 8 + (heightHash height).val.length + (8 + 8) < 2 ^ 63
    rw [length_heightHash]
    decide
  obtain ⟨v, hv⟩ := hrecord
  have hsave : (saveMainBlock (chainBlock txs height) n).exec u = (.ok (),
      { u with batch := u.batch.addKeyInternal (literalKey MAIN_BLOCK_NUMBER_PREFIX) v false }) := by
    unfold saveMainBlock onBatch
    rw [exec_read_bind]
    refine exec_tryUpdate_ok.mpr ?_
    show (u.batch.addKey _ ((WorkerBlockInfo.mk n (heightHash height)
      (UInt64.ofInt u.memory.countVal)).serialize "MainBlockInfo") false).map _ = _
    rw [Batch.addKey_of_serialized hv]
    rfl
  exact ⟨_, v, exec_bind_ok.mpr ⟨statuses, u, hcontent, exec_bind_ok.mpr ⟨(), _, hsave, rfl⟩⟩,
    rfl, rfl⟩

/-- **The next block of the chain** is taken in. -/
theorem Reached.next_chainBlock {ok : Int → Prop} {d : LevelDb} {m : MainMemory}
    {blocks : List BlockInfo} {height : Nat} {txs : List TransactionInfo}
    {statuses : List (Option TransactionStatus)} {s : MainState} (h : Reached w ok d m blocks)
    (hheight : height + 1 < 2 ^ 64) (hstands : StandsAt d height)
    (hexec : ((w.on d).processBlock (chainBlock txs (height + 1))
      (UInt64.ofNat (height + 1))).exec (blockStart m) = (.ok statuses, s))
    (hok : ok s.memory.countVal) : ∃ m',
      (w.on d).worker m (chainBlock txs (height + 1)) =
        (.written statuses, addBatch s.batch d, m') ∧
      m'.countVal = s.memory.countVal ∧
      Reached w ok (addBatch s.batch d) m'
        (blocks ++ [chainBlock txs (height + 1)]) ∧
      StandsAt (addBatch s.batch d) (height + 1) ∧
      (addBatch s.batch d).findMainBlock =
        .ok ⟨UInt64.ofNat (height + 1), heightHash (height + 1), UInt64.ofInt s.memory.countVal⟩ := by
  -- The block continues the one that is recorded, so the guards let it in.
  have hguards : (w.on d).leveldb.findMainBlock.bind (fun oldMetadata =>
      guards oldMetadata (UInt64.ofNat (height + 1))
        (chainBlock txs (height + 1)).header) = .ok true := by
    unfold StandsAt recordedIn at hstands
    obtain ⟨record, hrecord, hrecorded⟩ := Option.map_eq_some_iff.mp hstands
    have hfound : d.findMainBlock = .ok record := by
      cases hf : d.findMainBlock with
      | error e => simp [hf, Except.toOption] at hrecord
      | ok r => simpa [hf, Except.toOption] using hrecord
    show d.findMainBlock.bind _ = _
    rw [hfound]
    refine guards_eq_true.mpr ?_
    rw [hrecorded]
    refine ⟨?_, ?_⟩
    · show height < (UInt64.ofNat (height + 1)).toNat
      rw [UInt64.toNat_ofNat', Nat.mod_eq_of_lt hheight]
      exact Nat.lt_succ_self _
    · by_cases hz : height = 0
      · exact Or.inl (if_pos hz)
      · exact Or.inr (if_neg hz)
  have hround := worker_of_processBlock (w := w.on d) (height + 1) rfl hguards hexec
  have hrecord := findMainBlock_processBlock hexec d
  refine ⟨_, hround, rfl, h.block hround hok, ?_, hrecord⟩
  unfold StandsAt
  rw [recordedIn_ok hrecord]
  unfold WorkerBlockInfo.recorded
  have hnumber : (UInt64.ofNat (height + 1)).toNat = height + 1 := by
    rw [UInt64.toNat_ofNat', Nat.mod_eq_of_lt hheight]
  rw [hnumber, if_neg (Nat.succ_ne_zero _)]
  show some (height + 1, if (heightHash (height + 1)).isEmpty = true then none else _) = _
  rw [heightHash_isEmpty]
  rfl

/-- **A chain of blocks**, each of which is processed from where the one before ended and takes
so many numbers, as far as the numbers go. -/
theorem reached_chain {holds : LevelDb → Prop} {txs : Nat → List TransactionInfo} {step : Nat}
    (hempty : holds ∅)
    (hblock : ∀ d (m : MainMemory) i, i ≠ 0 → i < 2 ^ 64 → holds d → ∃ statuses s,
      ((w.on d).processBlock (chainBlock (txs i) i) (UInt64.ofNat i)).exec (blockStart m) =
        (.ok statuses, s) ∧ s.memory.countVal = m.countVal - step ∧ holds (addBatch s.batch d)) :
    ∀ k : Nat, k < 2 ^ 64 → k * step < 2 ^ 64 → ∃ d m,
      Reached w (fun n => 0 ≤ n) d m
        ((List.range k).map (fun i => chainBlock (txs (i + 1)) (i + 1))) ∧
      holds d ∧ m.countVal = 2 ^ 64 - 1 - k * step ∧ StandsAt d k ∧
      (k ≠ 0 → d.findMainBlock =
        .ok ⟨UInt64.ofNat k, heightHash k, UInt64.ofInt m.countVal⟩)
  | 0, _, _ => by
      refine ⟨∅, _, Reached.start, hempty, ?_, recordedIn_absent rfl, fun h => absurd rfl h⟩
      rw [Nat.cast_zero, zero_mul]
      decide
  | k + 1, hk, hstep => by
      have hmul : (k + 1) * step = k * step + step := Nat.succ_mul k step
      obtain ⟨d, m, hrun, hholds, hcount, hstands, _⟩ :=
        reached_chain hempty hblock k (by omega) (by omega)
      obtain ⟨statuses, s, hexec, hcount', hholds'⟩ := hblock d m (k + 1) (Nat.succ_ne_zero k) hk hholds
      have hleft : s.memory.countVal = 2 ^ 64 - 1 - (k + 1 : Nat) * step := by
        rw [hcount', hcount]
        push_cast
        ring
      have hnonneg : (0 : Int) ≤ s.memory.countVal := by
        rw [hleft]
        have : (((k + 1) * step : Nat) : Int) < 2 ^ 64 := by exact_mod_cast hstep
        push_cast at this ⊢
        omega
      obtain ⟨m', _, hm', hrun', hstands', hrecord⟩ :=
        hrun.next_chainBlock hk hstands hexec hnonneg
      refine ⟨_, m', ?_, hholds', hm'.trans hleft, hstands', fun _ => ?_⟩
      · rw [List.range_succ, List.map_append]
        exact hrun'
      · rw [hm']
        exact hrecord

/-- The chain ends where the number left is 0. -/
theorem reached_all {holds : LevelDb → Prop} {txs : Nat → List TransactionInfo} {count size : Nat}
    (hall : count * size = 2 ^ 64 - 1) (hcount : count < 2 ^ 64) (hempty : holds ∅)
    (hblock : ∀ d (m : MainMemory) i, i ≠ 0 → i < 2 ^ 64 → holds d → ∃ statuses s,
      ((w.on d).processBlock (chainBlock (txs i) i) (UInt64.ofNat i)).exec (blockStart m) =
        (.ok statuses, s) ∧ s.memory.countVal = m.countVal - size ∧ holds (addBatch s.batch d)) :
    ∃ d m, Reached w (fun n => 0 ≤ n) d m
        ((List.range count).map (fun i => chainBlock (txs (i + 1)) (i + 1))) ∧
      holds d ∧ m.countVal = 0 ∧ StandsAt d count ∧
      d.findMainBlock = .ok ⟨UInt64.ofNat count, heightHash count, 0⟩ := by
  obtain ⟨d, m, hrun, hholds, hm, hstands, hrecord⟩ :=
    reached_chain hempty hblock count hcount (by omega)
  have hzero : m.countVal = 0 := by
    rw [hm]
    have : ((count * size : Nat) : Int) = 2 ^ 64 - 1 := by rw [hall]; decide
    push_cast at this
    omega
  refine ⟨d, m, hrun, hholds, hzero, hstands, ?_⟩
  have hne : count ≠ 0 := by
    rintro rfl
    rw [Nat.zero_mul] at hall
    exact absurd hall (by decide)
  rw [hrecord hne, hzero]
  rfl

theorem ofNat_ne_zero {n : Nat} (h0 : n ≠ 0) (h : n < 2 ^ 64) : UInt64.ofNat n ≠ 0 := by
  intro hz
  have hn := congrArg UInt64.toNat hz
  rw [UInt64.toNat_ofNat', Nat.mod_eq_of_lt h] at hn
  exact h0 hn

theorem Reached.imp {ok ok' : Int → Prop} (himp : ∀ n, ok n → ok' n) {d : LevelDb}
    {m : MainMemory} {blocks : List BlockInfo} (h : Reached w ok d m blocks) :
    Reached w ok' d m blocks := by
  induction h with
  | start => exact Reached.start
  | block _ hround hcount ih => exact ih.block hround (himp _ hcount)
  | restart _ hrecord hcount ih => exact ih.restart hrecord (hcount.imp_right (himp _))

/-- A restart goes on with the largest number then. -/
theorem Reached.restart_zero {d : LevelDb} {m : MainMemory} {blocks : List BlockInfo}
    {record : WorkerBlockInfo} (h : Reached w (fun n => 0 ≤ n) d m blocks)
    (hrecord : d.findMainBlock = .ok record) (hzero : record.countVal = 0) :
    ∃ m', Reached w (fun _ => True) d m' blocks ∧ m'.countVal = 2 ^ 64 - 1 := by
  refine ⟨_, (h.imp (fun _ _ => trivial)).restart hrecord (Or.inr trivial), ?_⟩
  show ((record.countVal - 1).toNat : Int) = _
  rw [hzero]
  decide

end WorkerMain

end TorrentNode
