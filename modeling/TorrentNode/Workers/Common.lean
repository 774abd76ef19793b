import TorrentNode.Lib.OrdMap
import TorrentNode.Structs.BlockInfo
import TorrentNode.Structs.Records

/-!
# What the workers share

The switches of the configuration, the cache of transaction statuses, which both
the main worker and the script worker fill, and the guards that every worker
checks before it works on a block.
-/

namespace TorrentNode

/-- The bits of `Modules`. -/
structure Modules where
  block : Bool
  txs : Bool
  balance : Bool
  addrTxs : Bool
  blockRaw : Bool
  v8 : Bool
  nodeTest : Bool
  deriving DecidableEq

/-- `Cache<TransactionStatus>`. -/
structure StatusCache where
  map : OrdMap Blob TransactionStatus
  attributes : OrdMap UInt64 (List Blob)
  deriving DecidableEq

namespace StatusCache

/-- `addValue`; attributes are the decimals of block numbers, so the numbers serve as well. -/
def addValue (c : StatusCache) (key : Blob) (attr : UInt64) (value : TransactionStatus) :
    StatusCache :=
  { attributes := c.attributes.insert attr ((c.attributes.find? attr).getD [] ++ [key])
    map := c.map.emplace key value }

/-- `getValue(key)`. -/
def getValue (c : StatusCache) (key : Blob) : Option TransactionStatus := c.map.find? key

/-- `remove(attr)`: all values that were added with the attribute. -/
def remove (c : StatusCache) (attr : UInt64) : StatusCache :=
  match c.attributes.find? attr with
  | none => c
  | some keys => { map := keys.foldl OrdMap.erase c.map, attributes := c.attributes.erase attr }

end StatusCache

/-- How a worker ends a block. -/
inductive Outcome (α : Type) where
  /-- The block is not newer than the recorded one. -/
  | skipped
  /-- The batch was written. -/
  | written (a : α)
  /-- An exception, logged. -/
  | failed (e : Err)
  deriving DecidableEq

/-- The guards of a worker against the record of the block it wrote last: whether to work on the
block at all. -/
def guards (oldMetadata : WorkerBlockInfo) (blockNumber : UInt64) (header : BlockHeader) :
    Except Err Bool :=
  let prevHash := oldMetadata.blockHash
  if blockNumber ≤ oldMetadata.blockNumber then .ok false
  else do
    check (prevHash.isEmpty || prevHash == header.prevHash)
      ("Incorrect prev hash. Expected " ++ toHex prevHash.val ++ ", received " ++
        toHex header.prevHash.val)
    pure true

/-- A round of `WorkerScript::work` and of `WorkerNodeTest::work`: the guards, in their order, around
the work on the block. -/
def guardedRound {α ρ : Type} (lastScriptBlock : Except Err WorkerBlockInfo) (bi : BlockInfo)
    (unchanged : ρ) (work : UInt64 → Outcome α × ρ) : Outcome α × ρ :=
  match lastScriptBlock with
  | .error e => (.failed e, unchanged)
  | .ok lastScriptBlock =>
    match bi.header.blockNumber with
    | none => (.failed (.std "bad_optional_access"), unchanged)
    | some number =>
      match guards lastScriptBlock (UInt64.ofNat number) bi.header with
      | .error e => (.failed e, unchanged)
      | .ok false => (.skipped, unchanged)
      | .ok true => work (UInt64.ofNat number)

/-- The number of a block as the workers take it. -/
def BlockInfo.blockNumber (bi : BlockInfo) : UInt64 := UInt64.ofNat (bi.header.blockNumber.getD 0)

theorem guardedRound_written {α ρ : Type} {record : Except Err WorkerBlockInfo} {bi : BlockInfo}
    {unchanged result : ρ} {work : UInt64 → Outcome α × ρ} {a : α}
    (h : guardedRound record bi unchanged work = (.written a, result)) :
    work bi.blockNumber = (.written a, result) := by
  unfold guardedRound at h
  cases record with
  | error e => exact absurd (Prod.mk.inj h).1 (by simp)
  | ok m =>
      cases hn : bi.header.blockNumber with
      | none =>
          simp only [hn] at h
          exact absurd (Prod.mk.inj h).1 (by simp)
      | some number =>
          have hnum : bi.blockNumber = UInt64.ofNat number := by
            unfold BlockInfo.blockNumber; rw [hn]; rfl
          simp only [hn] at h
          rw [hnum]
          split at h
          · exact absurd (Prod.mk.inj h).1 (by simp)
          · exact absurd (Prod.mk.inj h).1 (by simp)
          · exact h

/-- The number and the hash that a record holds, no hash before the first block. -/
def WorkerBlockInfo.recorded (m : WorkerBlockInfo) : Nat × Option Blob :=
  (m.blockNumber.toNat, if m.blockHash.isEmpty then none else some m.blockHash)

theorem guards_eq_true {m : WorkerBlockInfo} {n : UInt64} {header : BlockHeader} :
    guards m n header = .ok true ↔
      m.recorded.1 < n.toNat ∧ (m.recorded.2 = none ∨ m.recorded.2 = some header.prevHash) := by
  unfold guards WorkerBlockInfo.recorded
  have hlt : (n ≤ m.blockNumber) ↔ ¬m.blockNumber.toNat < n.toNat := by
    rw [UInt64.le_iff_toNat_le, not_lt]
  by_cases hn : n ≤ m.blockNumber
  · simp [hn, hlt.mp hn]
  · have hn' : m.blockNumber.toNat < n.toNat := not_not.mp (fun h => hn (hlt.mpr h))
    rw [if_neg hn]
    cases he : m.blockHash.isEmpty with
    | true => simp [hn', Bind.bind, Except.bind, Pure.pure, Except.pure]
    | false =>
        cases hp : m.blockHash == header.prevHash with
        | true =>
            have heq := beq_iff_eq.mp hp
            simp [hn', heq, Bind.bind, Except.bind, Pure.pure, Except.pure]
        | false =>
            have hne := beq_eq_false_iff_ne.mp hp
            simp [hn', hne, Bind.bind, Except.bind]

end TorrentNode
