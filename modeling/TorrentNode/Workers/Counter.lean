import TorrentNode.Workers.Frames

/-!
# The counter of the main worker

The records of histories and delegations are numbered by a counter that only runs
down, over every round of the worker, also over one that fails.
-/

namespace TorrentNode

namespace WorkerMain

open Effect

variable {w : WorkerMain} {s s' : MainState} {n : UInt64}

theorem getCountVal_ok {c : UInt64} (h : getCountVal.exec s = (.ok c, s')) :
    c = UInt64.ofInt s.memory.countVal ∧
      s' = { s with memory := { s.memory with countVal := s.memory.countVal - 1 } } := by
  unfold getCountVal at h
  rw [exec_read_bind, exec_update_bind] at h
  obtain ⟨hc, hs⟩ := exec_pure_ok.mp h
  exact ⟨hc.symm, hs.symm⟩

theorem toNat_ofInt {n : Int} (h0 : 0 ≤ n) (h : n < 2 ^ 64) : ((UInt64.ofInt n).toNat : Int) = n := by
  unfold UInt64.ofInt
  rw [UInt64.toNat_ofNat', Int.emod_eq_of_lt h0 h, Nat.mod_eq_of_lt (by omega),
    Int.toNat_of_nonneg h0]

/-- The counter only runs down. -/
def CountsDown (s s' : MainState) : Prop := s'.memory.countVal ≤ s.memory.countVal

instance : Frame CountsDown where
  refl _ := le_refl _
  trans h h' := le_trans h' h

instance {p : Bytes} : Admits p CountsDown where
  batch _ _ _ := le_refl _
  counter _ := Int.sub_le_self _ (by decide)
  statuses _ _ := le_refl _
  balances _ _ := le_refl _
  common _ _ := le_refl _

theorem countsDown_onBatch {f : Batch → Except Err Batch} : Keeps CountsDown (onBatch f) := by
  refine keeps_tryUpdate (fun s s' h => ?_)
  obtain ⟨b, _, rfl⟩ := map_eq_ok.mp h
  exact le_refl _

theorem countsDown_takeDelegate {pair : Blob} : Keeps CountsDown (w.takeDelegate pair) := by
  refine keeps_bind (keeps_read _) (fun stack => ?_)
  cases stack with
  | nil =>
      refine keeps_bind (keeps_read _) (fun _ => keeps_bind (keeps_lift _) ?_)
      rintro ⟨key, value⟩
      exact keeps_ite (keeps_pure _) (keeps_bind (keeps_lift _) (fun _ =>
        keeps_bind countsDown_onBatch (fun _ => keeps_pure _)))
  | cons key rest =>
      refine keeps_bind (keeps_update (fun _ => le_refl _)) (fun _ => keeps_bind (keeps_read _)
        (fun _ => keeps_bind (keeps_lift _) (fun found => ?_)))
      cases found with
      | none => exact keeps_lift _
      | some value => exact keeps_bind (keeps_lift _) (fun _ =>
          keeps_bind countsDown_onBatch (fun _ => keeps_pure _))

theorem countsDown_putDelegate {pair hash : Blob} {value : UInt64} :
    Keeps CountsDown (putDelegate pair value hash) := by
  refine keeps_bind (keeps_getCountVal (literalKey DELEGATE_PREFIX)) (fun _ => keeps_bind
    (keeps_tryModify (fun s key s' h => ?_)) (fun _ => keeps_update (fun _ => le_refl _)))
  obtain ⟨r, _, hr⟩ := map_eq_ok.mp h
  obtain ⟨_, rfl⟩ := Prod.mk.inj hr
  exact le_refl _

theorem countsDown_status (tx : TransactionInfo) :
    Keeps CountsDown (w.getInstantDelegateStatus tx n) := by
  refine keeps_ite (keeps_bind (keeps_lift _) (fun _ => keeps_bind ?_ (fun _ => keeps_pure _)))
    (keeps_pure _)
  unfold calcTransactionStatusDelegate
  cases tx.delegate with
  | none => exact keeps_lift _
  | some info => exact keeps_bind (keeps_lift _) (fun _ => keeps_bind (keeps_lift _) (fun _ =>
      keeps_bind (keeps_lift _) (fun _ => keeps_ite
        (keeps_ite (keeps_pure _) (keeps_bind countsDown_putDelegate (fun _ => keeps_pure _)))
        (keeps_bind countsDown_takeDelegate (fun _ => keeps_pure _)))))

theorem countsDown_processBlock {memory : MainMemory} {bi : BlockInfo}
    {r : Except Err (List (Option TransactionStatus))}
    (h : (w.processBlock bi n).exec (blockStart memory) = (r, s)) :
    s.memory.countVal ≤ memory.countVal :=
  Keeps.of_exec (R := CountsDown) h
    (keeps_processBlock (literalKey DELEGATE_PREFIX) (by decide) (by decide) countsDown_status)

/-- How a round ends. -/
theorem worker_cases {memory memory' : MainMemory} {bi : BlockInfo} {db' : LevelDb}
    {r : Outcome (List (Option TransactionStatus))}
    (h : w.worker memory bi = (r, db', memory')) :
    (∃ statuses s, r = .written statuses ∧
      (w.processBlock bi bi.blockNumber).exec (blockStart memory) = (.ok statuses, s) ∧
      db' = addBatch s.batch w.leveldb ∧ memory'.countVal = s.memory.countVal) ∨
    ((∀ statuses, r ≠ .written statuses) ∧ db' = w.leveldb ∧
      memory'.countVal ≤ memory.countVal) := by
  unfold worker at h
  cases hn : bi.header.blockNumber with
  | none =>
      simp only [hn] at h
      cases h
      exact Or.inr ⟨by simp, rfl, le_refl _⟩
  | some number =>
      have hnum : UInt64.ofNat number = bi.blockNumber := by
        unfold BlockInfo.blockNumber; rw [hn]; rfl
      simp only [hn, hnum] at h
      split at h
      · cases h
        exact Or.inr ⟨by simp, rfl, le_refl _⟩
      · cases h
        exact Or.inr ⟨by simp, rfl, le_refl _⟩
      · split at h
        · rename_i e s hexec
          cases h
          exact Or.inr ⟨by simp, rfl, countsDown_processBlock hexec⟩
        · rename_i statuses s hexec
          cases h
          exact Or.inl ⟨statuses, s, rfl, hexec, rfl, rfl⟩

end WorkerMain

end TorrentNode
