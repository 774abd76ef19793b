import TorrentNode.Lib.OrdMap

/-!
# Write batches

A batch is a list of puts and deletes that a store applies in order, all at
once. What it leaves behind at a key depends only on the last operation on that
key, and a key it never names keeps its value.
-/

/-- One operation of a batch. -/
inductive WriteOp (K V : Type) where
  | put (key : K) (value : V)
  | del (key : K)
  deriving DecidableEq

namespace WriteOp

variable {K V : Type} [LinearOrder K]

/-- The key an operation writes. -/
def key : WriteOp K V → K
  | put k _ => k
  | del k => k

/-- What an operation leaves at its key. -/
def left : WriteOp K V → Option V
  | put _ v => some v
  | del _ => none

/-- Apply one operation. -/
def step (m : OrdMap K V) : WriteOp K V → OrdMap K V
  | put k v => m.insert k v
  | del k => m.erase k

/-- Apply a batch. -/
def apply (m : OrdMap K V) (ops : List (WriteOp K V)) : OrdMap K V := ops.foldl step m

@[simp] theorem apply_nil (m : OrdMap K V) : apply m [] = m := rfl

theorem apply_append (m : OrdMap K V) (xs ys : List (WriteOp K V)) :
    apply m (xs ++ ys) = apply (apply m xs) ys := by
  unfold apply; rw [List.foldl_append]

theorem find?_step (m : OrdMap K V) (op : WriteOp K V) (k : K) :
    (step m op).find? k = if k = op.key then op.left else m.find? k := by
  cases op with
  | put j v => exact OrdMap.find?_insert
  | del j => exact OrdMap.find?_erase

/-- **Frame**: a key that no operation names keeps its value. -/
theorem find?_apply_of_not_mem {k : K} :
    ∀ {ops : List (WriteOp K V)} {m : OrdMap K V}, (∀ op ∈ ops, op.key ≠ k) →
      (apply m ops).find? k = m.find? k
  | [], _, _ => rfl
  | op :: ops, m, h => by
      have hop : op.key ≠ k := h op List.mem_cons_self
      have ih := find?_apply_of_not_mem (m := step m op)
        (fun o ho => h o (List.mem_cons_of_mem _ ho))
      rw [find?_step, if_neg (Ne.symm hop)] at ih
      exact ih

end WriteOp
