import Mathlib.Algebra.BigOperators.Group.List.Basic
import Mathlib.Data.List.Infix
import TorrentNode.Structs.BalanceInfo

/-!
# A balance over a run

The counters of a balance are rebased before they pass the limit, in the middle of the
call that would take them past it. As long as the balance itself stays a `size_t`, a run
of calls cannot be told from the same run on counters without a limit.
-/

namespace TorrentNode

namespace BalanceElement

/-- A call of `receiveValue` or of `spentValue`. -/
inductive Call where
  | receive (value : UInt64)
  | spend (value : UInt64)
  deriving DecidableEq

namespace Call

/-- What a call makes of a balance. -/
def apply (b : BalanceElement) : Call → BalanceElement
  | receive value => b.receiveValue value
  | spend value => b.spentValue value

/-- What it does to the exact balance. -/
def amount : Call → Int
  | receive value => value.toNat
  | spend value => -value.toNat

end Call

/-- The exact balance after some calls. -/
def exactBalance (calls : List Call) : Int := (calls.map Call.amount).sum

/-- The largest `size_t`. -/
def limit : Int := 2 ^ 64 - 1

/-- The exact balance is a `size_t` after every call. -/
def StaysInRange (calls : List Call) : Prop :=
  ∀ done, done <+: calls → 0 ≤ exactBalance done ∧ exactBalance done ≤ limit

instance {calls : List Call} : Decidable (StaysInRange calls) :=
  decidable_of_iff (∀ done ∈ calls.inits, 0 ≤ exactBalance done ∧ exactBalance done ≤ limit)
    (by unfold StaysInRange; simp only [List.mem_inits])

/-! ## Counters without a limit -/

/-- The two counters as numbers that cannot wrap. -/
structure Wide where
  received : Int
  spent : Int

namespace Wide

/-- The rebase, `received_ = balance(); spent_ = 0`. -/
def rebase (b : Wide) : Wide := ⟨b.received - b.spent, 0⟩

/-- More came in, as `BalanceElement.receiveValue` has it. -/
def receiveValue (b : Wide) (value : UInt64) : Wide :=
  let b := if limit - value.toNat ≤ b.received then b.rebase else b
  { b with received := b.received + value.toNat }

/-- More went out, as `BalanceElement.spentValue` has it. -/
def spentValue (b : Wide) (value : UInt64) : Wide :=
  let b := if limit - value.toNat ≤ b.spent then b.rebase else b
  { b with spent := b.spent + value.toNat }

/-- What a call makes of the exact counters. -/
def apply (b : Wide) : Call → Wide
  | .receive value => b.receiveValue value
  | .spend value => b.spentValue value

end Wide

/-- The counters as they are stored. -/
def wide (b : BalanceElement) : Wide := ⟨b.received.toNat, b.spent.toNat⟩

/-! ## One call -/

/-- The test of the program is the test on the numbers. -/
theorem limit_sub_le_iff {value counter : UInt64} :
    0xFFFFFFFFFFFFFFFF - value ≤ counter ↔ limit - value.toNat ≤ counter.toNat := by
  have hvalue := value.toNat_lt
  have hmax : (0xFFFFFFFFFFFFFFFF : UInt64).toNat = 2 ^ 64 - 1 := rfl
  have hle : value ≤ 0xFFFFFFFFFFFFFFFF := by
    rw [UInt64.le_iff_toNat_le, hmax]
    omega
  rw [UInt64.le_iff_toNat_le, UInt64.toNat_sub_of_le _ _ hle, hmax]
  unfold limit
  omega

theorem toNat_balance {b : BalanceElement} (h : b.spent ≤ b.received) :
    (b.balance.toNat : Int) = b.received.toNat - b.spent.toNat := by
  unfold balance
  rw [UInt64.toNat_sub_of_le _ _ h]
  rw [UInt64.le_iff_toNat_le] at h
  omega

theorem wide_rebase {b : BalanceElement} (h : b.spent ≤ b.received) :
    wide ⟨b.balance, 0⟩ = b.wide.rebase := by
  unfold wide Wide.rebase
  simp only [toNat_balance h]
  rfl

/-- A sum that stays within the limit does not wrap. -/
theorem toNat_add {x y : UInt64} (h : (x.toNat : Int) + y.toNat ≤ limit) :
    ((x + y).toNat : Int) = x.toNat + y.toNat := by
  unfold limit at h
  rw [UInt64.toNat_add, Nat.mod_eq_of_lt (by omega)]
  omega

theorem wide_receiveValue {b : BalanceElement} {value : UInt64} (h : b.spent ≤ b.received)
    (hsum : b.wide.received - b.wide.spent + value.toNat ≤ limit) :
    (b.receiveValue value).wide = b.wide.receiveValue value := by
  unfold receiveValue Wide.receiveValue
  by_cases hlimit : limit - value.toNat ≤ b.received.toNat
  · have hwide : limit - value.toNat ≤ b.wide.received := hlimit
    rw [if_pos (limit_sub_le_iff.mpr hlimit), if_pos hwide, ← wide_rebase h]
    have hadd := toNat_add (x := b.balance) (y := value) (by rw [toNat_balance h]; exact hsum)
    unfold wide
    simp only [hadd]
  · have hwide : ¬ limit - value.toNat ≤ b.wide.received := hlimit
    rw [if_neg (fun hle => hlimit (limit_sub_le_iff.mp hle)), if_neg hwide]
    have hadd := toNat_add (x := b.received) (y := value) (by omega)
    unfold wide
    simp only [hadd]

theorem wide_spentValue {b : BalanceElement} {value : UInt64} (h : b.spent ≤ b.received) :
    (b.spentValue value).wide = b.wide.spentValue value := by
  unfold spentValue Wide.spentValue
  by_cases hlimit : limit - value.toNat ≤ b.spent.toNat
  · have hwide : limit - value.toNat ≤ b.wide.spent := hlimit
    rw [if_pos (limit_sub_le_iff.mpr hlimit), if_pos hwide, ← wide_rebase h]
    unfold wide
    simp
  · have hwide : ¬ limit - value.toNat ≤ b.wide.spent := hlimit
    rw [if_neg (fun hle => hlimit (limit_sub_le_iff.mp hle)), if_neg hwide]
    have hadd := toNat_add (x := b.spent) (y := value) (by omega)
    unfold wide
    simp only [hadd]

/-- A call without a limit changes the balance by its amount. -/
theorem balance_apply_wide (b : Wide) (call : Call) :
    (b.apply call).received - (b.apply call).spent = b.received - b.spent + call.amount := by
  cases call with
  | receive value =>
      show (b.receiveValue value).received - (b.receiveValue value).spent =
        b.received - b.spent + value.toNat
      unfold Wide.receiveValue Wide.rebase
      dsimp only
      split
      · dsimp only
        omega
      · omega
  | spend value =>
      show (b.spentValue value).received - (b.spentValue value).spent =
        b.received - b.spent + -value.toNat
      unfold Wide.spentValue Wide.rebase
      dsimp only
      split
      · dsimp only
        omega
      · omega

/-- **A call that leaves the balance in range does to the counters what it does without a limit.** -/
theorem wide_apply {b : BalanceElement} {call : Call} (h : b.spent ≤ b.received)
    (hlow : 0 ≤ b.wide.received - b.wide.spent + call.amount)
    (hhigh : b.wide.received - b.wide.spent + call.amount ≤ limit) :
    (call.apply b).wide = b.wide.apply call ∧
      (call.apply b).spent ≤ (call.apply b).received := by
  have hwide : (call.apply b).wide = b.wide.apply call := by
    cases call with
    | receive value => exact wide_receiveValue h hhigh
    | spend value => exact wide_spentValue h
  refine ⟨hwide, ?_⟩
  have hbalance := balance_apply_wide b.wide call
  rw [← hwide] at hbalance
  have hnonneg : 0 ≤ (call.apply b).wide.received - (call.apply b).wide.spent := by omega
  rw [UInt64.le_iff_toNat_le]
  unfold wide at hnonneg
  simp only at hnonneg
  omega

/-! ## A run -/

theorem exactBalance_cons (call : Call) (calls : List Call) :
    exactBalance (call :: calls) = call.amount + exactBalance calls := List.sum_cons

/-- From any counters in order, while the balance stays in range. -/
theorem wide_foldl : ∀ (calls : List Call) (b : BalanceElement), b.spent ≤ b.received →
    (∀ done, done <+: calls → 0 ≤ b.wide.received - b.wide.spent + exactBalance done ∧
      b.wide.received - b.wide.spent + exactBalance done ≤ limit) →
    (calls.foldl Call.apply b).wide = calls.foldl Wide.apply b.wide ∧
      (calls.foldl Call.apply b).spent ≤ (calls.foldl Call.apply b).received ∧
      (calls.foldl Call.apply b).wide.received - (calls.foldl Call.apply b).wide.spent =
        b.wide.received - b.wide.spent + exactBalance calls
  | [], b, h, _ => ⟨rfl, h, (add_zero _).symm⟩
  | call :: calls, b, h, hrange => by
      have hfirst := hrange [call] (List.cons_prefix_cons.mpr ⟨rfl, List.nil_prefix⟩)
      have hone : exactBalance [call] = call.amount := List.sum_singleton
      rw [hone] at hfirst
      obtain ⟨hwide, hle⟩ := wide_apply h hfirst.1 hfirst.2
      have hbalance := balance_apply_wide b.wide call
      rw [← hwide] at hbalance
      obtain ⟨hrun, hle', hexact⟩ := wide_foldl calls (call.apply b) hle (by
        intro done hdone
        have hall := hrange (call :: done) (List.cons_prefix_cons.mpr ⟨rfl, hdone⟩)
        rw [exactBalance_cons] at hall
        omega)
      rw [List.foldl_cons, List.foldl_cons, ← hwide]
      refine ⟨hrun, hle', ?_⟩
      rw [hexact, exactBalance_cons]
      omega

/-- **From the zero element, a run whose exact balance stays a `size_t` shows that balance, and its
counters are those of the run without a limit.** -/
theorem balance_run {calls : List Call} (h : StaysInRange calls) :
    let b := calls.foldl Call.apply default
    (b.received.toNat : Int) - b.spent.toNat = exactBalance calls ∧
      (b.balance.toNat : Int) = exactBalance calls ∧ b.spent ≤ b.received ∧
      b.wide = calls.foldl Wide.apply ⟨0, 0⟩ := by
  have hzero : (default : BalanceElement).wide.received - (default : BalanceElement).wide.spent = 0 :=
    rfl
  obtain ⟨hwide, hle, hexact⟩ := wide_foldl calls default (UInt64.le_refl 0) (by
    intro done hdone
    rw [hzero, zero_add]
    exact h done hdone)
  rw [hzero, zero_add] at hexact
  exact ⟨hexact, (toNat_balance hle).trans hexact, hle, hwide⟩

/-- A run that is rebased by either call, at the limit. -/
def rebasedRun : List Call :=
  [.receive 0xFFFFFFFFFFFFFFFF, .spend 0xFFFFFFFFFFFFFFF0, .spend 0xF, .receive 0x20, .spend 0x10]

theorem balance_run_rebasedRun :
    let b := rebasedRun.foldl Call.apply default
    (b.received.toNat : Int) - b.spent.toNat = exactBalance rebasedRun ∧
      (b.balance.toNat : Int) = exactBalance rebasedRun ∧ b.spent ≤ b.received ∧
      b.wide = rebasedRun.foldl Wide.apply ⟨0, 0⟩ :=
  balance_run (by decide)

example : rebasedRun.foldl Call.apply default = ⟨0x2F, 0x1F⟩ := by decide

end BalanceElement

end TorrentNode
