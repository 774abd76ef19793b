import Mathlib.Algebra.Group.Hom.Defs
import Mathlib.Algebra.Group.Pi.Basic
import Mathlib.Data.UInt
import Mathlib.Tactic.Abel
import TorrentNode.Structs.BalanceInfo

/-!
# What a balance says

A stored balance comes down to four accounts, each a number modulo `2 ^ 64`: what the
address has, what it has delegated, what was delegated to it and what it has
reserved. Counters that are rebased do not show in them, adding up two balances adds
up the accounts, and a transaction changes them by an amount that does not depend on
what was there.
-/

namespace TorrentNode

/-- The accounts of an address: what it has, has delegated, was delegated and has reserved. -/
inductive Account where
  | own
  | delegate
  | delegated
  | reserved
  deriving DecidableEq

/-- The accounts of an address, or changes to them. -/
abbrev Ledger : Type := Account → UInt64

namespace BalanceElement

theorem balance_receiveValue (b : BalanceElement) (value : UInt64) :
    (b.receiveValue value).balance = b.balance + value := by
  unfold receiveValue balance
  split <;> grind

theorem balance_spentValue (b : BalanceElement) (value : UInt64) :
    (b.spentValue value).balance = b.balance - value := by
  unfold spentValue balance
  split <;> grind

end BalanceElement

/-- The accounts that delegations are kept in. -/
def DelegateBalance.ledger (d : DelegateBalance) : Ledger
  | .own => 0
  | .delegate => d.delegate.spent - d.delegate.received
  | .delegated => d.delegated.received - d.delegated.spent
  | .reserved => d.reserved

namespace BalanceInfo

/-- All accounts of a balance. -/
def ledger (b : BalanceInfo) : Ledger
  | .own => b.balance.received - b.balance.spent
  | a => (b.delegated.getD default).ledger a

/-- What `calcBalanceWithoutDelegate` makes of the accounts. -/
def worth : Ledger →+ UInt64 where
  toFun l := l .own + l .delegate
  map_zero' := rfl
  map_add' a b := by
    simp only [Pi.add_apply]
    abel

theorem calcBalanceWithoutDelegate_eq (b : BalanceInfo) :
    b.calcBalanceWithoutDelegate = worth b.ledger := by
  unfold calcBalanceWithoutDelegate
  cases hd : b.delegated with
  | none => show _ = b.ledger .own + b.ledger .delegate
            simp only [ledger, hd]
            rfl
  | some d => show _ = b.ledger .own + b.ledger .delegate
              simp only [ledger, hd]
              rfl

/-- The fee of a transaction, where it has one. -/
def fee (tx : TransactionInfo) : UInt64 := tx.realFee.toOption.getD 0

/-- What `plusWithoutDelegate` does to the accounts of a sender or recipient. -/
def transfer (tx : TransactionInfo) (isFrom isTo changeBalance : Bool) : Ledger
  | .own => if changeBalance then
      (if isTo then tx.value else 0) - (if isFrom then tx.value + fee tx else 0) else 0
  | .reserved => match tx.delegate with
    | some info => if info.isDelegate && isFrom then info.value else 0
    | none => 0
  | _ => 0

/-- What `plusWithDelegate` does to them. -/
def delegation (info : DelegateInfo) (undelegateValue : UInt64) (isFrom isTo isOkStatus : Bool) :
    Ledger
  | .own => if isOkStatus && isFrom then
      (if info.isDelegate then -info.value else undelegateValue) else 0
  | .delegate => if isOkStatus && isFrom then
      (if info.isDelegate then info.value else -undelegateValue) else 0
  | .delegated => if isOkStatus && isTo then
      (if info.isDelegate then info.value else -undelegateValue) else 0
  | .reserved => if isFrom && info.isDelegate then -info.value else 0

/-- Delegating is worth nothing. -/
theorem worth_delegation (info : DelegateInfo) (undelegateValue : UInt64)
    (isFrom isTo isOkStatus : Bool) :
    worth (delegation info undelegateValue isFrom isTo isOkStatus) = 0 := by
  show delegation info undelegateValue isFrom isTo isOkStatus .own +
    delegation info undelegateValue isFrom isTo isOkStatus .delegate = 0
  unfold delegation
  simp only
  split
  · split
    · exact neg_add_cancel _
    · exact add_neg_cancel _
  · exact add_zero _

end BalanceInfo

end TorrentNode
