import TorrentNode.Lib.BlockFold
import TorrentNode.Structs.Ledger

/-!
# What balances add up to

Of a counter that is rebased only the difference of what came in and what went out is
sure. The differences, the other counters and the numbers of the last blocks are the
sums of a balance: `operator+` adds them up field by field, and each of the four
operations adds an amount that does not depend on the balance.
-/

namespace TorrentNode

/-- What a balance says about one token. -/
@[ext] structure TokenSums where
  balance : UInt64
  countOp : UInt64
  countReceived : UInt64
  countSpent : UInt64
  deriving DecidableEq

/-- What a balance says about delegations. -/
@[ext] structure DelegateSums where
  delegate : UInt64
  delegated : UInt64
  reserved : UInt64
  countOp : UInt64
  deriving DecidableEq

/-- What a balance says. -/
@[ext] structure BalanceSums where
  balance : UInt64
  countReceived : UInt64
  countSpent : UInt64
  countTxs : UInt64
  delegated : Option DelegateSums
  forged : Option ForgedBalance
  blockNumber : UInt64
  tokenBlockNumber : Option UInt64
  tokens : Blob → Option TokenSums

instance : Add TokenSums where
  add a b := ⟨a.balance + b.balance, a.countOp + b.countOp, a.countReceived + b.countReceived,
    a.countSpent + b.countSpent⟩

instance : Add DelegateSums where
  add a b := ⟨a.delegate + b.delegate, a.delegated + b.delegated, a.reserved + b.reserved,
    a.countOp + b.countOp⟩

theorem ForgedBalance.ext {f g : ForgedBalance} (hforged : f.forged = g.forged)
    (hcountOp : f.countOp = g.countOp) : f = g := by
  cases f
  cases g
  cases hforged
  cases hcountOp
  rfl

instance : Zero DelegateSums where
  zero := ⟨0, 0, 0, 0⟩

instance : Add ForgedBalance where
  add a b := ⟨a.forged + b.forged, a.countOp + b.countOp⟩

instance : Zero BalanceSums where
  zero := ⟨0, 0, 0, 0, none, none, 0, none, fun _ => none⟩

/-- Amounts add up, numbers of blocks count by the last one. -/
instance : Add BalanceSums where
  add a b :=
    { balance := a.balance + b.balance
      countReceived := a.countReceived + b.countReceived
      countSpent := a.countSpent + b.countSpent
      countTxs := a.countTxs + b.countTxs
      delegated := Option.merge (· + ·) a.delegated b.delegated
      forged := Option.merge (· + ·) a.forged b.forged
      blockNumber := max a.blockNumber b.blockNumber
      tokenBlockNumber := Option.merge max a.tokenBlockNumber b.tokenBlockNumber
      tokens := fun token => Option.merge (· + ·) (a.tokens token) (b.tokens token) }

theorem TokenSums.add_def (a b : TokenSums) : a + b = ⟨a.balance + b.balance,
    a.countOp + b.countOp, a.countReceived + b.countReceived, a.countSpent + b.countSpent⟩ := rfl

theorem DelegateSums.add_def (a b : DelegateSums) : a + b = ⟨a.delegate + b.delegate,
    a.delegated + b.delegated, a.reserved + b.reserved, a.countOp + b.countOp⟩ := rfl

theorem ForgedBalance.add_def (a b : ForgedBalance) :
    a + b = ⟨a.forged + b.forged, a.countOp + b.countOp⟩ := rfl

instance : Std.Associative (α := TokenSums) (· + ·) :=
  ⟨fun a b c => by simp only [TokenSums.add_def, add_assoc]⟩

instance : AddMonoid DelegateSums where
  add_assoc a b c := by simp only [DelegateSums.add_def, add_assoc]
  zero_add a := DelegateSums.ext (zero_add _) (zero_add _) (zero_add _) (zero_add _)
  add_zero a := DelegateSums.ext (add_zero _) (add_zero _) (add_zero _) (add_zero _)
  nsmul := nsmulRec

instance : Std.Associative (α := ForgedBalance) (· + ·) :=
  ⟨fun a b c => by simp only [ForgedBalance.add_def, add_assoc]⟩

namespace BalanceSums

variable (a b : BalanceSums)

@[simp] theorem add_balance : (a + b).balance = a.balance + b.balance := rfl

@[simp] theorem add_countReceived : (a + b).countReceived = a.countReceived + b.countReceived := rfl

@[simp] theorem add_countSpent : (a + b).countSpent = a.countSpent + b.countSpent := rfl

@[simp] theorem add_countTxs : (a + b).countTxs = a.countTxs + b.countTxs := rfl

@[simp] theorem add_delegated :
    (a + b).delegated = Option.merge (· + ·) a.delegated b.delegated := rfl

@[simp] theorem add_forged : (a + b).forged = Option.merge (· + ·) a.forged b.forged := rfl

@[simp] theorem add_blockNumber : (a + b).blockNumber = max a.blockNumber b.blockNumber := rfl

@[simp] theorem add_tokenBlockNumber :
    (a + b).tokenBlockNumber = Option.merge max a.tokenBlockNumber b.tokenBlockNumber := rfl

@[simp] theorem add_tokens (token : Blob) :
    (a + b).tokens token = Option.merge (· + ·) (a.tokens token) (b.tokens token) := rfl

end BalanceSums

theorem max_zero_uint64 (n : UInt64) : max n 0 = n :=
  max_eq_left (UInt64.le_iff_toNat_le.mpr (Nat.zero_le _))

/-- Optional parts are put together as the parts are. -/
theorem merge_assoc {α : Type} (f : α → α → α) [h : Std.Associative f] (a b c : Option α) :
    Option.merge f (Option.merge f a b) c = Option.merge f a (Option.merge f b c) :=
  Std.Associative.assoc a b c

instance : AddMonoid BalanceSums where
  add_assoc a b c := by
    refine BalanceSums.ext (add_assoc _ _ _) (add_assoc _ _ _) (add_assoc _ _ _) (add_assoc _ _ _)
      (merge_assoc _ _ _ _) (merge_assoc _ _ _ _) (max_assoc _ _ _) (merge_assoc _ _ _ _)
      (funext (fun token => ?_))
    exact merge_assoc _ _ _ _
  zero_add a := by
    refine BalanceSums.ext (zero_add _) (zero_add _) (zero_add _) (zero_add _)
      Option.merge_none_left Option.merge_none_left ?_ Option.merge_none_left
      (funext (fun token => Option.merge_none_left))
    exact (max_comm _ _).trans (max_zero_uint64 _)
  add_zero a := BalanceSums.ext (add_zero _) (add_zero _) (add_zero _) (add_zero _)
    Option.merge_none_right Option.merge_none_right (max_zero_uint64 _) Option.merge_none_right
    (funext (fun token => Option.merge_none_right))
  nsmul := nsmulRec

/-- What a balance of a token comes down to. -/
def TokenBalance.sums (t : TokenBalance) : TokenSums :=
  ⟨t.balance.balance, t.countOp, t.countReceived, t.countSpent⟩

/-- What the delegations of a balance come down to. -/
def DelegateBalance.sums (d : DelegateBalance) : DelegateSums :=
  ⟨d.delegate.spent - d.delegate.received, d.delegated.balance, d.reserved, d.countOp⟩

theorem TokenBalance.sums_default_add (x : TokenSums) : (default : TokenBalance).sums + x = x := by
  have h : (default : TokenBalance).sums = ⟨0, 0, 0, 0⟩ := by decide
  rw [h, TokenSums.add_def]
  simp only [zero_add]

theorem DelegateBalance.sums_default_add (x : DelegateSums) :
    (default : DelegateBalance).sums + x = x := by
  have h : (default : DelegateBalance).sums = 0 := by decide
  rw [h, zero_add]

theorem ForgedBalance.default_add (x : ForgedBalance) : default + x = x := by
  have h : (default : ForgedBalance) = ⟨0, 0⟩ := rfl
  rw [h, ForgedBalance.add_def]
  simp only [zero_add]

namespace BalanceElement

theorem balance_default : (default : BalanceElement).balance = 0 := rfl

/-- Merging in another pair of counters. -/
theorem balance_receive_spent (x y : BalanceElement) :
    ((x.receiveValue y.received).spentValue y.spent).balance = x.balance + y.balance := by
  rw [balance_spentValue, balance_receiveValue]
  unfold balance
  abel

theorem spent_sub_received (x : BalanceElement) : x.spent - x.received = -x.balance :=
  (neg_sub _ _).symm

end BalanceElement

namespace BalanceInfo

/-- What a balance comes down to. -/
def sums (b : BalanceInfo) : BalanceSums :=
  { balance := b.balance.balance
    countReceived := b.countReceived
    countSpent := b.countSpent
    countTxs := b.countTxs
    delegated := b.delegated.map DelegateBalance.sums
    forged := b.forged
    blockNumber := b.blockNumber
    tokenBlockNumber := b.tokenBlockNumber
    tokens := fun token => (b.tokens.find? token).map TokenBalance.sums }

theorem sums_default : (default : BalanceInfo).sums = 0 := rfl

/-- Two optional parts add up to what they show together. -/
theorem map_addOpt {α β : Type} [Inhabited α] [Add β] {f : α → α → α} {g : α → β}
    (hf : ∀ a b, g (f a b) = g a + g b) (hdefault : ∀ x, g default + x = x) (a b : Option α) :
    (addOpt f a b).map g = Option.merge (· + ·) (a.map g) (b.map g) := by
  cases b with
  | none => exact Option.merge_none_right.symm
  | some y =>
      cases a with
      | none => exact congrArg some ((hf _ _).trans (hdefault _))
      | some x => exact congrArg some (hf x y)

/-- How `operator+` merges two parts about delegations. -/
def mergeDelegated (d e : DelegateBalance) : DelegateBalance :=
  { countOp := d.countOp + e.countOp
    delegate := (d.delegate.spentValue e.delegate.spent).receiveValue e.delegate.received
    delegated := (d.delegated.receiveValue e.delegated.received).spentValue e.delegated.spent
    reserved := d.reserved + e.reserved }

/-- How `operator+` merges two balances of a token. -/
def mergeToken (t u : TokenBalance) : TokenBalance :=
  { balance := (t.balance.receiveValue u.balance.received).spentValue u.balance.spent
    countOp := t.countOp + u.countOp
    countReceived := t.countReceived + u.countReceived
    countSpent := t.countSpent + u.countSpent }

theorem sums_mergeDelegated (d e : DelegateBalance) :
    (mergeDelegated d e).sums = d.sums + e.sums := by
  refine DelegateSums.ext ?_ (BalanceElement.balance_receive_spent _ _) rfl rfl
  show BalanceElement.spent _ - BalanceElement.received _ =
    (d.delegate.spent - d.delegate.received) + (e.delegate.spent - e.delegate.received)
  rw [BalanceElement.spent_sub_received, BalanceElement.spent_sub_received,
    BalanceElement.spent_sub_received, mergeDelegated, BalanceElement.balance_receiveValue,
    BalanceElement.balance_spentValue]
  unfold BalanceElement.balance
  abel

theorem sums_mergeToken (t u : TokenBalance) : (mergeToken t u).sums = t.sums + u.sums :=
  TokenSums.ext (BalanceElement.balance_receive_spent _ _) rfl rfl rfl

/-- The tokens of a merge, key by key. -/
theorem find?_tokens_add (b c : BalanceInfo) (token : Blob) :
    (b.add c).tokens.find? token = addOpt mergeToken (b.tokens.find? token) (c.tokens.find? token) := by
  have h := OrdMap.find?_merge (fun old t => mergeToken (old.getD default) t) (k := token)
    (m := b.tokens) c.tokens.increasing.nodup_keys
  refine h.trans ?_
  show ((c.tokens.find? token).map (mergeToken ((b.tokens.find? token).getD default))).or
    (b.tokens.find? token) = _
  cases c.tokens.find? token <;> rfl

/-- **Merging balances adds up their sums.** -/
theorem sums_add (b c : BalanceInfo) : (b.add c).sums = b.sums + c.sums := by
  refine BalanceSums.ext (BalanceElement.balance_receive_spent _ _) rfl rfl rfl ?_ ?_ rfl ?_
    (funext (fun token => ?_))
  · exact map_addOpt sums_mergeDelegated DelegateBalance.sums_default_add _ _
  · have h := map_addOpt (f := fun f g : ForgedBalance =>
        { countOp := f.countOp + g.countOp, forged := f.forged + g.forged }) (g := id)
      (fun _ _ => rfl) ForgedBalance.default_add b.forged c.forged
    simp only [Option.map_id_fun, id_eq] at h
    exact h
  · cases hb : b.tokenBlockNumber <;> cases hc : c.tokenBlockNumber <;>
      simp [sums, add, hb, hc]
  · show ((b.add c).tokens.find? token).map TokenBalance.sums = _
    rw [find?_tokens_add]
    exact map_addOpt sums_mergeToken TokenBalance.sums_default_add _ _

end BalanceInfo

/-! ## The last operation on tokens -/

/-- It was not past block `n`. -/
def BalanceSums.Within (s : BalanceSums) (n : UInt64) : Prop := ∀ m ∈ s.tokenBlockNumber, m ≤ n

namespace BalanceSums.Within

variable {s t : BalanceSums} {m n : UInt64}

theorem add (hs : s.Within n) (ht : t.Within n) : (s + t).Within n := by
  intro k hk
  rw [add_tokenBlockNumber, Option.mem_def, Option.merge_eq_some_iff] at hk
  rcases hk with ⟨hk, -⟩ | ⟨-, hk⟩ | ⟨i, j, hi, hj, rfl⟩
  · exact hs k hk
  · exact ht k hk
  · exact max_le (hs i hi) (ht j hj)

theorem mono (hs : s.Within m) (h : m ≤ n) : s.Within n := fun k hk => (hs k hk).trans h

theorem of_none (h : s.tokenBlockNumber = none) (n : UInt64) : s.Within n := by
  intro k hk
  rw [h] at hk
  cases hk

end BalanceSums.Within

end TorrentNode
