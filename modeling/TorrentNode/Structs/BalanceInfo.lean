import TorrentNode.Lib.Merge
import TorrentNode.Structs.Records
import TorrentNode.Structs.TransactionInfo

/-!
# Balances (`blockchain_structs/BalanceInfo`)

A balance counts what came in and what went out, both modulo `2 ^ 64`, and
rebases the pair when a counter is about to pass the limit.
-/

namespace TorrentNode

open CursorReader

/-- A pair of counters, what came in and what went out. -/
structure BalanceElement where
  received : UInt64
  spent : UInt64
  deriving DecidableEq

instance : Inhabited BalanceElement := ⟨⟨0, 0⟩⟩

namespace BalanceElement

/-- What is left of what came in. -/
def balance (b : BalanceElement) : UInt64 := b.received - b.spent

/-- More came in; a counter that would pass the limit is rebased first. -/
def receiveValue (b : BalanceElement) (value : UInt64) : BalanceElement :=
  let b := if 0xFFFFFFFFFFFFFFFF - value ≤ b.received then ⟨b.balance, 0⟩ else b
  { b with received := b.received + value }

/-- More went out; likewise. -/
def spentValue (b : BalanceElement) (value : UInt64) : BalanceElement :=
  let b := if 0xFFFFFFFFFFFFFFFF - value ≤ b.spent then ⟨b.balance, 0⟩ else b
  { b with spent := b.spent + value }

end BalanceElement

/-- `DelegateBalance`; `delegate` spends by delegating and `delegated` receives by it. -/
structure DelegateBalance where
  delegate : BalanceElement
  delegated : BalanceElement
  reserved : UInt64
  countOp : UInt64
  deriving DecidableEq

instance : Inhabited DelegateBalance := ⟨⟨default, default, 0, 0⟩⟩

/-- What was forged for an address, and how often. -/
structure ForgedBalance where
  forged : UInt64
  countOp : UInt64
  deriving DecidableEq

instance : Inhabited ForgedBalance := ⟨⟨0, 0⟩⟩

/-- What an address has of a token, and how often that changed. -/
structure TokenBalance where
  balance : BalanceElement
  countOp : UInt64
  countReceived : UInt64
  countSpent : UInt64
  deriving DecidableEq

instance : Inhabited TokenBalance := ⟨⟨default, 0, 0, 0⟩⟩

/-- `struct BalanceInfo`; its `hash` is never set. -/
structure BalanceInfo where
  balance : BalanceElement
  countReceived : UInt64
  countSpent : UInt64
  countTxs : UInt64
  delegated : Option DelegateBalance
  forged : Option ForgedBalance
  blockNumber : UInt64
  tokenBlockNumber : Option UInt64
  tokens : OrdMap Blob TokenBalance
  deriving DecidableEq

instance : Inhabited BalanceInfo :=
  ⟨{ balance := default, countReceived := 0, countSpent := 0, countTxs := 0, delegated := none,
     forged := none, blockNumber := 0, tokenBlockNumber := none, tokens := ∅ }⟩

namespace BalanceInfo

/-- `plusWithDelegate`: a delegation, or one that is taken back, on either side of it. -/
def plusWithDelegate (b : BalanceInfo) (tx : TransactionInfo) (address : Address)
    (undelegateValue : Option UInt64) (isOkStatus : Bool) : Except Err BalanceInfo := do
  match tx.delegate with
  | none => .error (.exception "Tx not delegate")
  | some info =>
    let d := b.delegated.getD default
    let d := { d with countOp := d.countOp + 1 }
    let isFrom ← tx.fromAddress.eq address
    let (balance, d) ←
      if !isOkStatus then pure (b.balance, d)
      else do
        let (balance, d) ←
          if !isFrom then pure (b.balance, d)
          else if info.isDelegate then
            pure (b.balance.spentValue info.value,
              { d with delegate := d.delegate.spentValue info.value })
          else match undelegateValue with
            | none => .error (.exception "Undelegate value not set")
            | some v => pure (b.balance.receiveValue v,
              { d with delegate := d.delegate.receiveValue v })
        let isTo ← tx.toAddress.eq address
        if !isTo then pure (balance, d)
        else if info.isDelegate then
          pure (balance, { d with delegated := d.delegated.receiveValue info.value })
        else match undelegateValue with
          | none => .error (.exception "Undelegate value not set")
          | some v => pure (balance, { d with delegated := d.delegated.spentValue v })
    let d := if isFrom && info.isDelegate then { d with reserved := d.reserved - info.value } else d
    pure { b with balance, delegated := some d }

/-- `plusWithoutDelegate`: any other transaction, on either side of it. -/
def plusWithoutDelegate (b : BalanceInfo) (tx : TransactionInfo) (address : Address)
    (changeBalance isForging : Bool) : Except Err BalanceInfo := do
  let isFrom ← tx.fromAddress.eq address
  let b ←
    if !isFrom then pure b
    else do
      let balance ←
        if !changeBalance then pure b.balance
        else do
          let realFee ← tx.realFee
          pure (b.balance.spentValue (tx.value + realFee))
      pure { b with countSpent := b.countSpent + 1, balance,
                    blockNumber := max b.blockNumber tx.blockNumber }
  let isTo ← tx.toAddress.eq address
  let b :=
    if !isTo then b
    else { b with
      countReceived := b.countReceived + 1
      balance := if changeBalance then b.balance.receiveValue tx.value else b.balance
      blockNumber := max b.blockNumber tx.blockNumber }
  let b := { b with countTxs := b.countTxs + 1 }
  let b :=
    match tx.delegate with
    | none => b
    | some info =>
      let d := b.delegated.getD default
      { b with delegated :=
          if info.isDelegate && isFrom then some { d with reserved := d.reserved + info.value }
          else some d }
  if isForging && isTo then
    let f := b.forged.getD default
    pure { b with forged := some { forged := f.forged + tx.value, countOp := f.countOp + 1 } }
  else pure b

/-- Change the balance of one token, which starts at zero. -/
def updateToken (b : BalanceInfo) (token : Blob) (f : TokenBalance → TokenBalance) : BalanceInfo :=
  { b with tokens := b.tokens.insert token (f ((b.tokens.find? token).getD default)) }

/-- `addTokens`: an address comes by tokens that did not exist. -/
def addTokens (b : BalanceInfo) (tx : TransactionInfo) (value : UInt64) (isOkStatus : Bool) :
    Except Err BalanceInfo := do
  if !isOkStatus || tx.tokenInfo.isNone then pure b
  else do
    let token ← tx.toAddress.getBinaryString
    let b := b.updateToken token (fun t =>
      { t with countOp := t.countOp + 1, countReceived := t.countReceived + 1,
               balance := t.balance.receiveValue value })
    pure { b with tokenBlockNumber := some tx.blockNumber }

/-- `moveTokens`: tokens leave an address or come to it, or both. -/
def moveTokens (b : BalanceInfo) (tx : TransactionInfo) (address toAddress : Address)
    (value : UInt64) (isOkStatus : Bool) : Except Err BalanceInfo := do
  if !isOkStatus || tx.tokenInfo.isNone then pure b
  else do
    let isFrom ← tx.fromAddress.eq address
    let token ← tx.toAddress.getBinaryString
    let b := if !isFrom then b else b.updateToken token (fun t =>
      { t with countSpent := t.countSpent + 1, balance := t.balance.spentValue value })
    let isTo ← toAddress.eq address
    let b := if !isTo then b else b.updateToken token (fun t =>
      { t with countReceived := t.countReceived + 1, balance := t.balance.receiveValue value })
    let b := b.updateToken token (fun t => { t with countOp := t.countOp + 1 })
    pure { b with tokenBlockNumber := some tx.blockNumber }

/-- Add up two optional parts, an absent one counting as the default. -/
def addOpt {α : Type} [Inhabited α] (f : α → α → α) (a b : Option α) : Option α :=
  match b with
  | none => a
  | some b => some (f (a.getD default) b)

/-- `operator+`. -/
def add (b second : BalanceInfo) : BalanceInfo :=
  { balance := (b.balance.receiveValue second.balance.received).spentValue second.balance.spent
    countReceived := b.countReceived + second.countReceived
    countSpent := b.countSpent + second.countSpent
    countTxs := b.countTxs + second.countTxs
    delegated := addOpt (fun d e =>
      { countOp := d.countOp + e.countOp
        delegate := (d.delegate.spentValue e.delegate.spent).receiveValue e.delegate.received
        delegated := (d.delegated.receiveValue e.delegated.received).spentValue e.delegated.spent
        reserved := d.reserved + e.reserved }) b.delegated second.delegated
    forged := addOpt (fun f g => { countOp := f.countOp + g.countOp, forged := f.forged + g.forged })
      b.forged second.forged
    tokens := second.tokens.entries.foldl (fun m e =>
      let t := (m.find? e.1).getD default
      m.insert e.1
        { balance := (t.balance.receiveValue e.2.balance.received).spentValue e.2.balance.spent
          countOp := t.countOp + e.2.countOp
          countReceived := t.countReceived + e.2.countReceived
          countSpent := t.countSpent + e.2.countSpent }) b.tokens
    blockNumber := max b.blockNumber second.blockNumber
    tokenBlockNumber :=
      match b.tokenBlockNumber, second.tokenBlockNumber with
      | some m, some n => some (max m n)
      | none, n => n
      | m, none => m }

/-- The bits of `calcBalanceWithoutDelegate()`. -/
def calcBalanceWithoutDelegate (b : BalanceInfo) : UInt64 :=
  b.balance.balance +
    (match b.delegated with
      | none => 0
      | some d => d.delegate.spent - d.delegate.received)

/-- The stored form. What is optional stands behind the tokens, each part with a letter. -/
def serialize (b : BalanceInfo) : Except Err Bytes :=
  pure (serializeUInt64 b.balance.received ++ serializeUInt64 b.balance.spent ++
    serializeUInt64 b.countReceived ++ serializeUInt64 b.countSpent ++
    serializeUInt64 b.blockNumber ++ serializeUInt64 b.countTxs ++
    serializeInt sizeofSizeT b.tokens.entries.length ++
    b.tokens.entries.flatMap (fun e =>
      serializeString e.1 ++ serializeUInt64 e.2.balance.received ++
        serializeUInt64 e.2.balance.spent ++ serializeUInt64 e.2.countOp ++
        serializeUInt64 e.2.countReceived ++ serializeUInt64 e.2.countSpent) ++
    (match b.delegated with
      | none => []
      | some d => ascii ['d'] ++ serializeUInt64 d.countOp ++ serializeUInt64 d.delegate.spent ++
          serializeUInt64 d.delegate.received ++ serializeUInt64 d.delegated.received ++
          serializeUInt64 d.delegated.spent ++ serializeUInt64 d.reserved) ++
    (match b.forged with
      | none => []
      | some f => ascii ['f'] ++ serializeUInt64 f.countOp ++ serializeUInt64 f.forged) ++
    (match b.tokenBlockNumber with
      | none => []
      | some n => ascii ['t'] ++ serializeUInt64 n))

/-- One token of a stored balance. -/
def deserializeToken : Deserializer (Blob × TokenBalance) := do
  let token ← deserializeString
  let received ← deserializeUInt64
  let spent ← deserializeUInt64
  let countOp ← deserializeUInt64
  let countReceived ← deserializeUInt64
  let countSpent ← deserializeUInt64
  pure (token, { balance := ⟨received, spent⟩, countOp, countReceived, countSpent })

/-- The tagged parts at the end of a stored balance. Each takes at least a byte, so as many rounds
as there are bytes are enough. -/
def deserializeParts : Nat → BalanceInfo → Deserializer BalanceInfo
  | 0, b => pure b
  | fuel + 1, b => do
    let raw ← input
    let fromPos ← position
    if raw.length ≤ fromPos then pure b
    else do
      let nextType ← deserializeInt 1
      if nextType = 100 then do
        let countOp ← deserializeUInt64
        let delegate ← deserializeUInt64
        let undelegate ← deserializeUInt64
        let delegated ← deserializeUInt64
        let undelegated ← deserializeUInt64
        let reserved ← deserializeUInt64
        let d : DelegateBalance :=
          { countOp, delegate := ⟨undelegate, delegate⟩, delegated := ⟨delegated, undelegated⟩,
            reserved }
        deserializeParts fuel { b with delegated := some d }
      else if nextType = 102 then do
        let countOp ← deserializeUInt64
        let forged ← deserializeUInt64
        deserializeParts fuel { b with forged := some { countOp, forged } }
      else if nextType = 116 then do
        let tokenBlockNumber ← deserializeUInt64
        deserializeParts fuel { b with tokenBlockNumber := some tokenBlockNumber }
      else fail (.exception ("Incorrect type balance " ++
        String.ofList [Char.ofNat nextType]))

/-- What `deserialize` does with the input. -/
def reader (size : Nat) : Deserializer BalanceInfo := do
  let received ← deserializeUInt64
  let spent ← deserializeUInt64
  let countReceived ← deserializeUInt64
  let countSpent ← deserializeUInt64
  let blockNumber ← deserializeUInt64
  let countTxs ← deserializeUInt64
  let countTokens ← deserializeInt sizeofSizeT
  let tokens ← replicateM deserializeToken countTokens
  deserializeParts size
    { (default : BalanceInfo) with
      balance := ⟨received, spent⟩, countReceived, countSpent, blockNumber, countTxs
      tokens := tokens.foldl (fun m e => m.emplace e.1 e.2) ∅ }

/-- What is read of a stored balance; of nothing the empty one. -/
def deserialize (raw : Blob) : Except Err BalanceInfo :=
  deserializeOr default (reader raw.size) raw

/-! ## A stored balance reads back -/

theorem reads_token (e : Blob × TokenBalance) :
    Reads deserializeToken (serializeString e.1 ++ serializeUInt64 e.2.balance.received ++
      serializeUInt64 e.2.balance.spent ++ serializeUInt64 e.2.countOp ++
      serializeUInt64 e.2.countReceived ++ serializeUInt64 e.2.countSpent) e := by
  simp only [List.append_assoc]
  exact (reads_string e.1).bind ((reads_uint64 _).bind ((reads_uint64 _).bind ((reads_uint64 _).bind
    ((reads_uint64 _).bind (reads_uint64 _).map))))

section Parts

variable {fuel : Nat} {b b' : BalanceInfo} {xs : Bytes}

theorem readsEnd_nothing (fuel : Nat) (b : BalanceInfo) : ReadsEnd (deserializeParts fuel b) [] b := by
  cases fuel with
  | zero => exact DecodesEnd.pure b
  | succ fuel =>
      refine DecodesEnd.here (fun raw pos hat => ?_)
      rw [if_pos (List.drop_eq_nil_iff.mp hat)]
      exact DecodesEnd.pure b

/-- There is one more part, with this tag. -/
theorem readsEnd_tag {tag : Nat} {r : Nat → Deserializer BalanceInfo} (htag : tag < 256)
    (h : ReadsEnd (r tag) xs b') {raw : Bytes} {pos : Nat}
    (hat : raw.drop pos = serializeInt 1 tag ++ xs) :
    ReadsEnd (if raw.length ≤ pos then pure b else do
      let nextType ← deserializeInt 1
      r nextType) (serializeInt 1 tag ++ xs) b' := by
  have hlen := congrArg List.length hat
  rw [List.length_drop, List.length_append, length_serializeInt] at hlen
  rw [if_neg (by omega)]
  exact DecodesEnd.bind (reads_int (by decide) htag) h

theorem readsEnd_tokenBlockNumber {n : UInt64}
    (h : ReadsEnd (deserializeParts fuel { b with tokenBlockNumber := some n }) xs b') :
    ReadsEnd (deserializeParts (fuel + 1) b) (ascii ['t'] ++ serializeUInt64 n ++ xs) b' := by
  rw [List.append_assoc]
  exact DecodesEnd.here (fun raw pos hat => readsEnd_tag (show 116 < 256 by decide)
    (DecodesEnd.bind (reads_uint64 n) h) hat)

theorem readsEnd_forged {f : ForgedBalance}
    (h : ReadsEnd (deserializeParts fuel { b with forged := some f }) xs b') :
    ReadsEnd (deserializeParts (fuel + 1) b)
      (ascii ['f'] ++ serializeUInt64 f.countOp ++ serializeUInt64 f.forged ++ xs) b' := by
  simp only [List.append_assoc]
  exact DecodesEnd.here (fun raw pos hat => readsEnd_tag (show 102 < 256 by decide)
    (DecodesEnd.bind (reads_uint64 f.countOp) (DecodesEnd.bind (reads_uint64 f.forged) h)) hat)

theorem readsEnd_delegated {d : DelegateBalance}
    (h : ReadsEnd (deserializeParts fuel { b with delegated := some d }) xs b') :
    ReadsEnd (deserializeParts (fuel + 1) b)
      (ascii ['d'] ++ serializeUInt64 d.countOp ++ serializeUInt64 d.delegate.spent ++
        serializeUInt64 d.delegate.received ++ serializeUInt64 d.delegated.received ++
        serializeUInt64 d.delegated.spent ++ serializeUInt64 d.reserved ++ xs) b' := by
  simp only [List.append_assoc]
  exact DecodesEnd.here (fun raw pos hat => readsEnd_tag (show 100 < 256 by decide)
    (DecodesEnd.bind (reads_uint64 d.countOp) (DecodesEnd.bind (reads_uint64 d.delegate.spent)
      (DecodesEnd.bind (reads_uint64 d.delegate.received)
        (DecodesEnd.bind (reads_uint64 d.delegated.received)
          (DecodesEnd.bind (reads_uint64 d.delegated.spent)
            (DecodesEnd.bind (reads_uint64 d.reserved) h)))))) hat)

/-- The bytes of the delegations, if there are any. -/
def delegatedPart : Option DelegateBalance → Bytes
  | none => []
  | some d => ascii ['d'] ++ serializeUInt64 d.countOp ++ serializeUInt64 d.delegate.spent ++
      serializeUInt64 d.delegate.received ++ serializeUInt64 d.delegated.received ++
      serializeUInt64 d.delegated.spent ++ serializeUInt64 d.reserved

/-- The bytes of what was forged, if anything was. -/
def forgedPart : Option ForgedBalance → Bytes
  | none => []
  | some f => ascii ['f'] ++ serializeUInt64 f.countOp ++ serializeUInt64 f.forged

/-- The bytes of the block of a token, if it has one. -/
def tokenBlockNumberPart : Option UInt64 → Bytes
  | none => []
  | some n => ascii ['t'] ++ serializeUInt64 n

/-- What the three parts add to the balance. -/
theorem readsEnd_parts (fuel : Nat) (b : BalanceInfo) :
    ReadsEnd (deserializeParts (fuel + 3)
      { b with delegated := none, forged := none, tokenBlockNumber := none })
      (delegatedPart b.delegated ++ (forgedPart b.forged ++ tokenBlockNumberPart b.tokenBlockNumber))
      b := by
  rcases b with ⟨balance, countReceived, countSpent, countTxs, delegated, forged, blockNumber,
    tokenBlockNumber, tokens⟩
  have hlast : ∀ {fuel : Nat} {delegated : Option DelegateBalance} {forged : Option ForgedBalance},
      ReadsEnd (deserializeParts (fuel + 1) ⟨balance, countReceived, countSpent, countTxs, delegated,
        forged, blockNumber, none, tokens⟩) (tokenBlockNumberPart tokenBlockNumber)
        ⟨balance, countReceived, countSpent, countTxs, delegated, forged, blockNumber,
          tokenBlockNumber, tokens⟩ := by
    intro fuel delegated forged
    cases tokenBlockNumber with
    | none => exact readsEnd_nothing _ _
    | some n =>
        have h := @readsEnd_tokenBlockNumber fuel ⟨balance, countReceived, countSpent, countTxs, delegated,
          forged, blockNumber, none, tokens⟩ _ _ n (readsEnd_nothing _ _)
        rwa [List.append_nil] at h
  have hforged : ∀ {fuel : Nat} {delegated : Option DelegateBalance},
      ReadsEnd (deserializeParts (fuel + 2) ⟨balance, countReceived, countSpent, countTxs, delegated,
        none, blockNumber, none, tokens⟩)
        (forgedPart forged ++ tokenBlockNumberPart tokenBlockNumber)
        ⟨balance, countReceived, countSpent, countTxs, delegated, forged, blockNumber,
          tokenBlockNumber, tokens⟩ := by
    intro fuel delegated
    cases forged with
    | none => exact hlast
    | some f => exact readsEnd_forged hlast
  cases delegated with
  | none => exact hforged
  | some d => exact readsEnd_delegated hforged

end Parts

/-- What is written when the map of the tokens is walked in this order; the order of an
`unordered_map` is not defined, and `serialize` is the case of that of the keys. -/
def written (b : BalanceInfo) (tokens : List (Blob × TokenBalance)) : Bytes :=
  serializeUInt64 b.balance.received ++ serializeUInt64 b.balance.spent ++
    serializeUInt64 b.countReceived ++ serializeUInt64 b.countSpent ++
    serializeUInt64 b.blockNumber ++ serializeUInt64 b.countTxs ++
    serializeInt sizeofSizeT tokens.length ++
    tokens.flatMap (fun e =>
      serializeString e.1 ++ serializeUInt64 e.2.balance.received ++
        serializeUInt64 e.2.balance.spent ++ serializeUInt64 e.2.countOp ++
        serializeUInt64 e.2.countReceived ++ serializeUInt64 e.2.countSpent) ++
    delegatedPart b.delegated ++ forgedPart b.forged ++ tokenBlockNumberPart b.tokenBlockNumber

theorem serialize_eq (b : BalanceInfo) : b.serialize = .ok (b.written b.tokens.entries) := rfl

/-- **A written balance reads back**, and the reader ends behind it. -/
theorem reader_written {b : BalanceInfo} {tokens : List (Blob × TokenBalance)} {raw : Blob}
    (htokens : tokens.Perm b.tokens.entries) (hraw : raw.val = b.written tokens) :
    (reader raw.size).runFrom raw.val 0 = .ok (b, raw.size) ∧ raw ≠ ∅ := by
  simp only [written, List.append_assoc] at hraw
  have hlen := raw.property
  have hsize := congrArg List.length hraw
  simp only [List.length_append, length_serializeUInt64, length_serializeInt] at hsize
  -- a token takes at least a byte
  have hcount : tokens.length ≤ (tokens.flatMap (fun e =>
      serializeString e.1 ++ (serializeUInt64 e.2.balance.received ++
        (serializeUInt64 e.2.balance.spent ++ (serializeUInt64 e.2.countOp ++
          (serializeUInt64 e.2.countReceived ++ serializeUInt64 e.2.countSpent)))))).length := by
    refine length_le_flatMap (fun e _ => ?_)
    simp only [List.length_append, length_serializeUInt64, sizeofSizeT]
    omega
  obtain ⟨fuel, hfuel⟩ : ∃ fuel, raw.size = fuel + 3 :=
    ⟨raw.size - 3, by unfold Blob.size sizeofSizeT at *; omega⟩
  -- The seven numbers, the tokens one by one, and the optional parts behind them.
  have hread : ReadsEnd (reader raw.size) raw.val b := by
    rw [hraw, hfuel]
    refine DecodesEnd.bind (reads_uint64 _) (DecodesEnd.bind (reads_uint64 _)
      (DecodesEnd.bind (reads_uint64 _) (DecodesEnd.bind (reads_uint64 _)
        (DecodesEnd.bind (reads_uint64 _) (DecodesEnd.bind (reads_uint64 _)
          (DecodesEnd.bind (reads_int (by decide) ?_)
            (DecodesEnd.bind (Decodes.replicateM (fun e _ => ?_)) ?_)))))))
    · show tokens.length < 256 ^ 8
      omega
    · have h := reads_token e
      simp only [List.append_assoc] at h
      exact h
    · rw [OrdMap.foldl_emplace_of_perm htokens]
      exact readsEnd_parts fuel b
  refine ⟨hread.run hlen, ?_⟩
  rintro rfl
  exact absurd hfuel (by simp [Blob.size, EmptyCollection.emptyCollection])

/-- **A stored balance reads back.** -/
theorem deserialize_serialize {b : BalanceInfo} {raw : Blob} (h : b.serialize = .ok raw.val) :
    deserialize raw = .ok b := by
  obtain ⟨hread, hne⟩ := reader_written (List.Perm.refl _) (Except.ok.inj h).symm
  exact deserializeOr_of_run hne hread

end BalanceInfo

end TorrentNode
