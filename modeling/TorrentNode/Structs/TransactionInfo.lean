import TorrentNode.Structs.Common

/-!
# Transactions and their statuses

`blockchain_structs/TransactionInfo`. A 64-bit signed field is kept as the
`UInt64` of its bits, which is also how it is serialised.
-/

namespace TorrentNode

open CursorReader

/-! ## TransactionStatus -/

/-- The variant inside `TransactionStatus`. -/
inductive TransactionStatus.Kind where
  | monostate
  | delegate
  | unDelegate (value : UInt64) (delegateHash : Blob)
  | v8Status (isServerError isScriptError : Bool) (compiledContractAddress : Address)
  deriving DecidableEq

/-- What came of a transaction in a block. -/
structure TransactionStatus where
  isSuccess : Bool
  transaction : Blob
  blockNumber : UInt64
  status : TransactionStatus.Kind
  deriving DecidableEq

namespace TransactionStatus

/-- `TransactionStatus(txHash, blockNumber)`; the constructor leaves `isSuccess` alone. -/
def new (txHash : Blob) (blockNumber : UInt64) : TransactionStatus :=
  { isSuccess := false, transaction := txHash, blockNumber, status := .monostate }

namespace Kind

/-- `status.index()`. -/
def index : Kind → Nat
  | monostate => 0
  | delegate => 1
  | unDelegate _ _ => 2
  | v8Status _ _ _ => 3

/-- `serialize` of the alternative that is held. -/
def serialize : Kind → Except Err Bytes
  | monostate => pure []
  | delegate => pure []
  | unDelegate value delegateHash => pure (serializeUInt64 value ++ serializeString delegateHash)
  | v8Status isServerError isScriptError compiledContractAddress => do
    let isEmpty ← compiledContractAddress.isEmpty
    let contract ← if isEmpty then pure ∅ else compiledContractAddress.getBinaryString
    pure (serializeBool isServerError ++ serializeBool isScriptError ++ serializeString contract)

/-- `deserializeVarint` at the type of `status`. -/
def deserialize : Deserializer Kind := do
  let number ← deserializeUInt64
  if 4 ≤ number then fail (.exception "Incorrect type in transaction status") else
    if number = 1 then pure delegate
    else if number = 2 then do
      let value ← deserializeUInt64
      let delegateHash ← deserializeString
      pure (unDelegate value delegateHash)
    else if number = 3 then do
      let isServerError ← deserializeBool
      let isScriptError ← deserializeBool
      let addressString ← deserializeString
      pure (v8Status isServerError isScriptError
        (if addressString.isEmpty then Address.unset.setEmpty else Address.ofBlob addressString))
    else pure monostate

end Kind

/-- The stored form; a status without a kind is refused. -/
def serialize (s : TransactionStatus) : Except Err Bytes := do
  check (s.status.index != 0) "Status not set"
  let kind ← s.status.serialize
  pure (serializeBool s.isSuccess ++ serializeUInt64 s.blockNumber ++
    serializeString s.transaction ++ serializeUInt64 (UInt64.ofNat s.status.index) ++ kind)

/-- What `deserialize` does with the input. -/
def reader : Deserializer TransactionStatus := do
  let isSuccess ← deserializeBool
  let blockNumber ← deserializeUInt64
  let transaction ← deserializeString
  let status ← Kind.deserialize
  pure { isSuccess, transaction, blockNumber, status }

/-- What is stored, which must have a kind. -/
def deserialize (raw : Blob) : Except Err TransactionStatus := do
  let result ← deserializeAll reader raw
  check (result.status.index != 0) "Incorrect deserialize"
  pure result

/-- The alternative as it is read back: an address from the bytes it is stored by. -/
def Kind.stored : Kind → Kind
  | .v8Status isServerError isScriptError address =>
    .v8Status isServerError isScriptError
      (if address.address.isEmpty then Address.unset.setEmpty else Address.ofBlob address.address)
  | kind => kind

/-- A status as it is read back. -/
def stored (s : TransactionStatus) : TransactionStatus := { s with status := s.status.stored }

theorem Kind.index_stored (k : Kind) : k.stored.index = k.index := by
  cases k <;> rfl

theorem Kind.reads {k : Kind} {raw : Bytes} (hk : k.index ≠ 0) (h : k.serialize = .ok raw) :
    Reads Kind.deserialize (serializeUInt64 (UInt64.ofNat k.index) ++ raw) k.stored := by
  refine (reads_uint64 _).bind ?_
  -- One case per constructor: the number that stands in front tells which fields follow.
  cases k with
  | monostate => exact absurd rfl hk
  | delegate =>
      obtain rfl := Except.ok.inj h
      exact Decodes.pure _
  | unDelegate value delegateHash =>
      obtain rfl := Except.ok.inj h
      exact (reads_uint64 value).bind ((reads_string delegateHash).map
        (f := fun hash => Kind.unDelegate value hash))
  | v8Status isServerError isScriptError address =>
      obtain ⟨isEmpty, hempty, h⟩ := bind_eq_ok.mp h
      obtain ⟨hset, hempty⟩ := check_bind_eq_ok.mp hempty
      obtain rfl := Except.ok.inj hempty
      have hraw : serializeBool isServerError ++ serializeBool isScriptError ++
          serializeString address.address = raw := by
        cases he : address.address.isEmpty with
        | true =>
            have hname : address.address = ∅ := Subtype.ext (Blob.isEmpty_iff.mp he)
            rw [he] at h
            rw [hname]
            exact Except.ok.inj h
        | false =>
            rw [he] at h
            simp only [Bool.false_eq_true, if_false, Address.getBinaryString, hset, check_true, he]
              at h
            exact Except.ok.inj h
      subst hraw
      rw [List.append_assoc]
      exact (reads_bool isServerError).bind ((reads_bool isScriptError).bind
        ((reads_string address.address).map (f := fun addressString =>
          Kind.v8Status isServerError isScriptError
            (if addressString.isEmpty then Address.unset.setEmpty
              else Address.ofBlob addressString))))

/-- **A stored status reads back.** -/
theorem reads {s : TransactionStatus} {raw : Bytes} (h : s.serialize = .ok raw) :
    Reads reader raw s.stored ∧ s.status.index ≠ 0 := by
  obtain ⟨hindex, h⟩ := check_bind_eq_ok.mp h
  obtain ⟨kind, hkind, h⟩ := bind_eq_ok.mp h
  have hraw := (Except.ok.inj h).symm
  simp only [List.append_assoc] at hraw
  have hne : s.status.index ≠ 0 := bne_iff_ne.mp hindex
  subst hraw
  exact ⟨(reads_bool s.isSuccess).bind ((reads_uint64 s.blockNumber).bind
    ((reads_string s.transaction).bind ((Kind.reads hne hkind).map
      (f := fun status => ({ s with status } : TransactionStatus))))), hne⟩

theorem deserialize_serialize {s : TransactionStatus} {raw : Blob}
    (h : s.serialize = .ok raw.val) : deserialize raw = .ok s.stored := by
  obtain ⟨hread, hne⟩ := reads h
  unfold deserialize
  rw [deserializeAll_of_reads hread]
  refine check_bind_eq_ok.mpr ⟨?_, rfl⟩
  show (s.status.stored.index != 0) = true
  rw [Kind.index_stored]
  exact bne_iff_ne.mpr hne

end TransactionStatus

/-! ## TransactionInfo -/

/-- What the data of a transaction say about a delegation. -/
structure DelegateInfo where
  value : UInt64
  isDelegate : Bool
  deriving DecidableEq

/-- `enum class ScriptType`. -/
inductive ScriptType where
  | compile
  | run
  | pay
  | unknown
  deriving DecidableEq

/-- What the data of a transaction say about a contract. -/
structure ScriptInfo where
  txRaw : Blob
  type : ScriptType
  deriving DecidableEq

/-- The variant inside `TokenInfo`. -/
inductive TokenInfo where
  | create (type : Blob) (owner : Address) (decimals : UInt32) (value : UInt64)
      (symbol name : Blob) (emission : Bool) (beginDistribution : List (Address × UInt64))
  | changeOwner (newOwner : Address)
  | changeEmission (newEmission : Bool)
  | addTokens (toAddress : Address) (value : UInt64)
  | moveTokens (toAddress : Address) (value : UInt64)
  | burnTokens (value : UInt64)
  deriving DecidableEq

/-- `TransactionInfo`: a transaction with its place in a file and in the chain. -/
structure TransactionInfo where
  hash : Blob
  fromAddress : Address
  toAddress : Address
  value : UInt64
  fees : UInt64
  nonce : UInt64
  blockNumber : UInt64
  blockIndex : UInt64
  sizeRawTx : UInt64
  isSignBlockTx : Bool
  isModuleNotSet : Bool
  intStatus : Option UInt64
  sign : Blob
  pubKey : Blob
  data : Blob
  allRawTx : Blob
  filePos : FilePosition
  delegate : Option DelegateInfo
  scriptInfo : Option ScriptInfo
  tokenInfo : Option TokenInfo
  status : Option TransactionStatus
  deriving DecidableEq

instance : Inhabited TransactionInfo :=
  ⟨{ hash := ∅, fromAddress := default, toAddress := default, value := 0, fees := 0, nonce := 0,
     blockNumber := 0, blockIndex := 0, sizeRawTx := 0, isSignBlockTx := false,
     isModuleNotSet := false, intStatus := none, sign := ∅, pubKey := ∅, data := ∅,
     allRawTx := ∅, filePos := default, delegate := none, scriptInfo := none, tokenInfo := none,
     status := none }⟩

namespace TransactionInfo

/-- The sender had not enough. -/
def TX_STATE_WRONG_MONEY : UInt64 := 30

/-- The data were wrong. -/
def TX_STATE_WRONG_DATA : UInt64 := 40

/-- Forging. -/
def TX_STATE_FORGING : UInt64 := 100

/-- Forging of the kind `W`. -/
def TX_STATE_FORGING_W : UInt64 := 101

/-- Forging of the kind `N`. -/
def TX_STATE_FORGING_N : UInt64 := 102

/-- Forging of the kind `C`. -/
def TX_STATE_FORGING_C : UInt64 := 103

/-- Forging of the kind `A`. -/
def TX_STATE_FORGING_A : UInt64 := 104

/-- A test of a node. -/
def TX_STATE_TECH_NODE_STAT : UInt64 := 0x1101

/-- `serialize`: only where the transaction lies. -/
def serialize (tx : TransactionInfo) : Except Err Bytes := do
  check (tx.blockNumber != 0) "block number not setted"
  let filePos ← tx.filePos.serialize
  pure (filePos ++ serializeUInt64 tx.blockNumber ++ serializeUInt64 tx.blockIndex)

/-- What is paid: the size beyond 255 bytes, and no more than was offered. -/
def realFee (tx : TransactionInfo) : Except Err UInt64 := do
  check (decide (0 < tx.sizeRawTx)) "Size raw tx not set"
  let bySize := if 255 < tx.sizeRawTx then tx.sizeRawTx - 255 else 0
  pure (if tx.fees < bySize then tx.fees else bySize)

/-- What comes of it is not settled by the block alone. -/
def isStatusNeed (tx : TransactionInfo) : Bool := tx.delegate.isSome || tx.scriptInfo.isSome

/-- The sender had not enough. -/
def isIntStatusNoBalance (tx : TransactionInfo) : Bool := tx.intStatus == some TX_STATE_WRONG_MONEY

/-- The block says that it failed. -/
def isIntStatusNotSuccess (tx : TransactionInfo) : Bool :=
  tx.intStatus == some TX_STATE_WRONG_MONEY || tx.intStatus == some TX_STATE_WRONG_DATA

/-- The statuses of forging transactions. -/
def getForgingIntStatuses : List UInt64 :=
  [TX_STATE_FORGING, TX_STATE_FORGING_C, TX_STATE_FORGING_N, TX_STATE_FORGING_W,
   TX_STATE_FORGING_A]

/-- It is a forging transaction. -/
def isIntStatusForging (tx : TransactionInfo) : Bool :=
  tx.intStatus.any getForgingIntStatuses.contains

/-- It is a test of a node. -/
def isIntStatusNodeTest (tx : TransactionInfo) : Bool :=
  tx.intStatus == some TX_STATE_TECH_NODE_STAT

end TransactionInfo

end TorrentNode
