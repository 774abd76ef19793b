import TorrentNode.Parsing.VarInt
import TorrentNode.Structs.BlockInfo
import TorrentNode.Structs.Json
import TorrentNode.Structs.SignBlock

/-!
# Reading transactions (`BlockchainRead.cpp`)

A transaction of any kind is a frame with its size in front of it. The reader of a
frame sees nothing behind it: its `end_pos` is the end of the frame. Where it stops
is the cursor that it gives back.

A sum `cur_pos + size` of the source is a pointer, here it is a number: a size for which
the pointer wraps around is one that leads out of the array.
-/

namespace TorrentNode

open CursorReader

/--
The code that the readers call, whether `modules[MODULE_V8]` is set, and what the memory
holds of a `DelegateInfo` that is made for the transaction at a position.
-/
structure ParseEnv where
  get_double_sha256 : Bytes → Blob
  get_address_bin : Blob → Except Err Blob
  crypto_check_sign_data : (sign pubkey : Blob) → (data : Bytes) → Except Err Bool
  Parse : Bytes → Option Json
  fromHex : Bytes → Except Err Blob
  moduleV8 : Bool
  uninitialized : Nat → UInt64

/-- The same code at another time. -/
def ParseEnv.withMemory (env : ParseEnv) (memory : UInt64) : ParseEnv :=
  { env with uninitialized := fun _ => memory }

/-- The size of a transaction, and `CHECK(cur_pos + tx_size <= end_pos)`. -/
def readTxSize : Deserializer UInt64 := do
  let tx_size ← readVarInt
  let raw ← input
  let cur_pos ← position
  if raw.length < cur_pos + tx_size.toNat then fail (.exception "Out of the array")
  else pure tx_size

/-- A transaction of a block of signatures or of rejections: its size, and what `r` reads of the
frame. The cursor of the source's tuple is that of the reader. -/
def readFramed {α : Type} (r : Deserializer α) (txInfo : α) : Deserializer (Bool × UInt64 × α) := do
  let tx_size ← readTxSize
  if tx_size = 0 then pure (false, 0, txInfo) else do
    let txInfo ← within tx_size.toNat r
    pure (true, tx_size, txInfo)

/-- A size and as many bytes. -/
def readCounted : Deserializer Blob := do
  let size ← readVarInt
  readBytes size.toNat

/-! ## Transactions of signature blocks -/

/-- The address of a key: `get_address_bin`, which finds none for some keys. -/
def ParseEnv.addressOf (env : ParseEnv) (pubkey : Blob) : Except Err Blob := do
  let binAddress ← env.get_address_bin pubkey
  check (!binAddress.isEmpty) "incorrect pubkey script"
  pure binAddress

/-- The hash of the block, the signature and the key. -/
def readSignFields : Deserializer (Blob × Blob × Blob) := do
  let blockHash ← readBytes 32
  let sign ← readCounted
  let pubkey ← readCounted
  pure (blockHash, sign, pubkey)

/-- What is behind the size in `readSignTransactionInfo`. -/
def readSignFrame (env : ParseEnv) : Deserializer SignTransactionInfo := do
  let (blockHash, sign, pubkey) ← readSignFields
  lift (do
    let binAddress ← env.addressOf pubkey
    let valid ← env.crypto_check_sign_data sign pubkey blockHash.val
    check valid "Not validate"
    pure { blockHash, sign, pubkey, address := Address.ofBlob binAddress })

/-- A signature of a sign block, in its frame. -/
def readSignTransactionInfo (env : ParseEnv) (txInfo : SignTransactionInfo) :
    Deserializer (Bool × UInt64 × SignTransactionInfo) :=
  readFramed (readSignFrame env) txInfo

/-! ## Rejected transactions -/

/-- A transaction that was rejected, and why. -/
structure RejectedTransactionInfo where
  hash : Blob
  error : UInt64
  deriving DecidableEq

/-- What is behind the size in `readRedjectedTransactionInfo`. -/
def readRedjectedFrame : Deserializer RejectedTransactionInfo := do
  let hash ← readBytes 32
  let error ← readVarInt
  pure { hash, error }

/-- A rejected transaction, in its frame. -/
def readRedjectedTransactionInfo (txInfo : RejectedTransactionInfo) :
    Deserializer (Bool × UInt64 × RejectedTransactionInfo) :=
  readFramed readRedjectedFrame txInfo

/-! ## The data of a transaction -/

/-- What `strtoull` makes of a text: whether there is a minus, and the digits. -/
def strtoull (s : Bytes) : Option (Bool × Nat) :=
  let number := s.dropWhile (fun c => c = 32 || (9 ≤ c && c ≤ 13))
  let digits := (if number.head? = some 43 ∨ number.head? = some 45 then number.tail else number)
    |>.takeWhile (fun c => 48 ≤ c && c ≤ 57)
  if digits = [] then none
  else some (number.head? = some 45, digits.foldl (fun n c => 10 * n + (c.toNat - 48)) 0)

/-- `std::stoull`; nothing where it throws. -/
def stoull? (s : Bytes) : Option UInt64 := do
  let (minus, n) ← strtoull s
  if 2 ^ 64 ≤ n then none
  else some (if minus then 0 - UInt64.ofNat n else UInt64.ofNat n)

/-- `std::stoi`; nothing where it throws. -/
def stoi? (s : Bytes) : Option UInt32 := do
  let (minus, n) ← strtoull s
  if minus then if 2 ^ 31 < n then none else some (0 - UInt32.ofNat n)
  else if 2 ^ 31 ≤ n then none else some (UInt32.ofNat n)

/-- A member that is a string; nothing where `get<std::string>` throws. -/
def Json.text (name : String) (doc : Json) : Option Bytes := (doc.find? name).bind Json.getString

/-- A member that is an object. -/
def Json.child (name : String) (doc : Json) : Option Json :=
  (doc.find? name).filter Json.isObject

/-- `Address(hexAddress)` -/
def Address.ofHex (fromHex : Bytes → Except Err Blob) (hexAddress : Bytes) : Except Err Address := do
  check (!hexAddress.isEmpty) "Empty address"
  check (hexAddress.take 2 == ascii "0x".toList) ("Incorrect address " ++ text hexAddress)
  let tmp ← fromHex hexAddress
  pure (Address.ofBlob tmp)

/-- `Address(address, isBlockedAddress)` -/
def Address.ofKey (address : Blob) (isBlockedAddress : Bool) : Address :=
  Address.ofBlob (if isBlockedAddress then
    ⟨address.val.set 0 1, by rw [List.length_set]; exact address.property⟩ else address)

/-- `docData`: the document that the data are, if they look like one. What starts with a brace is
an object. -/
def parseDocData (env : ParseEnv) (data : Blob) : Option Json :=
  if data.val.head? = some 123 ∧ data.val.getLast? = some 125 then env.Parse data.val else none

/-- The document says that a delegation is taken back. -/
def saysUndelegate (docData : Option Json) : Bool :=
  docData.bind (·.text "method") == some (ascii "undelegate".toList)

/-- What the document says of a delegation; nothing sets the value of one that is taken back. -/
def parseDelegate (uninitialized : UInt64) (docData : Option Json) : Option DelegateInfo := do
  let doc ← docData
  let method ← doc.text "method"
  if method = ascii "delegate".toList then do
    let params ← doc.child "params"
    let value ← params.text "value"
    let value ← stoull? value
    pure { value, isDelegate := true }
  else if method = ascii "undelegate".toList then
    pure { value := uninitialized, isDelegate := false }
  else none

/-- What a transaction to a contract asks for. -/
def parseScriptType (docData : Option Json) : ScriptType :=
  match docData with
  | none => .pay
  | some doc =>
    if doc.text "method" = some (ascii "compile".toList) then .compile
    else if doc.text "method" = some (ascii "run".toList) then .run
    else .unknown

/-- `parseTokenInfo`; every exception in it ends in no token. -/
def parseTokenInfo (env : ParseEnv) (fromAddress : Address) (docData : Option Json) :
    Option TokenInfo := do
  let tokenJson ← docData.filter Json.isObject
  let method ← tokenJson.text "method"
  if method = ascii "token-create".toList then do
    let params ← tokenJson.child "params"
    let type ← params.text "type"
    if type ≠ ascii "M1".toList then none
    let type ← (Blob.ofBytes type).toOption
    let owner ← (Address.ofHex env.fromHex (← params.text "owner")).toOption
    let decimals ← stoi? (← params.text "decimals")
    let symbol ← (Blob.ofBytes (← params.text "symbol")).toOption
    let name ← (Blob.ofBytes (← params.text "name")).toOption
    let value ← stoull? (← params.text "emission")
    let isOwner ← (owner.eq fromAddress).toOption
    if !isOwner then none
    pure (.create type owner decimals value symbol name false [])
  else if method = ascii "token-transfer".toList then do
    let params ← tokenJson.child "params"
    let toAddress ← (Address.ofHex env.fromHex (← params.text "to")).toOption
    let value ← stoull? (← params.text "value")
    pure (.moveTokens toAddress value)
  else if method = ascii "burn-tokens".toList then do
    let params ← tokenJson.child "params"
    let value ← stoull? (← params.text "value")
    pure (.burnTokens value)
  else none

/-! ## Transactions of blocks -/

/-- What `isSignBlockTx` keeps of the transaction before. -/
structure PrevTransactionSignHelper where
  isFirst : Bool
  isPrevSign : Bool
  prevTxData : Blob
  deriving DecidableEq

/-- It is sent to oneself without value, has the data of the one before, and only such are before
it. -/
def isSignBlockTx (txInfo : TransactionInfo) (helper : PrevTransactionSignHelper) :
    Except Err Bool :=
  if !helper.isPrevSign then pure false else do
    let toSelf ← txInfo.fromAddress.eq txInfo.toAddress
    pure (toSelf && txInfo.value == 0 && (helper.isFirst ||
      (txInfo.data == helper.prevTxData && !txInfo.data.isEmpty)))

/-- The part of a frame that is signed. -/
structure ClearTx where
  toAddress : Blob
  value : UInt64
  fees : UInt64
  nonce : UInt64
  data : Blob
  deriving DecidableEq

/-- What is signed of a transaction. -/
def readClearTx : Deserializer ClearTx := do
  let toAddress ← readBytes 25
  let value ← readVarInt
  let fees ← readVarInt
  let nonce ← readVarInt
  -- the data are copied without a check; data that are too long fail the next one
  let data ← readCounted
  pure { toAddress, value, fees, nonce, data }

/-- What stands in a frame in front of the status. -/
structure TxBody extends ClearTx where
  /-- The size of the part that is signed. -/
  endClearTx : Nat
  sign : Blob
  pubKey : Blob
  deriving DecidableEq

/-- A transaction with its signature and its key. -/
def readTxBody : Deserializer TxBody := do
  let (clear, endClearTx) ← measured readClearTx
  let sign ← readCounted
  let pubKey ← readCounted
  pure { clear with endClearTx, sign, pubKey }

/-- `intStatus`, if the frame goes on. -/
def readIntStatus : Deserializer (Option UInt64) := do
  let raw ← input
  let cur_pos ← position
  if cur_pos < raw.length then do
    let intStatus ← readVarInt
    pure (some intStatus)
  else pure none

/-- What is behind the size: the body, the status and the size of the status. -/
def readTxFrame : Deserializer (TxBody × Option UInt64 × Nat) := do
  let body ← readTxBody
  let intStatus ← measured readIntStatus
  pure (body, intStatus)

/-- What the fields say without any cryptography; `txRaw` is the part that is signed. -/
def fillFields (env : ParseEnv) (uninitialized : UInt64) (body : TxBody) (isScriptAddress : Bool)
    (txRaw : Blob) (txInfo : TransactionInfo) : TransactionInfo :=
  let docData := parseDocData env body.data
  { txInfo with
    toAddress := Address.ofBlob body.toAddress
    value := body.value
    fees := body.fees
    nonce := body.nonce
    data := body.data
    delegate :=
      if body.data.size = 9 ∧ body.data.val.head? = some 1 then txInfo.delegate
      else (parseDelegate uninitialized docData).or txInfo.delegate
    scriptInfo :=
      if isScriptAddress then some { txRaw, type := parseScriptType docData }
      else txInfo.scriptInfo.map (fun s => { s with txRaw })
    isModuleNotSet := txInfo.isModuleNotSet || isScriptAddress && !env.moduleV8
    sign := body.sign
    pubKey := if body.pubKey.isEmpty then txInfo.pubKey else body.pubKey
    fromAddress := if body.pubKey.isEmpty then txInfo.fromAddress.setEmpty else txInfo.fromAddress }

/-- Who sent a transaction: the address of its key, blocked if the data say so. -/
def senderAddress (env : ParseEnv) (txInfo : TransactionInfo) : Except Err Address :=
  if txInfo.pubKey.isEmpty then pure txInfo.fromAddress else do
    let binAddress ← env.addressOf txInfo.pubKey
    let isBlockedFrom := decide (txInfo.data.size = 9 ∧ txInfo.data.val.head? = some 1)
    pure (Address.ofKey binAddress isBlockedFrom)

/-- What `readSimpleTransactionInfo` makes of the fields; `clearTx` is the part that is signed,
`hashed` the part that the hash is taken of. -/
def fillTransaction (env : ParseEnv) (uninitialized : UInt64) (helper : PrevTransactionSignHelper)
    (body : TxBody) (clearTx hashed : Bytes) (txInfo : TransactionInfo) :
    Except Err TransactionInfo := do
  let isScriptAddress ← (Address.ofBlob body.toAddress).isScriptAddress
  let txRaw ← Blob.ofBytes clearTx
  let txInfo := fillFields env uninitialized body isScriptAddress txRaw txInfo
  let fromAddress ← senderAddress env txInfo
  let txInfo := { txInfo with fromAddress, hash := env.get_double_sha256 hashed }
  let isSignBlockTx ← isSignBlockTx txInfo helper
  let isTokenAddress ← txInfo.toAddress.isTokenAddress
  let tokenInfo :=
    if isTokenAddress then parseTokenInfo env txInfo.fromAddress (parseDocData env txInfo.data)
    else txInfo.tokenInfo
  pure { txInfo with isSignBlockTx, tokenInfo }

/-- The check of the signature, if there is to be one. -/
def validateTransaction (env : ParseEnv) (isValidate : Bool) (txInfo : TransactionInfo)
    (clearTx : Bytes) : Except Err Unit :=
  if !isValidate then pure () else do
    let isInitialWallet ← txInfo.fromAddress.isInitialWallet
    if isInitialWallet then pure () else do
      let valid ← env.crypto_check_sign_data txInfo.sign txInfo.pubKey clearTx
      check valid "Not validate"

/-- `readSimpleTransactionInfo`: a transaction in its frame, read or skipped. -/
def readSimpleTransactionInfo (env : ParseEnv) (isParseTx isSaveAllTx : Bool)
    (helper : PrevTransactionSignHelper) (isValidate : Bool) (txInfo : TransactionInfo) :
    Deserializer (Bool × UInt64 × TransactionInfo) := do
  let raw ← input
  let allTxStart ← position
  let tx_size ← readTxSize
  if tx_size = 0 then pure (false, 0, txInfo) else do
    let tx_start ← position
    if !isParseTx then do
      moveTo (tx_start + tx_size.toNat)
      pure (false, tx_size, txInfo)
    else do
      let (body, intStatus, statusSize) ← within tx_size.toNat readTxFrame
      let allTxEnd ← position
      let tx_hash_size := tx_size.toNat - statusSize
      let allRawTx ← lift (if isSaveAllTx then
          Blob.ofBytes ((raw.drop allTxStart).take (allTxEnd - allTxStart))
        else .ok txInfo.allRawTx)
      let frame := (raw.drop tx_start).take tx_size.toNat
      let clearTx := frame.take body.endClearTx
      let txInfo ← lift (fillTransaction env (env.uninitialized allTxStart) helper body clearTx
        (frame.take tx_hash_size) txInfo)
      lift (validateTransaction env isValidate txInfo clearTx)
      pure (true, tx_size,
        { txInfo with intStatus := intStatus.or txInfo.intStatus, sizeRawTx := tx_size, allRawTx })

end TorrentNode
