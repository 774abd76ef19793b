import TorrentNode.Storage.LevelDb
import TorrentNode.Structs.BalanceInfo

/-!
# The records of the main worker

How `Batch` and `LevelDb` name and find the records that `WorkerMain` writes.
-/

namespace TorrentNode

/-- The transactions of an address. -/
def ADDRESS_PREFIX : String := "a_"

/-- The transactions of an address that move tokens. -/
def ADDRESS_TOKEN_PREFIX : String := "ti_"

/-- What came of the transactions of an address. -/
def ADDRESS_STATUS_PREFIX : String := "A_"

/-- The balances. -/
def BALANCE_PREFIX : String := "i_"

/-- The places of transactions, by hash. -/
def TRANSACTION_PREFIX : String := "t_"

/-- The tokens. -/
def TOKEN_PREFIX : String := "to_"

/-- What came of transactions, by hash. -/
def TRANSACTION_STATUS_PREFIX : String := "T_"

/-- What ends the name of an address in a key. -/
def ADDRESS_POSTFIX : Char := '!'

/-- The last block that the worker has worked off. -/
def MAIN_BLOCK_NUMBER_PREFIX : String := "ms_"

/-- The delegations that stand. -/
def DELEGATE_PREFIX : String := "d_"

/-- What ends the pair in the key of a delegation. -/
def DELEGATE_POSTFIX : Char := '!'

/-- What stands between the addresses of a pair. -/
def DELEGATE_KEY_PAIR_DELIMITER : Char := ';'

/-- The money that there is. -/
def COMMON_BALANCE_KEY : String := "commno_balance"

/-- What was forged of each kind. -/
def FORGING_SUMS_ALL : String := "fsa_"

/-- A key that is a literal. -/
def literalKey (s : String) : Bytes := ascii s.toList

/-- The key of what came of a transaction of an address. -/
def makeAddressStatusKey (address txHash : Blob) : Bytes :=
  literalKey ADDRESS_STATUS_PREFIX ++ address.val ++ ascii [ADDRESS_POSTFIX] ++ txHash.val

/-- The two addresses of a delegation as one string. -/
def makeKeyDelegatePair (keyFrom keyTo : Blob) : Except Err Blob :=
  Blob.ofBytes (keyFrom.val ++ ascii [DELEGATE_KEY_PAIR_DELIMITER] ++ keyTo.val)

/-- `getSecondOnKeyDelegatePair`: it takes the second address to be as long as the first. -/
def getSecondOnKeyDelegatePair (keyFrom : Blob) (delegateKeyPair : Bytes) : Except Err Blob := do
  let prefixSize := DELEGATE_PREFIX.length
  check (decide (keyFrom.size + 1 + prefixSize ≤ delegateKeyPair.length) &&
    delegateKeyPair.getD (keyFrom.size + prefixSize) 0 == 59 &&
    delegateKeyPair.getD (keyFrom.size + prefixSize + 1 + keyFrom.size) 0 == 33)
    "Incorrect delegateKeyPair"
  Blob.ofBytes ((delegateKeyPair.drop (keyFrom.size + 1 + prefixSize)).take keyFrom.size)

namespace Batch

/-- `addAddress` and `addAddressToken`, which differ in the prefix. -/
def addAddressUnder (b : Batch) (pre : String) (address : Blob) (value : AddressInfo)
    (counter : UInt64) : Except Err Batch := do
  let key ← makeKey [.lit pre, .str address, .chr ADDRESS_POSTFIX, .int counter]
  b.addKey key value.serialize false

/-- One more transaction of an address. -/
def addAddress (b : Batch) : Blob → AddressInfo → UInt64 → Except Err Batch :=
  b.addAddressUnder ADDRESS_PREFIX

/-- One more transaction of an address that moves tokens. -/
def addAddressToken (b : Batch) : Blob → AddressInfo → UInt64 → Except Err Batch :=
  b.addAddressUnder ADDRESS_TOKEN_PREFIX

/-- What came of a transaction of an address. -/
def addAddressStatus (b : Batch) (addressAndHash : Bytes) (value : TransactionStatus) :
    Except Err Batch :=
  b.addKey addressAndHash value.serialize false

/-- The place of a transaction. -/
def addTransaction (b : Batch) (txHash : Blob) (value : TransactionInfo) : Except Err Batch := do
  let key ← makeKey [.lit TRANSACTION_PREFIX, .str txHash]
  b.addKey key value.serialize false

/-- What came of a transaction. -/
def addTransactionStatus (b : Batch) (txHash : Blob) (value : TransactionStatus) :
    Except Err Batch := do
  let key ← makeKey [.lit TRANSACTION_STATUS_PREFIX, .str txHash]
  b.addKey key value.serialize false

/-- A token under its address. -/
def addToken (b : Batch) (address : Blob) (value : Token) : Except Err Batch := do
  let key ← makeKey [.lit TOKEN_PREFIX, .str address]
  b.addKey key value.serialize false

/-- A token that was written in the batch. -/
def findToken (b : Batch) (address : Blob) : Except Err (Option Token) := do
  let key ← makeKey [.lit TOKEN_PREFIX, .str address]
  b.findValueInBatch Token.deserialize key

/-- A token is gone. -/
def removeToken (b : Batch) (address : Blob) : Except Err Batch := do
  let key ← makeKey [.lit TOKEN_PREFIX, .str address]
  pure (b.removeValue key)

/-- `addDelegateKey(delegatePair, value, counter)`: the batch and the key. -/
def addDelegateKey (b : Batch) (delegatePair : Blob) (value : DelegateState) (counter : UInt64) :
    Except Err (Bytes × Batch) := do
  let key ← makeKey [.lit DELEGATE_PREFIX, .str delegatePair, .chr DELEGATE_POSTFIX, .int counter]
  let b ← b.addKey key value.serialize true
  pure (key, b)

/-- A delegation that was written in the batch. -/
def findDelegateKey (b : Batch) (delegateKey : Bytes) : Except Err (Option DelegateState) :=
  b.findValueInBatch DelegateState.deserialize delegateKey

/-- A delegation is gone, and its key is kept. -/
def removeDelegateKey (b : Batch) (delegateKey : Bytes) : Batch := b.removeValue delegateKey

/-- The keys that were removed. -/
def getDeletedDelegate (b : Batch) : List Bytes := b.deleted

/-- The balance of an address. -/
def addBalance (b : Batch) (address : Blob) (value : BalanceInfo) : Except Err Batch := do
  let key ← makeKey [.lit BALANCE_PREFIX, .str address]
  b.addKey key value.serialize false

/-- The money that there is. -/
def addCommonBalance (b : Batch) (value : CommonBalance) : Except Err Batch :=
  b.addKey (literalKey COMMON_BALANCE_KEY) value.serialize false

/-- What was forged of each kind. -/
def addAllForgedSums (b : Batch) (value : ForgingSums) : Except Err Batch :=
  b.addKey (literalKey FORGING_SUMS_ALL) value.serialize false

/-- The last block that was worked off. -/
def addMainBlock (b : Batch) (value : WorkerBlockInfo) : Except Err Batch :=
  b.addKey (literalKey MAIN_BLOCK_NUMBER_PREFIX) (value.serialize "MainBlockInfo") false

end Batch

namespace LevelDb

/-- The token of an address; an empty one where there is none. -/
def findToken (db : LevelDb) (address : Blob) : Except Err Token := do
  let key ← makeKey [.lit TOKEN_PREFIX, .str address]
  db.findOneValueWithoutCheckValue Token.deserialize key

/-- `findDelegateKey(delegatePair, excluded)`: an empty key when there is none. -/
def findDelegateKey (db : LevelDb) (delegatePair : Blob) (excluded : List Bytes) :
    Except Err (Bytes × DelegateState) := do
  let key ← makeKey [.lit DELEGATE_PREFIX, .str delegatePair, .chr DELEGATE_POSTFIX]
  match db.findFirstOf key excluded with
  | none => pure ([], default)
  | some (found, value) => do
    let state ← DelegateState.deserialize value
    pure (found, state)

/-- The delegations of an address to anyone. -/
def findAllDelegatedPairKeys (db : LevelDb) (keyFrom : Blob) :
    Except Err (List (Bytes × Blob)) := do
  check (!keyFrom.isEmpty) "Incorrect delegatePair"
  let keyF := literalKey DELEGATE_PREFIX ++ keyFrom.val ++ ascii [DELEGATE_KEY_PAIR_DELIMITER]
  let keyTo := literalKey DELEGATE_PREFIX ++ keyFrom.val ++ ascii ['<']
  db.findKey2 keyF keyTo

/-- The balance of an address; an empty one where there is none. -/
def findBalance (db : LevelDb) (address : Blob) : Except Err BalanceInfo := do
  let key ← makeKey [.lit BALANCE_PREFIX, .str address]
  db.findOneValueWithoutCheckValue BalanceInfo.deserialize key

/-- The money that there is. -/
def findCommonBalance (db : LevelDb) : Except Err CommonBalance :=
  db.findOneValueWithoutCheckValue CommonBalance.deserialize (literalKey COMMON_BALANCE_KEY)

/-- What was forged of each kind. -/
def findForgingSumsAll (db : LevelDb) : Except Err ForgingSums :=
  db.findOneValueWithoutCheckValue ForgingSums.deserialize (literalKey FORGING_SUMS_ALL)

/-- The last block that was worked off. -/
def findMainBlock (db : LevelDb) : Except Err WorkerBlockInfo :=
  db.findOneValueWithoutCheckValue WorkerBlockInfo.deserialize (literalKey MAIN_BLOCK_NUMBER_PREFIX)

/-- `findAddress` and `findAddressTokens`, which differ in the prefix. -/
def findAddressUnder (db : LevelDb) (pre : String) (address : Blob) (fromIndex count : UInt64) :
    Except Err (List AddressInfo) := do
  let keyPrefix ← makeKey [.lit pre, .str address]
  db.findKeyInternal (keyPrefix ++ ascii [ADDRESS_POSTFIX]) (keyPrefix ++ ascii ['"'])
    fromIndex count (fun e => AddressInfo.deserialize e.2)

/-- The transactions of an address, so many from a place on. -/
def findAddress (db : LevelDb) : Blob → UInt64 → UInt64 → Except Err (List AddressInfo) :=
  db.findAddressUnder ADDRESS_PREFIX

/-- The transactions of an address that move tokens, likewise. -/
def findAddressTokens (db : LevelDb) : Blob → UInt64 → UInt64 → Except Err (List AddressInfo) :=
  db.findAddressUnder ADDRESS_TOKEN_PREFIX

/-- What came of the transactions of an address, all of it. -/
def findAddressStatus (db : LevelDb) (address : Blob) : Except Err (List TransactionStatus) := do
  let keyPrefix ← makeKey [.lit ADDRESS_STATUS_PREFIX, .str address]
  db.findKeyInternal (keyPrefix ++ ascii [ADDRESS_POSTFIX]) (keyPrefix ++ ascii ['"'])
    0 0 (fun e => TransactionStatus.deserialize e.2)

end LevelDb

end TorrentNode
