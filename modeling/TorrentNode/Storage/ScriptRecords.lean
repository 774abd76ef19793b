import TorrentNode.Storage.MainRecords
import TorrentNode.Structs.V8

/-!
# The records of the script worker

How `Batch` and `LevelDb` name and find the records that `WorkerScript` writes
into a database of its own, and the two records it writes into the main one.
-/

namespace TorrentNode

/-- What contracts stand at. -/
def V8_STATE_PREFIX : String := "v_"

/-- What is told of contracts. -/
def V8_DETAILS_PREFIX : String := "vd_"

/-- The code of contracts. -/
def V8_CODE_PREFIX : String := "vc_"

/-- The last block that the worker has worked off. -/
def SCRIPT_BLOCK_NUMBER_PREFIX : String := "ss_"

namespace Batch

/-- What a contract stands at. -/
def addV8State (b : Batch) (v8Address : Blob) (v8State : V8State) : Except Err Batch := do
  let key ← makeKey [.lit V8_STATE_PREFIX, .str v8Address]
  b.addKey key v8State.serialize false

/-- What is told of a contract. -/
def addV8Details (b : Batch) (v8Address : Blob) (v8Details : V8Details) : Except Err Batch := do
  let key ← makeKey [.lit V8_DETAILS_PREFIX, .str v8Address]
  b.addKey key v8Details.serialize true

/-- The code of a contract. -/
def addV8Code (b : Batch) (v8Address : Blob) (v8Code : V8Code) : Except Err Batch := do
  let key ← makeKey [.lit V8_CODE_PREFIX, .str v8Address]
  b.addKey key v8Code.serialize true

/-- What a contract stands at, if it was written in the batch. -/
def findV8State (b : Batch) (v8Address : Blob) : Except Err (Option V8State) := do
  let key ← makeKey [.lit V8_STATE_PREFIX, .str v8Address]
  b.findValueInBatch V8State.deserialize key

/-- The last block that was worked off. -/
def addScriptBlock (b : Batch) (value : WorkerBlockInfo) : Except Err Batch :=
  b.addKey (literalKey SCRIPT_BLOCK_NUMBER_PREFIX) (value.serialize "ScriptBlockInfo") false

end Batch

namespace LevelDb

/-- The last block that was worked off. -/
def findScriptBlock (db : LevelDb) : Except Err WorkerBlockInfo :=
  db.findOneValueWithoutCheckValue WorkerBlockInfo.deserialize
    (literalKey SCRIPT_BLOCK_NUMBER_PREFIX)

/-- What a contract stands at; an empty state where there is none. -/
def findV8State (db : LevelDb) (v8Address : Blob) : Except Err V8State := do
  let key ← makeKey [.lit V8_STATE_PREFIX, .str v8Address]
  db.findOneValueWithoutCheckValue V8State.deserialize key

/-- `saveValue` of a serialised value. -/
def saveValue (db : LevelDb) (key : Bytes) (serialized : Except Err Bytes) : Except Err LevelDb := do
  let bytes ← serialized
  let value ← Blob.ofBytes bytes
  pure (db.insert key value)

/-- What came of a transaction, written at once. -/
def saveTransactionStatus (db : LevelDb) (txHash : Blob) (value : TransactionStatus) :
    Except Err LevelDb := do
  let key ← makeKey [.lit TRANSACTION_STATUS_PREFIX, .str txHash]
  db.saveValue key value.serialize

/-- What came of a transaction of an address, written at once. -/
def saveAddressStatus (db : LevelDb) (addressAndHash : Bytes) (value : TransactionStatus) :
    Except Err LevelDb :=
  db.saveValue addressAndHash value.serialize

end LevelDb

end TorrentNode
