import TorrentNode.Lib.WriteBatch
import TorrentNode.Utils.Serialize

/-!
# The database and its batches (`LevelDb`)

A database is an ordered map from keys to values: iterators walk it in bytewise
key order and a batch is applied all at once. A `Batch` collects the operations
and remembers some of the values it puts, so that they can be found again before
it is written. What each kind of record uses as key stands with the records.
-/

namespace TorrentNode

/-- The content of a `leveldb::DB`. -/
abbrev LevelDb : Type := OrdMap Bytes Blob

/-! ## Keys -/

/-- What `makeKey` strings together. -/
inductive KeyPart where
  | str (s : Blob)
  | chr (c : Char)
  /-- `SerializerInt` of a `size_t`. -/
  | int (n : UInt64)
  /-- A literal prefix. -/
  | lit (s : String)

/-- One more part; strings and literals may not be empty. -/
def addToBuf (buffer : Bytes) : KeyPart → Except Err Bytes
  | .str s => do
    check (!s.isEmpty) "Incorrect parameter"
    pure (buffer ++ s.val)
  | .chr c => pure (buffer ++ ascii [c])
  | .int n => pure (buffer ++ serializeUInt64 n)
  | .lit s => do
    check (!s.isEmpty) "Incorrect parameter"
    pure (buffer ++ ascii s.toList)

/-- `makeKey(args...)`: the parts one behind the other. -/
def makeKey (args : List KeyPart) : Except Err Bytes := args.foldlM addToBuf []

/-! ## Batches -/

/-- `Batch`: what is to be written, and what of it can be found before. -/
structure Batch where
  /-- The `leveldb::WriteBatch`. -/
  batch : List (WriteOp Bytes Blob)
  save : OrdMap Bytes Blob
  /-- The keys of `deleted`, each once. -/
  deleted : List Bytes
  deriving DecidableEq

namespace Batch

/-- A batch of nothing. -/
def new : Batch := { batch := [], save := ∅, deleted := [] }

instance : Inhabited Batch := ⟨new⟩

/-- `addKeyInternal(key, value, isSave)`: `emplace` keeps an older value of the key. -/
def addKeyInternal (b : Batch) (key : Bytes) (value : Blob) (isSave : Bool) : Batch :=
  { b with
    batch := b.batch ++ [.put key value]
    save := if isSave then b.save.emplace key value else b.save }

/-- `addKey(key, value, isSave)`, given what `value.serialize` returns. -/
def addKey (b : Batch) (key : Bytes) (serialized : Except Err Bytes) (isSave : Bool) :
    Except Err Batch := do
  let bytes ← serialized
  let value ← Blob.ofBytes bytes
  pure (b.addKeyInternal key value isSave)

/-- A value that was saved in the batch. -/
def findValueInBatch {α : Type} (b : Batch) (deserialize : Blob → Except Err α) (key : Bytes) :
    Except Err (Option α) :=
  match b.save.find? key with
  | none => .ok none
  | some value => (deserialize value).map some

/-- `removeValue(key)`, always called with `isSave`. -/
def removeValue (b : Batch) (key : Bytes) : Batch :=
  { batch := b.batch ++ [.del key]
    save := b.save.erase key
    deleted := if key ∈ b.deleted then b.deleted else key :: b.deleted }

/-- What a successful `addKey` did. -/
theorem addKey_eq_ok {b b' : Batch} {key : Bytes} {serialized : Except Err Bytes} {isSave : Bool}
    (h : b.addKey key serialized isSave = .ok b') :
    ∃ value : Blob, serialized = .ok value.val ∧ b' = b.addKeyInternal key value isSave := by
  cases serialized with
  | error e => simp [addKey, Bind.bind, Except.bind] at h
  | ok bytes =>
      cases hv : Blob.ofBytes bytes with
      | error e => simp [addKey, hv, Bind.bind, Except.bind] at h
      | ok value =>
          simp only [addKey, hv, Bind.bind, Except.bind, Pure.pure, Except.pure] at h
          exact ⟨value, by rw [Blob.ofBytes_eq_ok.mp hv], (Except.ok.inj h).symm⟩

/-- What can be serialized is put. -/
theorem addKey_of_serialized {serialized : Except Err Bytes} {value : Blob}
    (h : serialized = .ok value.val) (b : Batch) (key : Bytes) (isSave : Bool) :
    b.addKey key serialized isSave = .ok (b.addKeyInternal key value isSave) := by
  unfold addKey
  rw [h]
  show (Blob.ofBytes value.val >>= _) = _
  rw [Blob.ofBytes_eq_ok.mpr rfl]
  rfl

end Batch

/-- `addBatch`: all of it at once. -/
def addBatch (batch : Batch) (leveldb : LevelDb) : LevelDb := WriteOp.apply leveldb batch.batch

theorem addBatch_addKeyInternal (b : Batch) (db : LevelDb) (key : Bytes) (value : Blob)
    (isSave : Bool) :
    addBatch (b.addKeyInternal key value isSave) db = (addBatch b db).insert key value :=
  WriteOp.apply_append db b.batch [.put key value]

theorem addBatch_removeValue (b : Batch) (db : LevelDb) (key : Bytes) :
    addBatch (b.removeValue key) db = (addBatch b db).erase key :=
  WriteOp.apply_append db b.batch [.del key]

/-- A value put last is what is found after the batch is written. -/
theorem find?_addBatch_addKeyInternal (b : Batch) (db : LevelDb) (key : Bytes) (value : Blob)
    (isSave : Bool) (k : Bytes) :
    (addBatch (b.addKeyInternal key value isSave) db).find? k =
      if k = key then some value else (addBatch b db).find? k := by
  rw [addBatch_addKeyInternal, OrdMap.find?_insert]
  split <;> simp_all

/-! ## Lookups -/

namespace LevelDb

/-- `findOneValueInternal(key, false)`: an absent key gives an empty string. -/
def findOneValueInternal (db : LevelDb) (key : Bytes) : Blob := (db.find? key).getD ∅

/-- `findOneValueWithoutCheckValue<Value>(key)`. -/
def findOneValueWithoutCheckValue {α : Type} (db : LevelDb) (deserialize : Blob → Except Err α)
    (key : Bytes) : Except Err α := deserialize (db.findOneValueInternal key)

theorem findOneValue_of_find? {α : Type} {db : LevelDb} {deserialize : Blob → Except Err α}
    {key : Bytes} {value : Blob} (h : db.find? key = some value) :
    db.findOneValueWithoutCheckValue deserialize key = deserialize value := by
  unfold findOneValueWithoutCheckValue findOneValueInternal
  rw [h]; rfl

/-- The loop of `findKeyInternal`: `index` entries were passed before. -/
def collect {α : Type} (keyTo : Bytes) (fromIndex count : UInt64)
    (func : Bytes × Blob → Except Err α) : UInt64 → List (Bytes × Blob) → Except Err (List α)
  | _, [] => .ok []
  | index, e :: es =>
    if keyTo ≤ e.1 then .ok []
    else if count ≠ 0 ∧ fromIndex + count ≤ index then .ok []
    else if fromIndex ≤ index then do
      let a ← func e
      let as ← collect keyTo fromIndex count func (index + 1) es
      pure (a :: as)
    else collect keyTo fromIndex count func (index + 1) es

/-- `findKeyInternal`: what is read of the records from one key up to another. -/
def findKeyInternal {α : Type} (db : LevelDb) (keyFrom keyTo : Bytes) (fromIndex count : UInt64)
    (func : Bytes × Blob → Except Err α) : Except Err (List α) :=
  collect keyTo fromIndex count func 0 (db.seek keyFrom)

/-- All records from one key up to another. -/
def findKey2 (db : LevelDb) (keyFrom keyTo : Bytes) : Except Err (List (Bytes × Blob)) :=
  db.findKeyInternal keyFrom keyTo 0 0 .ok

/-- `findFirstOf(key, excluded)`: the first record under the prefix that is not excluded. -/
def findFirstOf (db : LevelDb) (key : Bytes) (excluded : List Bytes) : Option (Bytes × Blob) :=
  ((db.seek key).takeWhile (fun e => key.isPrefixOf e.1)).find? (fun e => e.1 ∉ excluded)

end LevelDb

end TorrentNode
