import TorrentNode.Base

/-!
# JSON documents

The values that the JSON library parses strings into, as far as the program
looks at them. The parser itself is not part of the program.
-/

namespace TorrentNode

/-- A `rapidjson::Value`. -/
inductive Json where
  | null
  | bool (b : Bool)
  /-- A number that fits an `int64_t`, as its bits. -/
  | int64 (bits : UInt64)
  | number
  | string (s : Blob)
  | array (elements : List Json)
  | object (members : List (Bytes × Json))

namespace Json

/-- `IsObject()`. -/
def isObject : Json → Bool
  | object _ => true
  | _ => false

/-- The first member of that name. -/
def find? (name : String) : Json → Option Json
  | object members =>
    (members.find? (fun m => m.1 = ascii name.toList)).map Prod.snd
  | _ => none

/-- `HasMember(name)` and `[name]`, which assert that there are members at all. Where the program
has looked at that before, `find?` stands for them. -/
def member (name : String) (json : Json) : Except Err (Option Json) :=
  if json.isObject then .ok (json.find? name) else .error .crash

theorem member_eq (name : String) {json : Json} (h : json.isObject = true) :
    json.member name = .ok (json.find? name) := if_pos h

/-- `GetArray()`, of an array. -/
def getArray : Json → Option (List Json)
  | array elements => some elements
  | _ => none

/-- `GetString()`, a C string, so it ends at the first zero. -/
def getString : Json → Option Bytes
  | string s => some (s.val.takeWhile (fun c => c ≠ 0))
  | _ => none

/-- The same, as the `std::string` that is made of it. -/
def getBlob : Json → Option Blob
  | string s => some ⟨s.val.takeWhile (fun c => c ≠ 0),
      Nat.lt_of_le_of_lt (List.takeWhile_prefix _).length_le s.property⟩
  | _ => none

/-- `IsInt()` and `GetInt()`: a number that fits 32 bits. -/
def getInt : Json → Option UInt64
  | int64 bits =>
    if -2 ^ 31 ≤ bits.toBitVec.toInt ∧ bits.toBitVec.toInt < 2 ^ 31 then some bits else none
  | _ => none

/-- `GetInt64()`, of a number of 64 bits. -/
def getInt64 : Json → Option UInt64
  | int64 bits => some bits
  | _ => none

/-- A value made of a `size_t`. -/
def ofSizeT (n : Nat) : Json := if n < 2 ^ 63 then int64 (UInt64.ofNat n) else number

/-- A string of these characters, none of them if there are too many. -/
def ofAscii (cs : List Char) : Json :=
  string (if h : (ascii cs).length < 2 ^ 63 then ⟨ascii cs, h⟩ else ∅)

/-- `strToJson(toHex(hash))` -/
def ofHash (hash : Blob) : Except Err Json := do
  let hex ← Blob.ofBytes (hexBytes hash.val)
  pure (string hex)

theorem getInt64_ofSizeT {n : Nat} (h : n < 2 ^ 63) :
    (ofSizeT n).getInt64 = some (UInt64.ofNat n) := by
  rw [ofSizeT, if_pos h]
  rfl

end Json

/-- The library: how it writes a document, and what it parses a C string into. -/
structure RapidJson where
  jsonToString : Json → Blob
  Parse : Bytes → Option Json

/-- `str.c_str()`, where a C string is expected. -/
def cStr (str : Blob) : Bytes := str.val.takeWhile (fun c => c ≠ 0)

/-- The document is parsed back from what is written of it. -/
def RapidJson.ReadsBack (rapidjson : RapidJson) (doc : Json) : Prop :=
  rapidjson.Parse (cStr (rapidjson.jsonToString doc)) = some doc

end TorrentNode
