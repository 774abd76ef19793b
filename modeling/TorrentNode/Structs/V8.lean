import TorrentNode.Structs.Json
import TorrentNode.Structs.Records

/-!
# Contracts and the V8 server

The records that the script worker keeps of a contract (`ScriptBlockInfo.h`), and
the requests it makes to the V8 server (`generate_json_v8.cpp`). The connection
and the JSON library are not part of the program: a server is a function from the
fields of a request to a parsed answer.
-/

namespace TorrentNode

/-! ## Records -/

/-- `V8State::ErrorType`. -/
inductive V8State.ErrorType where
  | ok
  | userError
  | serverError
  | scriptError
  deriving DecidableEq

/-- What a contract stands at, or the error that it ended with. -/
structure V8State where
  address : Address
  state : Blob
  blockNumber : UInt64
  details : Blob
  errorCode : UInt64
  errorType : V8State.ErrorType
  errorMessage : Blob
  deriving DecidableEq

namespace V8State

/-- `V8State(blockNumber)`. -/
def new (blockNumber : UInt64) : V8State :=
  { address := default, state := ∅, blockNumber, details := ∅, errorCode := 0, errorType := .ok,
    errorMessage := ∅ }

instance : Inhabited V8State := ⟨new 0⟩

/-- The stored form; the block must have a number. -/
def serialize (s : V8State) : Except Err Bytes := do
  check (s.blockNumber != 0) "V8State not initialized"
  pure (serializeString s.state ++ (serializeString s.details ++ serializeUInt64 s.blockNumber))

/-- What is read of a stored state; of nothing an empty one. -/
def deserialize : Blob → Except Err V8State :=
  deserializeOr default (do
    let state ← deserializeString
    let details ← deserializeString
    let blockNumber ← deserializeUInt64
    pure { new blockNumber with state, details })

/-- What is kept of a state in the database. -/
def stored (s : V8State) : V8State :=
  { new s.blockNumber with state := s.state, details := s.details }

theorem serialize_eq_ok {s : V8State} {raw : Bytes} (h : s.serialize = .ok raw) :
    s.blockNumber ≠ 0 ∧ raw = serializeString s.state ++
      (serializeString s.details ++ serializeUInt64 s.blockNumber) := by
  cases hz : s.blockNumber != 0 with
  | false => simp [serialize, hz, Bind.bind, Except.bind] at h
  | true =>
      simp only [serialize, hz, check_true, Bind.bind, Except.bind] at h
      exact ⟨bne_iff_ne.mp hz, (Except.ok.inj h).symm⟩

/-- A stored state reads back. -/
theorem deserialize_serialize {s : V8State} {raw : Blob} (h : s.serialize = .ok raw.val) :
    deserialize raw = .ok s.stored := by
  obtain ⟨_, hraw⟩ := serialize_eq_ok h
  refine deserializeOr_of_reads ?_ ?_
  · rw [hraw, List.length_append, length_serializeString]
    unfold sizeofSizeT; omega
  · rw [hraw]
    exact (reads_string s.state).bind ((reads_string s.details).bind
      ((reads_uint64 s.blockNumber).map (f := fun blockNumber =>
        ({ new blockNumber with state := s.state, details := s.details } : V8State))))

end V8State

/-- What the server tells of a contract. -/
structure V8Details where
  details : Blob
  lastError : Blob
  deriving DecidableEq

/-- The stored form. -/
def V8Details.serialize (d : V8Details) : Except Err Bytes :=
  pure (serializeString d.details ++ serializeString d.lastError)

/-- The code of a contract. -/
structure V8Code where
  code : Blob
  deriving DecidableEq

/-- The stored form. -/
def V8Code.serialize (c : V8Code) : Except Err Bytes := pure (serializeString c.code)

/-! ## Requests -/

/-- The fields of a request; the two kinds differ in `act` and in `state`. -/
structure V8Request where
  act : String
  transaction : String
  sign : String
  pubkey : String
  address : Bytes
  state : Blob

/-- The V8 server behind `requestCurl`, and what of the libraries its answers go through. -/
structure V8Server where
  requestCurl : V8Request → Except Err Json
  fromHex : Bytes → Except Err Bytes
  jsonToString : Json → Blob

namespace V8Server

/-- `Address(hexAddress)`. -/
def parseAddress (fromHex : Bytes → Except Err Bytes) (hexAddress : Bytes) :
    Except Err Address := do
  check (!hexAddress.isEmpty) "Empty address"
  check (hexAddress.take 2 == ascii ['0', 'x']) ("Incorrect address " ++ text hexAddress)
  let bytes ← fromHex hexAddress
  let blob ← Blob.ofBytes bytes
  pure (Address.ofBlob blob)

/-- The address in an answer; one that is missing or empty leaves the address unset. -/
def parseStateAddress (w : V8Server) (paramsJson : Json) : Except Err Address :=
  match (paramsJson.find? "address").bind Json.getString with
  | some addr => if addr.isEmpty then pure default else parseAddress w.fromHex addr
  | none => pure default

/-- The kinds of errors, told apart by their codes. -/
def parseErrorType (w : V8Server) (doc : Json) (errorCode : UInt64) :
    Except Err V8State.ErrorType :=
  if 1000 ≤ errorCode ∧ errorCode < 2000 then pure .userError
  else if 2000 ≤ errorCode ∧ errorCode < 3000 then pure .scriptError
  else if 3000 ≤ errorCode ∧ errorCode < 4000 then pure .serverError
  else .error (.exception ("Incorrect error code: " ++ text (w.jsonToString doc).val))

/-- `parseState`: the state in an answer, or its error. -/
def parseState (w : V8Server) (doc : Json) : Except Err V8State := do
  match ← doc.member "result" with
  | some paramsJson => do
    check paramsJson.isObject "result field not found"
    match (paramsJson.find? "state").bind Json.getString with
    | none => .error (.exception "state field not found")
    | some stateJson => do
      let state ← Blob.ofBytes stateJson
      let address ← w.parseStateAddress paramsJson
      let details := match paramsJson.find? "contractdump" with
        | some dump => if dump.isObject then w.jsonToString dump else ∅
        | none => ∅
      pure { V8State.new 0 with state, address, details }
  | none =>
    match doc.find? "error" with
    | none => .error (.exception "error field not found")
    | some errorJson => do
      check errorJson.isObject "error field not found"
      match (errorJson.find? "code").bind Json.getInt with
      | none => .error (.exception "code field not found")
      | some errorCode =>
        match (errorJson.find? "message").bind Json.getString with
        | none => .error (.exception "message field not found")
        | some messageJson => do
          let errorMessage ← Blob.ofBytes messageJson
          let errorType ← w.parseErrorType doc errorCode
          pure { V8State.new 0 with errorCode, errorMessage, errorType }

/-- Asks for a contract to be compiled. -/
def requestCompileTransaction (w : V8Server) (transaction : Blob) (address : Address)
    (pubkey sign : Blob) : Except Err V8State := do
  let address ← address.calcHexString
  let doc ← w.requestCurl
    { act := "compile", transaction := toHex transaction.val, sign := toHex sign.val,
      pubkey := toHex pubkey.val, address, state := ∅ }
  w.parseState doc

/-- Asks for a transaction to be run on what a contract stands at. -/
def requestRunTransaction (w : V8Server) (state : V8State) (transaction : Blob)
    (address : Address) (pubkey sign : Blob) : Except Err V8State := do
  let address ← address.calcHexString
  let doc ← w.requestCurl
    { act := "cmdrun", transaction := toHex transaction.val, sign := toHex sign.val,
      pubkey := toHex pubkey.val, address, state := state.state }
  w.parseState doc

end V8Server

end TorrentNode
