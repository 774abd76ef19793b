import TorrentNode.Lib.Merge
import TorrentNode.Structs.Common

/-!
# The records of the workers

`Token`, `DelegateState`, `AddressInfo`, `CommonBalance`, `MainBlockInfo` and
`ScriptBlockInfo` with the V8 records. An empty string, which is what the database
answers for an absent key, reads as a record with its default values.
-/

namespace TorrentNode

open CursorReader

/-- Read a record that may be absent. -/
def deserializeOr {α : Type} (absent : α) (r : Deserializer α) (raw : Blob) : Except Err α :=
  if raw.isEmpty then .ok absent else deserializeAll r raw

theorem deserializeOr_of_run {α : Type} {absent a : α} {r : Deserializer α} {raw : Blob}
    {next : Nat} (hne : raw ≠ ∅) (h : r.runFrom raw.val 0 = .ok (a, next)) :
    deserializeOr absent r raw = .ok a := by
  unfold deserializeOr deserializeAll
  rw [Blob.isEmpty_eq_false.mpr hne, h]
  rfl

theorem deserializeOr_of_reads {α : Type} {absent a : α} {r : Deserializer α} {raw : Blob}
    (hne : 0 < raw.val.length) (h : Reads r raw.val a) : deserializeOr absent r raw = .ok a := by
  refine deserializeOr_of_run ?_ (h.run raw.property)
  rintro rfl
  exact absurd hne (by decide)

/-- A list is no longer than what its elements are written to. -/
theorem length_le_flatMap {α : Type} {f : α → Bytes} :
    ∀ {l : List α}, (∀ a ∈ l, 0 < (f a).length) → l.length ≤ (l.flatMap f).length
  | [], _ => le_refl _
  | a :: l, h => by
      have hfirst := h a List.mem_cons_self
      have hrest := length_le_flatMap (fun b hb => h b (List.mem_cons_of_mem _ hb))
      rw [List.flatMap_cons, List.length_append, List.length_cons]
      omega

/-! ## Token -/

/-- A token: its owner, its names, and how much of it there was and is. -/
structure Token where
  type : Blob
  owner : Address
  decimals : UInt32
  beginValue : UInt64
  allValue : UInt64
  symbol : Blob
  name : Blob
  emission : Bool
  txHash : Blob
  deriving DecidableEq

instance : Inhabited Token :=
  ⟨{ type := ∅, owner := default, decimals := 0, beginValue := 0, allValue := 0, symbol := ∅,
     name := ∅, emission := false, txHash := ∅ }⟩

namespace Token

/-- The stored form; the owner must be set. -/
def serialize (t : Token) : Except Err Bytes := do
  let owner ← t.owner.toBdString
  pure (serializeString t.type ++ (serializeString owner ++ (serializeInt 4 t.decimals.toNat ++
    (serializeUInt64 t.beginValue ++ (serializeUInt64 t.allValue ++ (serializeString t.symbol ++
      (serializeString t.name ++ (serializeBool t.emission ++ serializeString t.txHash))))))))

/-- What is read of a stored token; of nothing an empty one. -/
def deserialize : Blob → Except Err Token :=
  deserializeOr default (do
    let type ← deserializeString
    let owner ← deserializeString
    let decimals ← deserializeInt 4
    let beginValue ← deserializeUInt64
    let allValue ← deserializeUInt64
    let symbol ← deserializeString
    let name ← deserializeString
    let emission ← deserializeInt 1
    let txHash ← deserializeString
    pure { type, owner := Address.ofBlob owner, decimals := UInt32.ofNat decimals, beginValue,
           allValue, symbol, name, emission := emission == 1, txHash })

/-- **A stored token reads back**, its owner as the bytes it is stored by. -/
theorem deserialize_serialize {t : Token} {raw : Blob} (h : t.serialize = .ok raw.val) :
    ∃ owner, t.owner.toBdString = .ok owner ∧
      deserialize raw = .ok { t with owner := Address.ofBlob owner } := by
  cases ho : t.owner.toBdString with
  | error e => simp [serialize, ho, Bind.bind, Except.bind] at h
  | ok owner =>
      simp only [serialize, ho, Bind.bind, Except.bind, Pure.pure, Except.pure] at h
      refine ⟨owner, rfl, ?_⟩
      refine deserializeOr_of_reads ?_ ?_
      · rw [← Except.ok.inj h, List.length_append, length_serializeString]
        unfold sizeofSizeT; omega
      · rw [← Except.ok.inj h]
        have hdec := reads_int (w := 4) (by decide) t.decimals.toNat_lt
        have hem : Reads (deserializeInt 1) (serializeBool t.emission) (if t.emission then 1 else 0) :=
          reads_int (by decide) (by split <;> decide)
        refine (reads_string t.type).bind ((reads_string owner).bind (hdec.bind
          ((reads_uint64 t.beginValue).bind ((reads_uint64 t.allValue).bind
            ((reads_string t.symbol).bind ((reads_string t.name).bind (hem.bind ?_)))))))
        have hlast := (reads_string t.txHash).map (f := fun txHash =>
          ({ t with owner := Address.ofBlob owner, decimals := UInt32.ofNat t.decimals.toNat,
                    emission := (if t.emission then 1 else 0) == 1, txHash } : Token))
        have heq : ((if t.emission then 1 else 0) == 1) = t.emission := by cases t.emission <;> rfl
        rw [heq, UInt32.ofNat_toNat] at hlast
        rw [heq, UInt32.ofNat_toNat]
        exact hlast

/-- A token as it is read back. -/
def stored (t : Token) : Token :=
  match t.owner.toBdString with
  | .ok owner => { t with owner := Address.ofBlob owner }
  | .error _ => t

theorem deserialize_stored {t : Token} {raw : Blob} (h : t.serialize = .ok raw.val) :
    deserialize raw = .ok t.stored := by
  obtain ⟨owner, ho, hread⟩ := deserialize_serialize h
  unfold stored
  rw [ho]
  exact hread

end Token

/-! ## DelegateState -/

/-- A delegation that stands: how much, and in which transaction. -/
structure DelegateState where
  value : UInt64
  hash : Blob
  deriving DecidableEq

instance : Inhabited DelegateState := ⟨⟨0, ∅⟩⟩

namespace DelegateState

/-- The stored form; the hash must be there. -/
def serialize (d : DelegateState) : Except Err Bytes := do
  check (!d.hash.isEmpty) "DelegateState not initialized"
  pure (serializeUInt64 d.value ++ serializeString d.hash)

/-- What is read of a stored delegation; of nothing an empty one. -/
def deserialize : Blob → Except Err DelegateState :=
  deserializeOr default (do
    let value ← deserializeUInt64
    let hash ← deserializeString
    pure { value, hash })

theorem serialize_eq_ok {d : DelegateState} {raw : Bytes} (h : d.serialize = .ok raw) :
    d.hash.isEmpty = false ∧ raw = serializeUInt64 d.value ++ serializeString d.hash := by
  cases he : d.hash.isEmpty with
  | true => simp [serialize, he, Bind.bind, Except.bind] at h
  | false =>
      simp only [serialize, he, Bool.not_false, check_true, Bind.bind, Except.bind] at h
      exact ⟨rfl, (Except.ok.inj h).symm⟩

/-- A stored delegation reads back. -/
theorem deserialize_serialize {d : DelegateState} {raw : Blob} (h : d.serialize = .ok raw.val) :
    deserialize raw = .ok d := by
  obtain ⟨_, hraw⟩ := serialize_eq_ok h
  refine deserializeOr_of_reads ?_ ?_
  · rw [hraw, List.length_append, length_serializeUInt64]
    unfold sizeofSizeT; omega
  · rw [hraw]
    exact (reads_uint64 d.value).bind ((reads_string d.hash).map 
      (f := fun hash => ({ value := d.value, hash } : DelegateState)))

end DelegateState

/-! ## AddressInfo -/

/-- Where a transaction of an address stands: in its file, and in the chain. -/
structure AddressInfo where
  filePos : FilePosition
  blockNumber : UInt64
  blockIndex : UInt64
  undelegateValue : Option UInt64
  deriving DecidableEq

namespace AddressInfo

/-- A transaction at this place, without a value that was taken back. -/
def new (pos : UInt64) (fileName : Blob) (blockNumber index : UInt64) : AddressInfo :=
  { filePos := { fileNameRelative := fileName, pos }, blockNumber, blockIndex := index,
    undelegateValue := none }

/-- The stored form; the block must have a number, and a value taken back stands last. -/
def serialize (a : AddressInfo) : Except Err Bytes := do
  check (a.blockNumber != 0) "AddressInfo not initialized"
  let filePos ← a.filePos.serialize
  pure (filePos ++ serializeUInt64 a.blockNumber ++ serializeUInt64 a.blockIndex ++
    (match a.undelegateValue with
      | none => []
      | some value => serializeUInt64 value))

/-- What is stored; the value is there if anything is behind the index. -/
def deserialize : Blob → Except Err AddressInfo :=
  deserializeAll (do
    let filePos ← FilePosition.deserialize
    let blockNumber ← deserializeUInt64
    let blockIndex ← deserializeUInt64
    let fromPos ← position
    let raw ← input
    if fromPos < raw.length then do
      let undelegateValue ← deserializeUInt64
      pure { filePos, blockNumber, blockIndex, undelegateValue := some undelegateValue }
    else pure { filePos, blockNumber, blockIndex, undelegateValue := none })

/-- **A stored entry reads back.** -/
theorem deserialize_serialize {a : AddressInfo} {raw : Blob} (h : a.serialize = .ok raw.val) :
    deserialize raw = .ok a := by
  obtain ⟨-, h⟩ := check_bind_eq_ok.mp h
  obtain ⟨pos, hpos, h⟩ := bind_eq_ok.mp h
  have hraw := (Except.ok.inj h).symm
  rw [List.append_assoc, List.append_assoc] at hraw
  have hlen := raw.property
  have hfile := FilePosition.reads hpos raw.val 0 _ hlen hraw
  have hdrop : raw.val.drop (0 + pos.length) = serializeUInt64 a.blockNumber ++
      (serializeUInt64 a.blockIndex ++ (match a.undelegateValue with
        | none => []
        | some value => serializeUInt64 value)) := by
    rw [Nat.zero_add, hraw, List.drop_left]
  have hnumber := reads_uint64 a.blockNumber raw.val _ _ hlen hdrop
  rw [length_serializeUInt64] at hnumber
  have hdrop' := congrArg (List.drop sizeofSizeT) hdrop
  rw [List.drop_drop, List.drop_left' (length_serializeUInt64 _)] at hdrop'
  have hindex := reads_uint64 a.blockIndex raw.val _ _ hlen hdrop'
  rw [length_serializeUInt64] at hindex
  have hdrop'' := congrArg (List.drop sizeofSizeT) hdrop'
  rw [List.drop_drop, List.drop_left' (length_serializeUInt64 _)] at hdrop''
  have hsize := congrArg List.length hdrop''
  rw [List.length_drop] at hsize
  unfold deserialize deserializeAll
  simp only [runFrom_bind, hfile, hnumber, hindex, Except.bind, runFrom_position, runFrom_input]
  cases hval : a.undelegateValue with
  | none =>
      rw [hval] at hsize
      rw [if_neg (by simp only [List.length_nil] at hsize; omega)]
      simp only [runFrom_pure, Except.map, ← hval]
  | some value =>
      rw [hval] at hsize hdrop''
      have hvalue := reads_uint64 value raw.val _ [] hlen (hdrop''.trans (List.append_nil _).symm)
      rw [if_pos (by rw [length_serializeUInt64] at hsize; unfold sizeofSizeT at hsize ⊢; omega)]
      simp only [runFrom_bind, hvalue, Except.bind, runFrom_pure, Except.map, ← hval]

end AddressInfo

/-! ## CommonBalance and ForgingSums -/

/-- All money that there is, after a block. -/
structure CommonBalance where
  money : UInt64
  blockNumber : UInt64
  deriving DecidableEq

instance : Inhabited CommonBalance := ⟨⟨0, 0⟩⟩

namespace CommonBalance

/-- The stored form. -/
def serialize (c : CommonBalance) : Except Err Bytes :=
  pure (serializeUInt64 c.money ++ serializeUInt64 c.blockNumber)

/-- What is read of the stored money; of nothing none. -/
def deserialize : Blob → Except Err CommonBalance :=
  deserializeOr default (do
    let money ← deserializeUInt64
    let blockNumber ← deserializeUInt64
    pure { money, blockNumber })

theorem deserialize_serialize {c : CommonBalance} {raw : Blob} (h : c.serialize = .ok raw.val) :
    deserialize raw = .ok c := by
  have hraw := (Except.ok.inj h).symm
  refine deserializeOr_of_reads ?_ ?_
  · rw [hraw, List.length_append, length_serializeUInt64]
    unfold sizeofSizeT
    omega
  · rw [hraw]
    exact (reads_uint64 c.money).bind ((reads_uint64 c.blockNumber).map
      (f := fun blockNumber => ({ c with blockNumber } : CommonBalance)))

end CommonBalance

/-- What was forged by each kind of forging transaction, after a block. -/
structure ForgingSums where
  sums : OrdMap UInt64 UInt64
  blockNumber : UInt64
  deriving DecidableEq

instance : Inhabited ForgingSums := ⟨⟨∅, 0⟩⟩

namespace ForgingSums

/-- `serialize`; the order of an `unordered_map` is not defined, here it is that of the keys. -/
def serialize (f : ForgingSums) : Except Err Bytes :=
  pure (serializeInt sizeofSizeT f.sums.entries.length ++
    f.sums.entries.flatMap (fun e => serializeUInt64 e.1 ++ serializeUInt64 e.2) ++
    serializeUInt64 f.blockNumber)

/-- What `deserialize` does with the input. -/
def reader : Deserializer ForgingSums := do
  let size ← deserializeInt sizeofSizeT
  let elements ← replicateM (do
    let key ← deserializeUInt64
    let value ← deserializeUInt64
    pure (key, value)) size
  let blockNumber ← deserializeUInt64
  pure { sums := elements.foldl (fun m e => m.emplace e.1 e.2) ∅, blockNumber }

/-- What is read of stored sums; of nothing none. -/
def deserialize : Blob → Except Err ForgingSums := deserializeOr default reader

/-- `operator+=`. -/
def add (f second : ForgingSums) : ForgingSums :=
  { sums := second.sums.entries.foldl (fun m e => m.insert e.1 ((m.find? e.1).getD 0 + e.2)) f.sums
    blockNumber := max f.blockNumber second.blockNumber }

/-- What is written when the map of the sums is walked in this order. -/
def written (f : ForgingSums) (sums : List (UInt64 × UInt64)) : Bytes :=
  serializeInt sizeofSizeT sums.length ++
    sums.flatMap (fun e => serializeUInt64 e.1 ++ serializeUInt64 e.2) ++
    serializeUInt64 f.blockNumber

theorem serialize_eq (f : ForgingSums) : f.serialize = .ok (f.written f.sums.entries) := rfl

/-- **Written sums read back**, in whatever order they were written. -/
theorem reads_written {f : ForgingSums} {sums : List (UInt64 × UInt64)}
    (hsums : sums.Perm f.sums.entries) (hlen : (f.written sums).length < 2 ^ 63) :
    Reads reader (f.written sums) f := by
  have hcount : sums.length ≤
      (sums.flatMap (fun e => serializeUInt64 e.1 ++ serializeUInt64 e.2)).length := by
    refine length_le_flatMap (fun e _ => ?_)
    rw [List.length_append, length_serializeUInt64, length_serializeUInt64]
    decide
  rw [written, List.length_append, List.length_append] at hlen
  have hsmall : sums.length < 256 ^ sizeofSizeT := by unfold sizeofSizeT; omega
  have hpair : ∀ e ∈ sums, Reads (do
      let key ← deserializeUInt64
      let value ← deserializeUInt64
      pure (key, value)) (serializeUInt64 e.1 ++ serializeUInt64 e.2) e := fun e _ =>
    (reads_uint64 e.1).bind ((reads_uint64 e.2).map (f := fun value => (e.1, value)))
  have hnumber := (reads_uint64 f.blockNumber).map (f := fun blockNumber =>
    ({ sums := f.sums, blockNumber } : ForgingSums))
  rw [written, List.append_assoc]
  refine (reads_int (by decide) hsmall).bind ((Decodes.replicateM hpair).bind ?_)
  rw [OrdMap.foldl_emplace_of_perm hsums]
  exact hnumber

end ForgingSums

/-! ## The block-info records of the workers -/

/-- `struct MainBlockInfo` and, with the same fields and checks, `ScriptBlockInfo` and
`NodeStatBlockInfo`: the block a worker wrote last. -/
structure WorkerBlockInfo where
  blockNumber : UInt64
  blockHash : Blob
  countVal : UInt64
  deriving DecidableEq

instance : Inhabited WorkerBlockInfo := ⟨⟨0, ∅, 0⟩⟩

namespace WorkerBlockInfo

/-- `serialize()`, its second message naming the struct. -/
def serialize (name : String) (m : WorkerBlockInfo) : Except Err Bytes := do
  check (!m.blockHash.isEmpty) "Incorrect metadata"
  check (m.blockNumber != 0) (name ++ " not initialized")
  pure (serializeString m.blockHash ++ (serializeUInt64 m.blockNumber ++ serializeUInt64 m.countVal))

/-- What is read of a stored number; of nothing zeros and an empty hash. -/
def deserialize : Blob → Except Err WorkerBlockInfo :=
  deserializeOr default (do
    let blockHash ← deserializeString
    let blockNumber ← deserializeUInt64
    let countVal ← deserializeUInt64
    pure { blockNumber, blockHash, countVal })

theorem serialize_eq_ok {name : String} {m : WorkerBlockInfo} {raw : Bytes}
    (h : m.serialize name = .ok raw) :
    m.blockHash ≠ ∅ ∧ m.blockNumber ≠ 0 ∧
      raw = serializeString m.blockHash ++
        (serializeUInt64 m.blockNumber ++ serializeUInt64 m.countVal) := by
  cases he : m.blockHash.isEmpty with
  | true => simp [serialize, he, Bind.bind, Except.bind] at h
  | false =>
      cases hz : m.blockNumber != 0 with
      | false => simp [serialize, he, hz, Bind.bind, Except.bind] at h
      | true =>
          simp only [serialize, he, hz, Bool.not_false, check_true, Bind.bind, Except.bind] at h
          exact ⟨Blob.isEmpty_eq_false.mp he, bne_iff_ne.mp hz, (Except.ok.inj h).symm⟩

/-- **A stored block-info record reads back.** -/
theorem deserialize_serialize {name : String} {m : WorkerBlockInfo} {raw : Blob}
    (h : m.serialize name = .ok raw.val) : deserialize raw = .ok m := by
  obtain ⟨_, _, hraw⟩ := serialize_eq_ok h
  refine deserializeOr_of_reads ?_ ?_
  · rw [hraw, List.length_append, length_serializeString]
    unfold sizeofSizeT; omega
  · rw [hraw]
    exact (reads_string m.blockHash).bind ((reads_uint64 m.blockNumber).bind
      ((reads_uint64 m.countVal).map (f := fun countVal => ({ m with countVal } : WorkerBlockInfo))))

end WorkerBlockInfo

end TorrentNode
