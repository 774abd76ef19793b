import TorrentNode.Lib.OrdSet
import TorrentNode.Structs.Records

/-!
# The records of the node-test worker (`NodeTestsBlockInfo.h`)
-/

namespace TorrentNode

open CursorReader

/-- What `parseTestNodeTransaction` finds in a transaction. -/
structure NodeTestResult where
  serverAddress : Blob
  testerAddress : Address
  typeNode : Blob
  result : Blob
  ip : Blob
  geo : Blob
  rps : UInt64
  success : Bool
  isForwardSort : Bool
  deriving DecidableEq

/-- A test of a node: when and where it was made, its result, and its transaction. -/
structure BestNodeElement where
  timestamp : UInt64
  geo : Blob
  rps : UInt64
  txPos : FilePosition
  deriving DecidableEq

namespace BestNodeElement

/-- The stored form. -/
def serialize (e : BestNodeElement) : Except Err Bytes := do
  let txPos ← e.txPos.serialize
  pure (serializeUInt64 e.timestamp ++ serializeString e.geo ++ serializeUInt64 e.rps ++ txPos)

/-- A stored test. -/
def deserialize : Deserializer BestNodeElement := do
  let timestamp ← deserializeUInt64
  let geo ← deserializeString
  let rps ← deserializeUInt64
  let txPos ← FilePosition.deserialize
  pure { timestamp, geo, rps, txPos }

/-- What an element serialises to reads back. -/
theorem reads {e : BestNodeElement} {raw : Bytes} (h : e.serialize = .ok raw) :
    0 < raw.length ∧ Reads deserialize raw e := by
  obtain ⟨txPos, hpos, h⟩ := bind_eq_ok.mp h
  have hraw := (Except.ok.inj h).symm
  rw [List.append_assoc, List.append_assoc] at hraw
  subst hraw
  refine ⟨by rw [List.length_append, length_serializeUInt64]; unfold sizeofSizeT; omega, ?_⟩
  refine (reads_uint64 e.timestamp).bind ((reads_string e.geo).bind ((reads_uint64 e.rps).bind ?_))
  exact (FilePosition.reads hpos).map (f := fun txPos => ({ e with txPos } : BestNodeElement))

/-- A list of elements reads back. -/
theorem reads_all : ∀ {tests : List BestNodeElement} {parts : List Bytes},
    tests.mapM serialize = .ok parts → tests.length ≤ parts.flatten.length ∧
      Reads (replicateM deserialize tests.length) parts.flatten tests
  | [], _, h => by
      obtain rfl := Except.ok.inj h
      exact ⟨le_refl _, Decodes.pure []⟩
  | e :: tests, _, h => by
      rw [List.mapM_cons] at h
      obtain ⟨part, hpart, h⟩ := bind_eq_ok.mp h
      obtain ⟨parts, hparts, h⟩ := bind_eq_ok.mp h
      obtain rfl := Except.ok.inj h
      obtain ⟨hpos, hread⟩ := reads hpart
      obtain ⟨hle, hreads⟩ := reads_all hparts
      refine ⟨?_, hread.bind (hreads.map (f := fun tests => e :: tests))⟩
      rw [List.flatten_cons, List.length_append, List.length_cons]
      omega

end BestNodeElement

/-- The tests of a node on the last day on which it was tested. -/
structure BestNodeTest where
  tests : List BestNodeElement
  day : UInt64
  isMaxElement : Bool
  deserialized : Bool
  deriving DecidableEq

namespace BestNodeTest

/-- `BestNodeTest(isMaxElement)`. -/
def new (isMaxElement : Bool) : BestNodeTest :=
  { tests := [], day := 0, isMaxElement, deserialized := false }

/-- One more test; the first of another day takes the place of those before it. -/
def addElement (t : BestNodeTest) (element : BestNodeElement) (currDay : UInt64) : BestNodeTest :=
  if t.day ≠ currDay then { t with tests := [element], day := currDay }
  else { t with tests := t.tests ++ [element] }

/-- The stored form: the tests, the day and the order they are to be sorted in. -/
def serialize (t : BestNodeTest) : Except Err Bytes := do
  let tests ← t.tests.mapM BestNodeElement.serialize
  pure (serializeInt sizeofSizeT t.tests.length ++ tests.flatten ++ serializeUInt64 t.day ++
    serializeBool t.isMaxElement)

/-- What `deserialize` does with the input. -/
def reader : Deserializer BestNodeTest := do
  let testsSize ← deserializeInt sizeofSizeT
  let tests ← replicateM BestNodeElement.deserialize testsSize
  let day ← deserializeUInt64
  let isMaxElement ← deserializeInt 1
  pure { tests, day, isMaxElement := isMaxElement == 1, deserialized := true }

/-- What is read of stored tests; of nothing none. -/
def deserialize : Blob → Except Err BestNodeTest := deserializeOr (new true) reader

/-- **Stored results read back.** -/
theorem reads {t : BestNodeTest} {raw : Bytes} (h : t.serialize = .ok raw)
    (hlen : raw.length < 2 ^ 63) :
    Reads reader raw { t with deserialized := true } ∧ 0 < raw.length := by
  obtain ⟨parts, hparts, h⟩ := bind_eq_ok.mp h
  have hraw := (Except.ok.inj h).symm
  rw [List.append_assoc, List.append_assoc] at hraw
  obtain ⟨hle, htests⟩ := BestNodeElement.reads_all hparts
  rw [hraw, List.length_append, List.length_append] at hlen
  have hsmall : t.tests.length < 256 ^ sizeofSizeT := by unfold sizeofSizeT; omega
  subst hraw
  constructor
  · have hmax : Reads (deserializeInt 1) (serializeBool t.isMaxElement)
        (if t.isMaxElement then 1 else 0) := reads_int (by decide) (by split <;> decide)
    have heq : ((if t.isMaxElement then 1 else 0) == 1) = t.isMaxElement := by
      cases t.isMaxElement <;> rfl
    refine (reads_int (by decide) hsmall).bind (htests.bind ((reads_uint64 t.day).bind ?_))
    have hlast := hmax.map (f := fun isMaxElement =>
      ({ t with isMaxElement := isMaxElement == 1, deserialized := true } : BestNodeTest))
    rw [heq] at hlast
    exact hlast
  · rw [List.length_append, length_serializeInt]
    unfold sizeofSizeT; omega

theorem deserialize_serialize {t : BestNodeTest} {raw : Blob} (h : t.serialize = .ok raw.val) :
    deserialize raw = .ok { t with deserialized := true } :=
  deserializeOr_of_reads (reads h raw.property).2 (reads h raw.property).1

end BestNodeTest

/-- How far a node is trusted, and the text that said so. -/
structure NodeTestTrust where
  trustJson : Blob
  timestamp : UInt64
  /-- The bits of the `int`, widened. -/
  trust : UInt64
  deriving DecidableEq

/-- The stored form. -/
def NodeTestTrust.serialize (t : NodeTestTrust) : Except Err Bytes :=
  pure (serializeString t.trustJson ++ serializeUInt64 t.timestamp ++ serializeUInt64 t.trust)

/-- The day, counted in state blocks. -/
structure NodeTestDayNumber where
  dayNumber : UInt64
  deriving DecidableEq

namespace NodeTestDayNumber

/-- The stored form. -/
def serialize (d : NodeTestDayNumber) : Except Err Bytes := pure (serializeUInt64 d.dayNumber)

/-- What is read of a stored day; of nothing day zero. -/
def deserialize : Blob → Except Err NodeTestDayNumber :=
  deserializeOr ⟨0⟩ (do
    let dayNumber ← deserializeUInt64
    pure { dayNumber })

theorem deserialize_serialize {d : NodeTestDayNumber} {raw : Blob} (h : d.serialize = .ok raw.val) :
    deserialize raw = .ok d := by
  have hraw := (Except.ok.inj h).symm
  refine deserializeOr_of_reads ?_ ?_
  · rw [hraw, length_serializeUInt64]
    decide
  · rw [hraw]
    exact (reads_uint64 d.dayNumber).map (f := NodeTestDayNumber.mk)

end NodeTestDayNumber

/-- The nodes that were tested on a day. -/
structure AllTestedNodes where
  nodes : OrdMap Blob Unit
  day : UInt64
  deriving DecidableEq

namespace AllTestedNodes

/-- The stored form: the day, and the nodes in the order of their names. -/
def serialize (n : AllTestedNodes) : Except Err Bytes :=
  pure (serializeUInt64 n.day ++ serializeInt sizeofSizeT n.nodes.entries.length ++
    n.nodes.entries.flatMap (fun e => serializeString e.1))

/-- What is read of stored nodes; of nothing none, on day zero. -/
def deserialize : Blob → Except Err AllTestedNodes :=
  deserializeOr ⟨∅, 0⟩ (do
    let day ← deserializeUInt64
    let count ← deserializeInt sizeofSizeT
    let nodes ← replicateM deserializeString count
    pure { day, nodes := nodes.foldl (fun m node => m.insert node ()) ∅ })

/-- The nodes of both; the day stays. -/
def plus (n nodes : AllTestedNodes) : AllTestedNodes :=
  { n with nodes := nodes.nodes.entries.foldl (fun m e => m.insert e.1 ()) n.nodes }

/-- **`plus` is the union.** -/
theorem find?_plus {n nodes : AllTestedNodes} {node : Blob} :
    (n.plus nodes).nodes.find? node = some () ↔
      nodes.nodes.find? node = some () ∨ n.nodes.find? node = some () := by
  have hfold : (n.plus nodes).nodes =
      (nodes.nodes.entries.map Prod.fst).foldl (fun m node => m.insert node ()) n.nodes := by
    rw [List.foldl_map]
    rfl
  rw [hfold, OrdSet.find?_foldl_insert, List.mem_map]
  refine or_congr ?_ Iff.rfl
  constructor
  · rintro ⟨e, he, hnode⟩
    subst hnode
    exact OrdMap.mem_entries.mp he
  · exact fun h => ⟨(node, ()), OrdMap.mem_entries.mpr h, rfl⟩

/-- **A stored set reads back.** -/
theorem deserialize_serialize {n : AllTestedNodes} {raw : Blob} (h : n.serialize = .ok raw.val) :
    deserialize raw = .ok n := by
  have hraw := (Except.ok.inj h).symm
  rw [List.append_assoc, ← List.flatMap_map Prod.fst (fun node => serializeString node)] at hraw
  obtain ⟨keys, hkeys⟩ : ∃ keys, n.nodes.entries.map Prod.fst = keys := ⟨_, rfl⟩
  have hcount : n.nodes.entries.length = keys.length := by rw [← hkeys, List.length_map]
  rw [hkeys, hcount] at hraw
  have hlen := raw.property
  have hle : keys.length ≤ (keys.flatMap (fun node => serializeString node)).length := by
    refine length_le_flatMap (fun node _ => ?_)
    rw [length_serializeString]
    unfold sizeofSizeT; omega
  rw [hraw, List.length_append, List.length_append] at hlen
  have hsmall : keys.length < 256 ^ sizeofSizeT := by unfold sizeofSizeT; omega
  refine deserializeOr_of_reads ?_ ?_
  · rw [hraw, List.length_append, length_serializeUInt64]
    unfold sizeofSizeT; omega
  · rw [hraw]
    have hsame : keys.foldl (fun m node => m.insert node ()) ∅ = n.nodes := by
      refine OrdMap.ext (fun node => Option.ext (fun u => ?_))
      cases u
      rw [OrdSet.find?_foldl_insert, ← hkeys, List.mem_map]
      constructor
      · intro hfound
        rcases hfound with ⟨e, he, hnode⟩ | hempty
        · subst hnode
          exact OrdMap.mem_entries.mp he
        · cases hempty
      · exact fun hfound => Or.inl ⟨(node, ()), OrdMap.mem_entries.mpr hfound, rfl⟩
    refine (reads_uint64 n.day).bind ((reads_int (by decide) hsmall).bind ?_)
    have hkeys : Reads (replicateM deserializeString keys.length)
        (keys.flatMap (fun node => serializeString node)) keys :=
      Decodes.replicateM (fun node _ => reads_string node)
    have hlast := hkeys.map
      (f := fun nodes => ({ day := n.day, nodes := nodes.foldl (fun m node => m.insert node ()) ∅ } :
        AllTestedNodes))
    rw [hsame] at hlast
    exact hlast

end AllTestedNodes

/-- What a node was registered with. -/
structure AllNodesNode where
  name : Blob
  type : Blob
  deriving DecidableEq

/-- All nodes that were registered, by their hosts. -/
structure AllNodes where
  nodes : OrdMap Blob AllNodesNode
  deriving DecidableEq

namespace AllNodes

/-- The stored form: each host with its name and its type. -/
def serialize (n : AllNodes) : Except Err Bytes :=
  pure (serializeInt sizeofSizeT n.nodes.entries.length ++
    n.nodes.entries.flatMap (fun e =>
      serializeString e.1 ++ serializeString e.2.name ++ serializeString e.2.type))

/-- What `deserialize` does with the input. -/
def reader : Deserializer AllNodes := do
  let count ← deserializeInt sizeofSizeT
  let nodes ← replicateM (do
    let node ← deserializeString
    let name ← deserializeString
    let type ← deserializeString
    pure (node, ({ name, type } : AllNodesNode))) count
  pure { nodes := nodes.foldl (fun m e => m.insert e.1 e.2) ∅ }

/-- What is read of stored nodes; of nothing none. -/
def deserialize : Blob → Except Err AllNodes := deserializeOr ⟨∅⟩ reader

/-- `plus(second)`: a node that is known already stays as it is. -/
def plus (n second : AllNodes) : AllNodes :=
  { nodes := second.nodes.entries.foldl (fun m e => m.emplace e.1 e.2) n.nodes }

/-- **Stored nodes read back.** -/
theorem reads {n : AllNodes} {raw : Bytes} (h : n.serialize = .ok raw) (hlen : raw.length < 2 ^ 63) :
    Reads reader raw n ∧ 0 < raw.length := by
  have hraw := (Except.ok.inj h).symm
  have hcount : n.nodes.entries.length ≤ (n.nodes.entries.flatMap (fun e =>
      serializeString e.1 ++ serializeString e.2.name ++ serializeString e.2.type)).length := by
    refine length_le_flatMap (fun e _ => ?_)
    rw [List.length_append, List.length_append, length_serializeString]
    unfold sizeofSizeT; omega
  rw [hraw, List.length_append] at hlen
  have hsmall : n.nodes.entries.length < 256 ^ sizeofSizeT := by unfold sizeofSizeT; omega
  subst hraw
  constructor
  · have hnode : ∀ e ∈ n.nodes.entries, Reads (do
        let node ← deserializeString
        let name ← deserializeString
        let type ← deserializeString
        pure (node, ({ name, type } : AllNodesNode)))
        (serializeString e.1 ++ serializeString e.2.name ++ serializeString e.2.type) e := by
      intro e _
      rw [List.append_assoc]
      exact (reads_string e.1).bind ((reads_string e.2.name).bind
        ((reads_string e.2.type).map (f := fun type => (e.1, ({ e.2 with type } : AllNodesNode)))))
    have hlast := (Decodes.replicateM hnode).map (f := fun nodes =>
      ({ nodes := nodes.foldl (fun m e => m.insert e.1 e.2) ∅ } : AllNodes))
    rw [OrdMap.foldl_insert_of_perm (List.Perm.refl _)] at hlast
    exact (reads_int (by decide) hsmall).bind hlast
  · rw [List.length_append, length_serializeInt]
    unfold sizeofSizeT; omega

theorem deserialize_serialize {n : AllNodes} {raw : Blob} (h : n.serialize = .ok raw.val) :
    deserialize raw = .ok n :=
  deserializeOr_of_reads (reads h raw.property).2 (reads h raw.property).1

end AllNodes

/-- The results of a node on a day, one after the other. -/
structure NodeRps where
  rps : List UInt64
  deriving DecidableEq

namespace NodeRps

/-- The stored form. -/
def serialize (n : NodeRps) : Except Err Bytes :=
  pure (serializeInt sizeofSizeT n.rps.length ++ n.rps.flatMap serializeUInt64)

/-- What is read of stored results; of nothing none. -/
def deserialize : Blob → Except Err NodeRps :=
  deserializeOr ⟨[]⟩ (do
    let count ← deserializeInt sizeofSizeT
    let rps ← replicateM deserializeUInt64 count
    pure { rps })

/-- **Stored results read back.** -/
theorem deserialize_serialize {n : NodeRps} {raw : Blob} (h : n.serialize = .ok raw.val) :
    deserialize raw = .ok n := by
  have hraw := (Except.ok.inj h).symm
  have hlen := raw.property
  have hle : n.rps.length ≤ (n.rps.flatMap serializeUInt64).length := by
    refine length_le_flatMap (fun x _ => ?_)
    rw [length_serializeUInt64]
    decide
  rw [hraw, List.length_append] at hlen
  have hsmall : n.rps.length < 256 ^ sizeofSizeT := by unfold sizeofSizeT; omega
  refine deserializeOr_of_reads ?_ ?_
  · rw [hraw, List.length_append, length_serializeInt]
    unfold sizeofSizeT; omega
  · rw [hraw]
    refine (reads_int (by decide) hsmall).bind ?_
    have hrps : Reads (replicateM deserializeUInt64 n.rps.length) (n.rps.flatMap serializeUInt64)
        n.rps := Decodes.replicateM (fun x _ => reads_uint64 x)
    exact hrps.map (f := NodeRps.mk)

end NodeRps

end TorrentNode
