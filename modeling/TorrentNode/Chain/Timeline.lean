import Mathlib.Data.List.Induction
import TorrentNode.Lib.OrdMap
import TorrentNode.Structs.BlockInfo
import TorrentNode.Structs.SignBlock

/-!
# The timeline (`BlocksTimeline`)

All blocks in the order they came, signature blocks among them, with an index by
hash. An iterator into the list is the position it points at.
-/

namespace TorrentNode

open CursorReader

namespace BlocksTimeline

/-- `Element`, a variant of a `SignBlockElement` and a `SimpleBlockElement`. -/
inductive Element where
  | sign (block : MinimumSignBlockHeader)
  | simple (hash : Blob)
  deriving DecidableEq

namespace Element

/-- `e.hash`, which both alternatives have. -/
def hash : Element → Blob
  | sign block => block.hash
  | simple hash => hash

/-- `serializeElement`: the index of the alternative, and it. -/
def serialize : Element → Except Err Bytes
  | sign block => do
    let raw ← block.serialize
    pure (serializeUInt64 0 ++ raw)
  | simple hash => do
    check (!hash.isEmpty) "empty hash"
    pure (serializeUInt64 1 ++ serializeString hash)

/-- `deserializeVarint` at `Element`. -/
def deserialize : Deserializer Element := do
  let number ← deserializeUInt64
  if 2 ≤ number then fail (.exception "Incorrect type in transaction status") else
    if number = 0 then do
      let block ← MinimumSignBlockHeader.deserialize
      pure (sign block)
    else do
      let hash ← deserializeString
      pure (simple hash)

end Element

end BlocksTimeline

/-- `BlocksTimeline`: blocks and sign blocks in the order in which they came. -/
structure BlocksTimeline where
  timeline : List BlocksTimeline.Element
  hashes : OrdMap Blob Nat
  signsParent : OrdMap Blob Nat
  deriving DecidableEq

namespace BlocksTimeline

/-- Nothing came yet. -/
def new : BlocksTimeline := { timeline := [], hashes := ∅, signsParent := ∅ }

/-- Put an element at the end. -/
def push (t : BlocksTimeline) (element : Element) : BlocksTimeline :=
  { timeline := t.timeline ++ [element]
    hashes := t.hashes.emplace element.hash t.timeline.length
    signsParent :=
      match element with
      | .sign block => t.signsParent.emplace block.prevHash t.timeline.length
      | .simple _ => t.signsParent }

@[simp] theorem timeline_push (t : BlocksTimeline) (e : Element) :
    (t.push e).timeline = t.timeline ++ [e] := rfl

@[simp] theorem hashes_push (t : BlocksTimeline) (e : Element) :
    (t.push e).hashes = t.hashes.emplace e.hash t.timeline.length := rfl

/-- `hashes.size()`. -/
def size (t : BlocksTimeline) : Nat := t.hashes.entries.length

/-- `addSimpleBlock` and `addSignBlock`: the key and the bytes to save it under. -/
def add (t : BlocksTimeline) (element : Element) : Except Err (UInt64 × Blob) × BlocksTimeline :=
  match t.hashes.find? element.hash with
  | some _ =>
    (.error (.exception ("Element " ++ toHex element.hash.val ++ " already exist")), t)
  | none =>
    let t := t.push element
    (do
      let raw ← element.serialize
      let serializedData ← Blob.ofBytes raw
      pure (UInt64.ofNat (t.size - 1), serializedData), t)

/-- A block came: the record to be stored, and the timeline with it. -/
def addSimpleBlock (t : BlocksTimeline) (bh : BlockHeader) :
    Except Err (UInt64 × Blob) × BlocksTimeline := t.add (.simple bh.hash)

/-- A sign block came. -/
def addSignBlock (t : BlocksTimeline) (bh : SignBlockHeader) :
    Except Err (UInt64 × Blob) × BlocksTimeline :=
  t.add (.sign { hash := bh.hash, filePos := bh.filePos, prevHash := bh.prevHash })

/-- `filter(elements, getter)`: leave out what is on the timeline already. -/
def filter {T : Type} (t : BlocksTimeline) (getter : T → Except Err Blob) :
    List T → Except Err (List T)
  | [] => .ok []
  | element :: elements => do
    let hash ← getter element
    let rest ← filter t getter elements
    pure (if (t.hashes.find? hash).isSome then rest else element :: rest)

/-- **What the filter leaves is a part of what there was, and is not on the timeline.** -/
theorem filter_eq_ok {T : Type} {t : BlocksTimeline} {getter : T → Except Err Blob} :
    ∀ {l l' : List T}, t.filter getter l = .ok l' →
      l'.Sublist l ∧ ∀ e ∈ l', ∃ hash, getter e = .ok hash ∧ t.hashes.find? hash = none
  | [], l', h => by
      cases h
      exact ⟨List.Sublist.refl _, by simp⟩
  | e :: l, l', h => by
      rw [filter] at h
      obtain ⟨hash, hhash, h⟩ := bind_eq_ok.mp h
      obtain ⟨rest, hrest, h⟩ := bind_eq_ok.mp h
      obtain ⟨hsub, hnew⟩ := filter_eq_ok hrest
      obtain rfl := Except.ok.inj h
      by_cases hin : (t.hashes.find? hash).isSome
      · rw [if_pos hin]
        exact ⟨hsub.cons _, hnew⟩
      · rw [if_neg hin]
        refine ⟨hsub.cons_cons _, ?_⟩
        intro x hx
        rcases List.mem_cons.mp hx with rfl | hx
        · exact ⟨hash, hhash, Option.not_isSome_iff_eq_none.mp hin⟩
        · exact hnew x hx

/-- The records one after the other, each at the number that it should have. -/
def deserialize : BlocksTimeline → List (UInt64 × Blob) → Except Err BlocksTimeline
  | t, [] => .ok t
  | t, (number, element) :: elements => do
    check (number.toNat == t.size) "Incorrect sequence"
    let el ← deserializeAll Element.deserialize element
    deserialize (t.push el) elements

/-- The timeline of these elements. -/
def built (els : List Element) : BlocksTimeline := els.foldl push new

theorem built_concat (els : List Element) (e : Element) : built (els ++ [e]) = (built els).push e :=
  List.foldl_append

@[simp] theorem timeline_built (els : List Element) : (built els).timeline = els := by
  induction els using List.reverseRecOn with
  | nil => rfl
  | append_singleton els e ih => rw [built_concat, timeline_push, ih]

/-- The index by hash knows the hashes of the elements. -/
theorem find?_hashes_built (els : List Element) (hash : Blob) :
    (built els).hashes.find? hash = none ↔ ∀ e ∈ els, e.hash ≠ hash := by
  induction els using List.reverseRecOn with
  | nil => exact ⟨fun _ e he => absurd he (List.not_mem_nil), fun _ => rfl⟩
  | append_singleton els e ih =>
      rw [built_concat, hashes_push]
      by_cases he : hash = e.hash
      · subst he
        refine iff_of_false ?_ (fun h => h e (by simp) rfl)
        cases hf : (built els).hashes.find? e.hash with
        | none =>
            rw [OrdMap.find?_emplace_of_none hf, if_pos rfl]
            simp
        | some n =>
            rw [OrdMap.find?_emplace_of_some hf]
            simp
      · rw [OrdMap.find?_emplace_ne he, ih]
        constructor
        · intro h x hx
          rcases List.mem_append.mp hx with hx | hx
          · exact h x hx
          · rw [List.mem_singleton.mp hx]
            exact fun h' => he h'.symm
        · exact fun h x hx => h x (List.mem_append_left _ hx)

/-- The index by hash knows where an element is. -/
theorem find?_hashes_of_eq {els past behind : List Element} {e : Element}
    (hels : els = past ++ e :: behind) (h : (els.map Element.hash).Nodup) :
    (built els).hashes.find? e.hash = some past.length := by
  subst hels
  induction behind using List.reverseRecOn with
  | nil =>
      rw [List.map_append, List.nodup_append] at h
      have hnew : (built past).hashes.find? e.hash = none := by
        rw [find?_hashes_built]
        intro x hx he
        exact h.2.2 x.hash (List.mem_map_of_mem hx) e.hash (by simp) he
      rw [built_concat, hashes_push, OrdMap.find?_emplace_of_none hnew, if_pos rfl, timeline_built]
  | append_singleton behind x ih =>
      have hassoc : past ++ e :: (behind ++ [x]) = past ++ e :: behind ++ [x] := by simp
      rw [hassoc] at h ⊢
      rw [List.map_append, List.nodup_append] at h
      rw [built_concat, hashes_push]
      exact OrdMap.find?_emplace_of_some (ih h.1)

/-- Elements with different hashes are as many as their hashes. -/
theorem size_built {els : List Element} (h : (els.map Element.hash).Nodup) :
    (built els).size = els.length := by
  induction els using List.reverseRecOn with
  | nil => rfl
  | append_singleton els e ih =>
      rw [List.map_append, List.map_singleton, List.nodup_append] at h
      have hnew : (built els).hashes.find? e.hash = none := by
        rw [find?_hashes_built]
        intro x hx he
        exact h.2.2 x.hash (List.mem_map_of_mem hx) e.hash (List.mem_singleton_self _) he
      rw [built_concat, size, hashes_push, OrdMap.length_emplace_of_none hnew, List.length_append]
      exact congrArg (· + 1) (ih h.1)

end BlocksTimeline

end TorrentNode
