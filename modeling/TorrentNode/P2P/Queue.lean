import Mathlib.Data.List.Nodup
import TorrentNode.Lib.OrdSet
import TorrentNode.P2P.Segments

/-!
# The queue of segments (`QueueP2P`)

The segments of one task at a time, taken by many threads. A thread holds a weak
reference to the element that it took: it stands for an element only while that is
in the queue. Each operation is done under the mutex of the queue.
-/

namespace TorrentNode

/-- A segment in the queue, who was asked for it, and who failed. -/
structure QueueElement where
  /-- Which object it is. -/
  id : Nat
  segment : Segment
  servers : OrdSet Blob
  errorServers : OrdSet Blob
  deriving DecidableEq

/-- `QueueP2P`, whose mutex each operation holds. -/
structure QueueP2P where
  queue : List QueueElement
  isStopped : Bool
  isError : Bool
  taskId : Nat
  /-- How many elements were made so far. -/
  made : Nat
  deriving DecidableEq

namespace QueueP2P

/-- A queue that was never started. -/
def new : QueueP2P := { queue := [], isStopped := true, isError := false, taskId := 0, made := 0 }

/-- `addElement`: one more segment at the end. -/
def addElement (q : QueueP2P) (segment : Segment) : Except Err Unit × QueueP2P :=
  if q.isStopped then (.error (.exception "Already stopped"), q)
  else
    (.ok (), { q with
      queue := q.queue ++ [{ id := q.made, segment, servers := ∅, errorServers := ∅ }]
      made := q.made + 1 })

/-- The element that a server gets: the last that it was not asked for yet. -/
def elementFor (q : QueueP2P) (currentServer : Blob) : Option QueueElement :=
  q.queue.reverse.find? (fun e => (e.servers.find? currentServer).isNone)

/-- `getElement`: `none` as long as it waits, `some none` when it returns false. -/
def getElement (q : QueueP2P) (currentServer : Blob) (taskId : Nat) :
    Except Err (Option (Option Nat × QueueP2P)) := do
  check (taskId ≤ q.taskId) "Ups"
  if taskId ≠ q.taskId ∨ q.isStopped then pure (some (none, q))
  else
    pure ((q.elementFor currentServer).map (fun e => (some e.id, { q with
      queue := { e with servers := OrdSet.add e.servers currentServer } ::
        q.queue.filter (fun x => x.id ≠ e.id) })))

/-- What a weak reference stands for. -/
def lock (q : QueueP2P) (id : Nat) : Option QueueElement := q.queue.find? (fun e => e.id = id)

/-- `QueueP2PElement::getSegment`. -/
def getSegment (q : QueueP2P) (id : Nat) : Option Segment := (q.lock id).map QueueElement.segment

/-- `removeElement`: the segment was answered. -/
def removeElement (q : QueueP2P) (id : Nat) : QueueP2P :=
  { q with queue := q.queue.filter (fun e => e.id ≠ id) }

/-- The segment was given up. -/
def removeElementError (q : QueueP2P) (id : Nat) : QueueP2P :=
  { q.removeElement id with isError := true }

/-- `errorElement`: how many servers failed on the element. -/
def errorElement (q : QueueP2P) (id : Nat) (server : Blob) : Nat × QueueP2P :=
  match q.lock id with
  | none => (0, q)
  | some element =>
    let e := { element with errorServers := OrdSet.add element.errorServers server }
    ((OrdSet.toList e.errorServers).length,
      { q with queue := q.queue.map (fun x => if x.id = id then e else x) })

/-- `waitEmpty` does not wait any longer. -/
def waitedEmpty (q : QueueP2P) : Bool := q.isStopped || q.queue.isEmpty

/-- `stop`: nothing is taken any longer. -/
def stop (q : QueueP2P) : QueueP2P := { q with isStopped := true, isError := false }

/-- `start(taskId)`: a stopped queue takes a task with a greater number. -/
def start (q : QueueP2P) (taskId : Nat) : Except Err Unit × QueueP2P :=
  if !q.isStopped then (.error (.exception "Already started"), q)
  else
    let q := { q with isStopped := false, isError := false }
    if taskId ≤ q.taskId then (.error (.exception "Incorrect sequences task"), q)
    else (.ok (), { q with taskId })

/-- The task, if the queue is not stopped. -/
def started (q : QueueP2P) : Option Nat := if q.isStopped then none else some q.taskId

/-- A segment was given up. -/
def error (q : QueueP2P) : Except Err Bool := do
  check (!q.isStopped) "Already stopped"
  pure q.isError

/-! ## What the operations of the threads leave -/

/-- An element as it was before this server may have failed on it. -/
structure Older (failed : Option (Nat × Blob)) (e e' : QueueElement) : Prop where
  id : e'.id = e.id
  segment : e'.segment = e.segment
  errorServers : ∀ server ∈ OrdSet.toList e.errorServers, server ∈ OrdSet.toList e'.errorServers
  failed : ∀ server ∈ OrdSet.toList e'.errorServers,
    server ∈ OrdSet.toList e.errorServers ∨ failed = some (e.id, server)

/-- Nothing is put into the queue, and nobody fails on an element but this server. -/
structure Shrinks (failed : Option (Nat × Blob)) (q q' : QueueP2P) : Prop where
  mem : ∀ e' ∈ q'.queue, ∃ e ∈ q.queue, Older failed e e'
  nodup : (q.queue.map QueueElement.id).Nodup → (q'.queue.map QueueElement.id).Nodup
  taskId : q'.taskId = q.taskId
  isStopped : q'.isStopped = q.isStopped
  made : q'.made = q.made

theorem Older.refl (failed : Option (Nat × Blob)) (e : QueueElement) : Older failed e e :=
  ⟨rfl, rfl, fun _ hs => hs, fun _ hs => Or.inl hs⟩

theorem Shrinks.refl (failed : Option (Nat × Blob)) (q : QueueP2P) : Shrinks failed q q :=
  ⟨fun e he => ⟨e, he, Older.refl failed e⟩, id, rfl, rfl, rfl⟩

theorem lock_eq_some {q : QueueP2P} {id : Nat} {e : QueueElement} (h : q.lock id = some e) :
    e ∈ q.queue ∧ e.id = id :=
  ⟨List.mem_of_find?_eq_some h, by simpa using List.find?_some h⟩

theorem lock_eq_none {q : QueueP2P} {id : Nat} (h : q.lock id = none) :
    ∀ e ∈ q.queue, e.id ≠ id := by
  intro e he
  simpa using List.find?_eq_none.mp h e he

/-- Elements of one id are one element. -/
theorem eq_of_id {q : QueueP2P} (hnd : (q.queue.map QueueElement.id).Nodup) {e e' : QueueElement}
    (he : e ∈ q.queue) (he' : e' ∈ q.queue) (hid : e.id = e'.id) : e = e' :=
  List.inj_on_of_nodup_map hnd he he' hid

theorem shrinks_removeElement (q : QueueP2P) (id : Nat) : Shrinks none q (q.removeElement id) where
  mem := fun e he => ⟨e, List.mem_of_mem_filter he, Older.refl none e⟩
  nodup := fun hnd => hnd.sublist (List.filter_sublist.map _)
  taskId := rfl
  isStopped := rfl
  made := rfl

theorem shrinks_removeElementError (q : QueueP2P) (id : Nat) :
    Shrinks none q (q.removeElementError id) :=
  { shrinks_removeElement q id with }

theorem shrinks_errorElement (q : QueueP2P) (id : Nat) (server : Blob) :
    Shrinks (some (id, server)) q (q.errorElement id server).2 := by
  unfold errorElement
  split
  · exact Shrinks.refl _ q
  · rename_i element hlock
    obtain ⟨hmem, hid⟩ := lock_eq_some hlock
    refine ⟨?_, ?_, rfl, rfl, rfl⟩
    · intro e' he'
      obtain ⟨e, he, rfl⟩ := List.mem_map.mp he'
      by_cases h : e.id = id
      · rw [if_pos h]
        refine ⟨element, hmem, rfl, rfl, fun _ hs => OrdSet.mem_toList_add.mpr (Or.inr hs), ?_⟩
        intro x hx
        rcases OrdSet.mem_toList_add.mp hx with rfl | hx
        · exact Or.inr (by rw [hid])
        · exact Or.inl hx
      · rw [if_neg h]
        exact ⟨e, he, Older.refl _ e⟩
    · intro hnd
      have hids : (q.queue.map (fun x => if x.id = id then
          { element with errorServers := OrdSet.add element.errorServers server } else x)).map
          QueueElement.id = q.queue.map QueueElement.id := by
        rw [List.map_map]
        refine List.map_congr_left (fun e _ => ?_)
        by_cases h : e.id = id
        · rw [Function.comp_apply, if_pos h, h]
          exact hid
        · rw [Function.comp_apply, if_neg h]
      rw [hids]
      exact hnd

/-- What `getElement` gives out is in the queue, and the task is the one of the queue. -/
theorem getElement_ok {q q' : QueueP2P} {server : Blob} {taskId : Nat} {r : Option Nat}
    (h : q.getElement server taskId = .ok (some (r, q')))
    (hnd : (q.queue.map QueueElement.id).Nodup) :
    Shrinks none q q' ∧ q'.isError = q.isError ∧
      (∀ e ∈ q.queue, ∃ e' ∈ q'.queue, e'.segment = e.segment) ∧
      ∀ id, r = some id → taskId = q.taskId ∧ ∃ e ∈ q.queue, e.id = id := by
  obtain ⟨-, h⟩ := check_bind_eq_ok.mp h
  split at h
  · cases h
    exact ⟨Shrinks.refl none q, rfl, fun e he => ⟨e, he, rfl⟩, fun _ he => by cases he⟩
  · rename_i hstate
    obtain ⟨e, he, heq⟩ := Option.map_eq_some_iff.mp (Except.ok.inj h)
    -- It is moved to the front, with the server among those that were asked.
    have hmem : e ∈ q.queue := List.mem_reverse.mp (List.mem_of_find?_eq_some he)
    cases heq
    refine ⟨⟨?_, ?_, rfl, rfl, rfl⟩, rfl, ?_, ?_⟩
    · intro e' he'
      rcases List.mem_cons.mp he' with rfl | he'
      · exact ⟨e, hmem, rfl, rfl, fun _ hs => hs, fun _ hs => Or.inl hs⟩
      · exact ⟨e', List.mem_of_mem_filter he', Older.refl none e'⟩
    · intro _
      rw [List.map_cons, List.nodup_cons]
      refine ⟨?_, hnd.sublist (List.filter_sublist.map _)⟩
      intro hin
      obtain ⟨x, hx, hxe⟩ := List.mem_map.mp hin
      exact absurd hxe (by simpa using (List.mem_filter.mp hx).2)
    · -- the element in front is the one that was taken
      intro x hx
      by_cases hid : x.id = e.id
      · rw [eq_of_id hnd hx hmem hid]
        exact ⟨_, List.mem_cons_self, rfl⟩
      · exact ⟨x, List.mem_cons_of_mem _ (List.mem_filter.mpr ⟨hx, by simpa using hid⟩), rfl⟩
    · intro id hid
      cases hid
      rw [not_or, not_not] at hstate
      exact ⟨hstate.1, e, hmem, rfl⟩

/-- What stays when an element is removed. -/
theorem mem_removeElement {q : QueueP2P} {id : Nat} {e : QueueElement} :
    e ∈ (q.removeElement id).queue ↔ e ∈ q.queue ∧ e.id ≠ id := by
  rw [removeElement, List.mem_filter, decide_eq_true_eq]

/-- The number of servers that `errorElement` returns is that of the element in the queue. -/
theorem errorElement_count {q : QueueP2P} {id : Nat} {server : Blob} {e' : QueueElement}
    (he' : e' ∈ (q.errorElement id server).2.queue) (hid : e'.id = id) :
    (OrdSet.toList e'.errorServers).length = (q.errorElement id server).1 := by
  unfold errorElement at he' ⊢
  split at he'
  · rename_i hlock
    exact absurd hid (lock_eq_none hlock e' he')
  · rename_i element hlock
    obtain ⟨e, he, rfl⟩ := List.mem_map.mp he'
    by_cases h : e.id = id
    · rw [if_pos h]
    · rw [if_neg h] at hid
      exact absurd hid h

theorem errorElement_segment {q : QueueP2P} {id : Nat} {server : Blob}
    (hnd : (q.queue.map QueueElement.id).Nodup) {e : QueueElement} (he : e ∈ q.queue) :
    ∃ e' ∈ (q.errorElement id server).2.queue, e'.segment = e.segment := by
  unfold errorElement
  split
  · exact ⟨e, he, rfl⟩
  · rename_i element hlock
    obtain ⟨hmem, hid⟩ := lock_eq_some hlock
    refine ⟨_, List.mem_map.mpr ⟨e, he, rfl⟩, ?_⟩
    by_cases h : e.id = id
    · rw [if_pos h, eq_of_id hnd he hmem (h.trans hid.symm)]
    · rw [if_neg h]

end QueueP2P

end TorrentNode
