import TorrentNode.P2P.Threads

/-!
# What the threads know

A thread knows a task and maybe an element of the queue. Whatever happened since, the
task is the one of a request, and if the element is still in the queue then it belongs
to that request, which is the last one, and nothing the thread found out about it has
changed. All other steps keep this, and `Effect` is all that a step of the thread does.
-/

namespace TorrentNode

namespace P2P_Ips

variable {settings : Settings} {queue queue' : QueueP2P} {requests requests' : List Request}
  {events events' : List Event}

/-- A task that was handed out for a request. -/
structure TaskOk (settings : Settings) (requests : List Request) (t : Task) : Prop where
  request : ∃ r, requests[t.request]? = some r ∧ r.taskId = some t.taskNumber
  server : t.server ∈ settings.servers
  count : t.countUniqueServers = countUniqueServer settings

/-- This holds of the element of the id, for as long as it is in the queue. -/
def Held (queue : QueueP2P) (requests : List Request) (t : Task) (id : Nat)
    (P : QueueElement → Prop) : Prop :=
  id < queue.made ∧ ∀ e ∈ queue.queue, e.id = id → t.request + 1 = requests.length ∧ P e

/-- The segment is one of this request. -/
def OfRequest (requests : List Request) (request : Nat) (segment : Segment) : Prop :=
  ∃ r, requests[request]? = some r ∧ segment ∈ r.segments

/-- What a thread has found out, place by place. -/
def PlaceOk (settings : Settings) (queue : QueueP2P) (requests : List Request)
    (events : List Event) : Place → Prop
  | .none => True
  | .top => True
  | .ended => True
  | .task t => TaskOk settings requests t
  | .closed t => TaskOk settings requests t
  | .element t id => TaskOk settings requests t ∧ Held queue requests t id (fun _ => True)
  | .segment t id segment =>
    TaskOk settings requests t ∧ OfRequest requests t.request segment ∧
      Held queue requests t id (fun e => e.segment = segment)
  | .asked t id segment query =>
    TaskOk settings requests t ∧ OfRequest requests t.request segment ∧
      Held queue requests t id (fun e => e.segment = segment) ∧ query = t.request
  | .answered t id segment query _ =>
    TaskOk settings requests t ∧ OfRequest requests t.request segment ∧
      Held queue requests t id (fun e => e.segment = segment) ∧ query = t.request
  | .processed t id =>
    TaskOk settings requests t ∧ Held queue requests t id (fun e =>
      ∃ answer, Event.accepted t.request t.request e.segment answer true ∈ events)
  | .failed t id => TaskOk settings requests t ∧ Held queue requests t id (fun _ => True)
  | .exhausted t id =>
    TaskOk settings requests t ∧ Held queue requests t id (fun e =>
      ∀ server ∈ settings.servers, server ∈ OrdSet.toList e.errorServers)

/-- What a thread was told and where it is go together with the queue and the requests. -/
structure ThreadOk (settings : Settings) (queue : QueueP2P) (requests : List Request)
    (events : List Event) (th : P2PThread) : Prop where
  task : ∀ t, th.task = some t → TaskOk settings requests t
  place : PlaceOk settings queue requests events th.place

/-- The queue and the requests before and after something that a thread need not notice. -/
structure Grows (queue : QueueP2P) (requests : List Request) (events : List Event)
    (queue' : QueueP2P) (requests' : List Request) (events' : List Event) : Prop where
  old : ∀ e' ∈ queue'.queue, e'.id < queue.made →
    requests'.length = requests.length ∧ ∃ e ∈ queue.queue, ∃ failed, QueueP2P.Older failed e e'
  made : queue.made ≤ queue'.made
  kept : ∀ (i : Nat) (r : Request), requests[i]? = some r →
    ∃ r', requests'[i]? = some r' ∧ r'.taskId = r.taskId ∧ r'.segments = r.segments
  told : ∀ e ∈ events, e ∈ events'

theorem TaskOk.mono (h : Grows queue requests events queue' requests' events') {t : Task}
    (ht : TaskOk settings requests t) : TaskOk settings requests' t := by
  obtain ⟨⟨r, hr, htask⟩, hserver, hcount⟩ := ht
  obtain ⟨r', hr', htask', -⟩ := h.kept _ r hr
  exact ⟨⟨r', hr', htask'.trans htask⟩, hserver, hcount⟩

theorem OfRequest.mono (h : Grows queue requests events queue' requests' events') {i : Nat}
    {segment : Segment} (ho : OfRequest requests i segment) : OfRequest requests' i segment := by
  obtain ⟨r, hr, hseg⟩ := ho
  obtain ⟨r', hr', -, hsegs⟩ := h.kept _ r hr
  exact ⟨r', hr', by rw [hsegs]; exact hseg⟩

theorem Held.mono (h : Grows queue requests events queue' requests' events') {t : Task} {id : Nat}
    {P P' : QueueElement → Prop} (hh : Held queue requests t id P)
    (hP : ∀ e e' failed, QueueP2P.Older failed e e' → P e → P' e') :
    Held queue' requests' t id P' := by
  obtain ⟨hlt, hall⟩ := hh
  refine ⟨Nat.lt_of_lt_of_le hlt h.made, ?_⟩
  intro e' he' hid
  obtain ⟨hlength, e, he, failed, hold⟩ := h.old e' he' (by rw [hid]; exact hlt)
  obtain ⟨hlast, hPe⟩ := hall e he (hold.id.symm.trans hid)
  exact ⟨hlast.trans hlength.symm, hP e e' failed hold hPe⟩

/-- **Nothing a thread found out is lost.** -/
theorem PlaceOk.mono (h : Grows queue requests events queue' requests' events') {place : Place}
    (hp : PlaceOk settings queue requests events place) :
    PlaceOk settings queue' requests' events' place := by
  cases place with
  | none => trivial
  | top => trivial
  | ended => trivial
  | task t => exact TaskOk.mono h hp
  | closed t => exact TaskOk.mono h hp
  | element t id => exact ⟨hp.1.mono h, hp.2.mono h (fun _ _ _ _ _ => trivial)⟩
  | segment t id segment =>
    exact ⟨hp.1.mono h, hp.2.1.mono h, hp.2.2.mono h (fun _ _ _ ho he => ho.segment.trans he)⟩
  | asked t id segment query =>
    exact ⟨hp.1.mono h, hp.2.1.mono h,
      hp.2.2.1.mono h (fun _ _ _ ho he => ho.segment.trans he), hp.2.2.2⟩
  | answered t id segment query response =>
    exact ⟨hp.1.mono h, hp.2.1.mono h,
      hp.2.2.1.mono h (fun _ _ _ ho he => ho.segment.trans he), hp.2.2.2⟩
  | processed t id =>
    refine ⟨hp.1.mono h, hp.2.mono h ?_⟩
    rintro e e' failed hold ⟨answer, hanswer⟩
    exact ⟨answer, by rw [hold.segment]; exact h.told _ hanswer⟩
  | failed t id => exact ⟨hp.1.mono h, hp.2.mono h (fun _ _ _ _ _ => trivial)⟩
  | exhausted t id =>
    exact ⟨hp.1.mono h, hp.2.mono h (fun _ _ _ ho he server hs => ho.errorServers _ (he server hs))⟩

theorem ThreadOk.mono (h : Grows queue requests events queue' requests' events') {th : P2PThread}
    (ht : ThreadOk settings queue requests events th) :
    ThreadOk settings queue' requests' events' th :=
  ⟨fun t htask => (ht.task t htask).mono h, ht.place.mono h⟩

/-! ## The queue -/

/-- The elements of the queue belong to the last request. -/
structure QueueOk (settings : Settings) (queue : QueueP2P) (requests : List Request)
    (events : List Event) : Prop where
  nodup : (queue.queue.map QueueElement.id).Nodup
  made : ∀ e ∈ queue.queue, e.id < queue.made
  current : ∀ e ∈ queue.queue, ∃ r, requests[requests.length - 1]? = some r ∧
    r.taskId = some queue.taskId ∧ e.segment ∈ r.segments
  errorServers : ∀ e ∈ queue.queue, ∀ server ∈ OrdSet.toList e.errorServers,
    server ∈ settings.servers ∧ Event.failed (requests.length - 1) e.segment server ∈ events
  /-- A task is of one request. -/
  injective : ∀ (i j : Nat) (r r' : Request) (k : Nat), requests[i]? = some r →
    requests[j]? = some r' → r.taskId = some k → r'.taskId = some k → i = j

/-! ## Answers -/

/-- What a request holds was accepted for its segments. -/
structure AnswersOk (events : List Event) (i : Nat) (r : Request) : Prop where
  positions : (r.segments.map Segment.posInArray).Nodup
  stored : ∀ segment ∈ r.segments, ∀ answer, Event.accepted i i segment answer true ∈ events →
    ∃ answer', Event.accepted i i segment answer' true ∈ events ∧
      r.answers[segment.posInArray]? = some answer'
  origin : ∀ (p : Nat) (a : Blob), r.answers[p]? = some a → a.isEmpty = false →
    ∃ segment ∈ r.segments, segment.posInArray = p ∧ Event.accepted i i segment a true ∈ events

theorem processResponse_ok {r r' : Request} {response answer : Blob} {segment : Segment}
    {stored : Bool} (h : processResponse r response segment = .ok (answer, stored, r')) :
    ∃ old, r.answers[segment.posInArray]? = some old ∧
      ((stored = true ∧ old.isEmpty = true ∧
          r' = { r with answers := r.answers.set segment.posInArray answer }) ∨
        (stored = false ∧ old.isEmpty = false ∧ r' = r)) := by
  obtain ⟨answer', -, h⟩ := bind_eq_ok.mp h
  split at h
  · cases h
  · split at h
    · cases h
    · rename_i old hold
      refine ⟨old, hold, ?_⟩
      by_cases he : old.isEmpty = true
      · rw [if_pos he] at h
        cases h
        exact Or.inl ⟨rfl, he, rfl⟩
      · rw [if_neg he] at h
        cases h
        exact Or.inr ⟨rfl, Bool.eq_false_iff.mpr he, rfl⟩

/-! ## What a step of a thread does -/

/-- A request takes an answer to one of its segments. -/
structure Accepts (r r' : Request) (segment : Segment) (answer : Blob) (stored : Bool) : Prop where
  ok : ∃ response, processResponse r response segment = .ok (answer, stored, r')
  segment : segment ∈ r.segments
  destroyed : r.destroyed = false

/-- **All that a thread does to others.** -/
inductive Effect (settings : Settings) (queue : QueueP2P) (requests : List Request)
    (events : List Event) : List Event → QueueP2P → List Request → Prop where
  | quiet {queue' : QueueP2P} : QueueP2P.Shrinks none queue queue' →
      (queue.isError = true → queue'.isError = true) →
      (∀ e ∈ queue.queue, ∃ e' ∈ queue'.queue, e'.segment = e.segment) →
      Effect settings queue requests events [] queue' requests
  | accept {i : Nat} {r r' : Request} {segment : Segment} {answer : Blob} {stored : Bool} :
      requests[i]? = some r → Accepts r r' segment answer stored →
      Effect settings queue requests events [.accepted i i segment answer stored] queue
        (requests.set i r')
  | remove {e : QueueElement} : e ∈ queue.queue →
      (∃ answer, Event.accepted (requests.length - 1) (requests.length - 1) e.segment answer true ∈
        events) →
      Effect settings queue requests events [.left (requests.length - 1) e.segment false]
        (queue.removeElement e.id) requests
  | removeError {e : QueueElement} : e ∈ queue.queue →
      (∀ server ∈ settings.servers, server ∈ OrdSet.toList e.errorServers) →
      Effect settings queue requests events [.left (requests.length - 1) e.segment true]
        (queue.removeElementError e.id) requests
  | fail {e : QueueElement} {server : Blob} : e ∈ queue.queue → server ∈ settings.servers →
      Effect settings queue requests events [.failed (requests.length - 1) e.segment server]
        (queue.errorElement e.id server).2 requests

theorem Effect.nothing : Effect settings queue requests events [] queue requests :=
  Effect.quiet (QueueP2P.Shrinks.refl none queue) id (fun e he => ⟨e, he, rfl⟩)

theorem Accepts.same {r r' : Request} {segment : Segment} {answer : Blob} {stored : Bool}
    (h : Accepts r r' segment answer stored) :
    r'.taskId = r.taskId ∧ r'.segments = r.segments ∧ r'.destroyed = r.destroyed ∧
      r'.outcome = r.outcome ∧ r'.query = r.query := by
  obtain ⟨response, hresponse⟩ := h.ok
  obtain ⟨old, -, ⟨-, -, rfl⟩ | ⟨-, -, rfl⟩⟩ := processResponse_ok hresponse
  · exact ⟨rfl, rfl, rfl, rfl, rfl⟩
  · exact ⟨rfl, rfl, rfl, rfl, rfl⟩

/-- Some server may have failed on an element, and the rest is as it was. -/
theorem Effect.shrinks {more : List Event}
    (h : Effect settings queue requests events more queue' requests') :
    (∃ failed, QueueP2P.Shrinks failed queue queue') ∧ requests'.length = requests.length := by
  cases h with
  | quiet hs _ _ => exact ⟨⟨none, hs⟩, rfl⟩
  | accept hr ha => exact ⟨⟨none, QueueP2P.Shrinks.refl none queue⟩, List.length_set⟩
  | remove he _ => exact ⟨⟨none, QueueP2P.shrinks_removeElement queue _⟩, rfl⟩
  | removeError he _ => exact ⟨⟨none, QueueP2P.shrinks_removeElementError queue _⟩, rfl⟩
  | fail he _ => exact ⟨⟨_, QueueP2P.shrinks_errorElement queue _ _⟩, rfl⟩

/-- A request is as it was, but for its answers. -/
theorem Effect.kept {more : List Event}
    (h : Effect settings queue requests events more queue' requests') {i : Nat} {r : Request}
    (hr : requests[i]? = some r) :
    ∃ r', requests'[i]? = some r' ∧ r'.taskId = r.taskId ∧ r'.segments = r.segments ∧
      r'.destroyed = r.destroyed ∧ r'.outcome = r.outcome ∧ r'.query = r.query := by
  cases h with
  | @accept j r₀ r' segment answer stored hr₀ ha =>
    by_cases hij : j = i
    · subst hij
      obtain rfl : r₀ = r := Option.some.inj (hr₀.symm.trans hr)
      obtain ⟨hlt, -⟩ := List.getElem?_eq_some_iff.mp hr
      exact ⟨r', List.getElem?_set_self hlt, ha.same⟩
    · exact ⟨r, (List.getElem?_set_ne hij).trans hr, rfl, rfl, rfl, rfl, rfl⟩
  | quiet _ _ _ => exact ⟨r, hr, rfl, rfl, rfl, rfl, rfl⟩
  | remove _ _ => exact ⟨r, hr, rfl, rfl, rfl, rfl, rfl⟩
  | removeError _ _ => exact ⟨r, hr, rfl, rfl, rfl, rfl, rfl⟩
  | fail _ _ => exact ⟨r, hr, rfl, rfl, rfl, rfl, rfl⟩

theorem Effect.grows {more : List Event}
    (h : Effect settings queue requests events more queue' requests') :
    Grows queue requests events queue' requests' (events ++ more) := by
  obtain ⟨⟨failed, hshrinks⟩, hlength⟩ := h.shrinks
  refine ⟨?_, Nat.le_of_eq hshrinks.made.symm, ?_, fun e he => List.mem_append_left _ he⟩
  · intro e' he' _
    obtain ⟨e, he, hold⟩ := hshrinks.mem e' he'
    exact ⟨hlength, e, he, failed, hold⟩
  · intro i r hr
    obtain ⟨r', hr', htask, hsegs, -⟩ := h.kept hr
    exact ⟨r', hr', htask, hsegs⟩

theorem QueueOk.length_pos (hq : QueueOk settings queue requests events) {e : QueueElement}
    (he : e ∈ queue.queue) : requests.length - 1 + 1 = requests.length := by
  obtain ⟨r, hr, -⟩ := hq.current e he
  obtain ⟨hlt, -⟩ := List.getElem?_eq_some_iff.mp hr
  omega

/-- The number of a request whose task is in the queue. -/
theorem QueueOk.request_eq (hq : QueueOk settings queue requests events) {t : Task}
    (ht : TaskOk settings requests t) (hnumber : t.taskNumber = queue.taskId) {e : QueueElement}
    (he : e ∈ queue.queue) : t.request + 1 = requests.length := by
  obtain ⟨r, hr, htask, -⟩ := hq.current e he
  obtain ⟨r', hr', htask'⟩ := ht.request
  rw [hnumber] at htask'
  rw [hq.injective _ _ _ _ _ hr' hr htask' htask]
  exact hq.length_pos he

/-- All servers, when so many have failed. -/
theorem all_failed (hq : QueueOk settings queue requests events) {t : Task}
    (ht : TaskOk settings requests t) {id : Nat}
    (hcount : t.countUniqueServers ≤ (queue.errorElement id t.server).1) {e' : QueueElement}
    (he' : e' ∈ (queue.errorElement id t.server).2.queue) (hid : e'.id = id) :
    ∀ server ∈ settings.servers, server ∈ OrdSet.toList e'.errorServers := by
  intro server hserver
  refine OrdSet.subset_of_length_le ?_ ?_ server (OrdSet.mem_toList_ofList.mpr hserver)
  · intro x hx
    rw [OrdSet.mem_toList_ofList]
    obtain ⟨e, he, hold⟩ := (QueueP2P.shrinks_errorElement queue id t.server).mem e' he'
    rcases hold.failed x hx with hx | hx
    · exact (hq.errorServers e he x hx).1
    · cases hx
      exact ht.server
  · rw [QueueP2P.errorElement_count he' hid]
    exact le_of_eq_of_le ht.count.symm hcount

/-- What holds of an element in the queue need not be told. -/
theorem Held.weaken {t : Task} {id : Nat} {P : QueueElement → Prop}
    (h : Held queue requests t id P) : Held queue requests t id (fun _ => True) :=
  ⟨h.1, fun e he hid => ⟨(h.2 e he hid).1, trivial⟩⟩

/-- An element that is in the queue is one of the last request. -/
theorem Held.request_eq {t : Task} {id : Nat} {P : QueueElement → Prop}
    (h : Held queue requests t id P) {e : QueueElement} (he : e ∈ queue.queue) (hid : e.id = id) :
    t.request = requests.length - 1 := by
  have hlast := (h.2 e he hid).1
  omega

/-! The steps that change something, each with what the thread finds out by it. -/

theorem effect_getElement (hq : QueueOk settings queue requests events) {server : Blob}
    {taskId : Nat} {found : Option Nat}
    (hget : queue.getElement server taskId = .ok (some (found, queue'))) :
    Effect settings queue requests events [] queue' requests := by
  obtain ⟨hshrinks, herror, hsegs, -⟩ := QueueP2P.getElement_ok hget hq.nodup
  exact Effect.quiet hshrinks (fun he => herror.trans he) hsegs

theorem held_getElement (hq : QueueOk settings queue requests events) {t : Task}
    (ht : TaskOk settings requests t) {id : Nat}
    (hget : queue.getElement t.server t.taskNumber = .ok (some (some id, queue'))) :
    Held queue' requests t id (fun _ => True) := by
  obtain ⟨hshrinks, -, -, hid⟩ := QueueP2P.getElement_ok hget hq.nodup
  obtain ⟨hnumber, e, he, rfl⟩ := hid _ rfl
  refine ⟨?_, fun _ _ _ => ⟨hq.request_eq ht hnumber he, trivial⟩⟩
  rw [hshrinks.made]
  exact hq.made e he

/-- The segment of an element belongs to the request of the thread. -/
theorem held_getSegment (hq : QueueOk settings queue requests events) {t : Task} {id : Nat}
    {segment : Segment} (hheld : Held queue requests t id (fun _ => True))
    (hseg : queue.getSegment id = some segment) :
    OfRequest requests t.request segment ∧
      Held queue requests t id (fun e => e.segment = segment) := by
  obtain ⟨e, hlock, rfl⟩ := Option.map_eq_some_iff.mp hseg
  obtain ⟨he, hid⟩ := QueueP2P.lock_eq_some hlock
  obtain ⟨r, hr, -, hmem⟩ := hq.current e he
  rw [← hheld.request_eq he hid] at hr
  refine ⟨⟨r, hr, hmem⟩, hheld.1, fun e' he' hid' => ⟨(hheld.2 e' he' hid').1, ?_⟩⟩
  rw [QueueP2P.eq_of_id hq.nodup he' he (hid'.trans hid.symm)]

/-- When a request has taken an answer, one to the segment of the element is stored. -/
theorem held_processResponse {t : Task} {id : Nat} {segment : Segment} {response answer : Blob}
    {stored : Bool} {r r' : Request} (hanswers : AnswersOk events t.request r)
    (hmem : segment ∈ r.segments)
    (hheld : Held queue requests t id (fun e => e.segment = segment))
    (hok : processResponse r response segment = .ok (answer, stored, r')) :
    Held queue (requests.set t.request r') t id (fun e => ∃ answer',
      Event.accepted t.request t.request e.segment answer' true ∈
        events ++ [.accepted t.request t.request segment answer stored]) := by
  refine ⟨hheld.1, fun e he hid => ?_⟩
  obtain ⟨hlast, hsegment⟩ := hheld.2 e he hid
  refine ⟨by rw [List.length_set]; exact hlast, ?_⟩
  obtain ⟨old, hold, ⟨rfl, -, -⟩ | ⟨-, hne, -⟩⟩ := processResponse_ok hok
  · exact ⟨answer, List.mem_append_right _ (by rw [hsegment]; exact List.mem_singleton_self _)⟩
  · -- there was an answer already, and it was one to this segment
    obtain ⟨segment', hmem', hpos, hevent⟩ := hanswers.origin _ _ hold hne
    obtain rfl : segment' = segment :=
      List.inj_on_of_nodup_map hanswers.positions hmem' hmem hpos
    exact ⟨old, List.mem_append_left _ (by rw [hsegment]; exact hevent)⟩

theorem effect_removeElement {t : Task} {id : Nat}
    (hheld : Held queue requests t id (fun e =>
      ∃ answer, Event.accepted t.request t.request e.segment answer true ∈ events)) :
    Effect settings queue requests events (leaving queue t.request id false)
      (queue.removeElement id) requests := by
  cases hlock : queue.lock id with
  | none =>
    have hsame : (queue.removeElement id).queue = queue.queue := by
      rw [QueueP2P.removeElement, List.filter_eq_self]
      exact fun e he => by simpa using QueueP2P.lock_eq_none hlock e he
    rw [leaving, QueueP2P.getSegment, hlock]
    exact Effect.quiet (QueueP2P.shrinks_removeElement queue id) (fun he => he)
      (fun e he => ⟨e, by rw [hsame]; exact he, rfl⟩)
  | some e =>
    obtain ⟨he, rfl⟩ := QueueP2P.lock_eq_some hlock
    obtain ⟨-, answer, hanswer⟩ := hheld.2 e he rfl
    rw [leaving, QueueP2P.getSegment, hlock]
    rw [hheld.request_eq he rfl] at hanswer ⊢
    exact Effect.remove he ⟨answer, hanswer⟩

theorem effect_removeElementError {t : Task} {id : Nat}
    (hheld : Held queue requests t id (fun e =>
      ∀ server ∈ settings.servers, server ∈ OrdSet.toList e.errorServers)) :
    Effect settings queue requests events (leaving queue t.request id true)
      (queue.removeElementError id) requests := by
  cases hlock : queue.lock id with
  | none =>
    have hsame : (queue.removeElementError id).queue = queue.queue := by
      rw [QueueP2P.removeElementError, QueueP2P.removeElement, List.filter_eq_self]
      exact fun e he => by simpa using QueueP2P.lock_eq_none hlock e he
    rw [leaving, QueueP2P.getSegment, hlock]
    exact Effect.quiet (QueueP2P.shrinks_removeElementError queue id) (fun _ => rfl)
      (fun e he => ⟨e, by rw [hsame]; exact he, rfl⟩)
  | some e =>
    obtain ⟨he, rfl⟩ := QueueP2P.lock_eq_some hlock
    rw [leaving, QueueP2P.getSegment, hlock, hheld.request_eq he rfl]
    exact Effect.removeError he (hheld.2 e he rfl).2

/-- A server fails; when that is the last of them, all have. -/
theorem effect_errorElement (hq : QueueOk settings queue requests events) {t : Task} {id : Nat}
    (ht : TaskOk settings requests t) (hheld : Held queue requests t id (fun _ => True)) :
    Effect settings queue requests events
        ((queue.getSegment id).toList.map (fun segment => .failed t.request segment t.server))
        (queue.errorElement id t.server).2 requests ∧
      (t.countUniqueServers ≤ (queue.errorElement id t.server).1 →
        Held (queue.errorElement id t.server).2 requests t id (fun e =>
          ∀ server ∈ settings.servers, server ∈ OrdSet.toList e.errorServers)) := by
  cases hlock : queue.lock id with
  | none =>
    have hsame : queue.errorElement id t.server = (0, queue) := by
      rw [QueueP2P.errorElement, hlock]
    rw [QueueP2P.getSegment, hlock, hsame]
    exact ⟨Effect.nothing, fun _ =>
      ⟨hheld.1, fun e he hid => absurd hid (QueueP2P.lock_eq_none hlock e he)⟩⟩
  | some e =>
    obtain ⟨he, rfl⟩ := QueueP2P.lock_eq_some hlock
    have heffect : Effect settings queue requests events
        [.failed (requests.length - 1) e.segment t.server]
        (queue.errorElement e.id t.server).2 requests := Effect.fail he ht.server
    rw [QueueP2P.getSegment, hlock, hheld.request_eq he rfl]
    refine ⟨heffect, fun hcount => ⟨?_, fun e' he' hid => ?_⟩⟩
    · obtain ⟨⟨failed, hshrinks⟩, -⟩ := heffect.shrinks
      rw [hshrinks.made]
      exact hheld.1
    · exact ⟨(hheld.2 e he rfl).1, all_failed hq ht hcount he' hid⟩

/-- **What a step of a thread does**, and that the thread has found out what it should. -/
theorem ThreadStep.effect {th th' : P2PThread} {more : List Event}
    (h : ThreadStep queue requests th more queue' requests' th')
    (hth : ThreadOk settings queue requests events th)
    (hq : QueueOk settings queue requests events)
    (hanswers : ∀ (i : Nat) (r : Request), requests[i]? = some r → AnswersOk events i r) :
    Effect settings queue requests events more queue' requests' ∧
      ThreadOk settings queue' requests' (events ++ more) th' := by
  obtain ⟨htask, hplace⟩ := hth
  -- the place is all that a step changes of the thread
  have hdone : ∀ {place : Place} {more queue' requests'},
      Effect settings queue requests events more queue' requests' →
      PlaceOk settings queue' requests' (events ++ more) place →
      Effect settings queue requests events more queue' requests' ∧
        ThreadOk settings queue' requests' (events ++ more) (th.at place) :=
    fun he hp => ⟨he, fun t ht => (htask t ht).mono he.grows, hp⟩
  have hquiet : ∀ {place : Place}, PlaceOk settings queue requests (events ++ []) place →
      Effect settings queue requests events [] queue requests ∧
        ThreadOk settings queue requests (events ++ []) (th.at place) := hdone Effect.nothing
  have hkeep : PlaceOk settings queue requests (events ++ []) th.place :=
    hplace.mono (Effect.nothing : Effect settings queue requests events [] queue requests).grows
  cases h with
  | read hat hmail => exact hquiet (htask _ hmail)
  | takeThrows hat _ => exact hquiet trivial
  | takeNothing hat hget =>
    rw [hat] at hplace
    have heffect := @effect_getElement settings _ _ requests events hq _ _ _ hget
    exact hdone heffect (TaskOk.mono heffect.grows hplace)
  | take hat hget =>
    rw [hat] at hplace
    have heffect := @effect_getElement settings _ _ requests events hq _ _ _ hget
    exact hdone heffect ⟨TaskOk.mono heffect.grows hplace, held_getElement hq hplace hget⟩
  | wake hat _ _ => exact hquiet trivial
  | lost hat _ => exact hquiet trivial
  | segment hat hseg =>
    rw [hat] at hkeep
    exact hquiet ⟨hkeep.1, held_getSegment hq hkeep.2 hseg⟩
  | askDestroyed hat _ _ => exact hquiet trivial
  | ask hat _ _ =>
    rw [hat] at hkeep
    exact hquiet ⟨hkeep.1, hkeep.2.1, hkeep.2.2, rfl⟩
  | answer response hat =>
    rw [hat] at hkeep
    exact hquiet hkeep
  | noAnswer hat =>
    rw [hat] at hkeep
    exact hquiet ⟨hkeep.1, hkeep.2.2.1.weaken⟩
  | processDestroyed hat _ _ => exact hquiet trivial
  | processThrows hat _ _ _ =>
    rw [hat] at hkeep
    exact hquiet ⟨hkeep.1, hkeep.2.2.1.weaken⟩
  | processEnds hat _ _ _ => exact hquiet trivial
  | @process t id segment query response answer r r' stored hat hr hdestroyed hok =>
    rw [hat] at hplace
    obtain ⟨ht, ⟨r₁, hr₁, hmem⟩, hheld, rfl⟩ := hplace
    obtain rfl : r₁ = r := Option.some.inj (hr₁.symm.trans hr)
    have heffect : Effect settings queue requests events
        [.accepted t.request t.request segment answer stored] queue (requests.set t.request r') :=
      Effect.accept hr ⟨⟨response, hok⟩, hmem, hdestroyed⟩
    exact hdone heffect ⟨TaskOk.mono heffect.grows ht,
      held_processResponse (hanswers _ _ hr) hmem hheld hok⟩
  | remove hat =>
    rw [hat] at hplace
    exact hdone (effect_removeElement hplace.2) trivial
  | error hat =>
    rw [hat] at hplace
    obtain ⟨heffect, hall⟩ := effect_errorElement hq hplace.1 hplace.2
    refine hdone heffect ?_
    split
    · rename_i hcount
      exact ⟨TaskOk.mono heffect.grows hplace.1, hall hcount⟩
    · trivial
  | removeError hat =>
    rw [hat] at hplace
    exact hdone (effect_removeElementError hplace.2) trivial

end P2P_Ips

end TorrentNode
