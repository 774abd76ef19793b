import TorrentNode.P2P.Held

/-!
# The queue and the requests, whatever the threads do

The segments of the last request are in the queue, still to be put there, or gone; one
that is gone has an answer, or all servers have failed on it and the request is going
to throw. An answer is accepted for its own segment, and before its request has ended.
-/

namespace TorrentNode

namespace P2P_Ips

variable {settings : Settings} {queue queue' : QueueP2P} {requests requests' : List Request}
  {events more : List Event}

/-! ## Effects, one concern at a time -/

theorem Effect.kept_back (h : Effect settings queue requests events more queue' requests') {i : Nat}
    {r' : Request} (hr' : requests'[i]? = some r') :
    ∃ r, requests[i]? = some r ∧ r'.taskId = r.taskId ∧ r'.segments = r.segments ∧
      r'.destroyed = r.destroyed ∧ r'.outcome = r.outcome ∧ r'.query = r.query := by
  obtain ⟨hlt, -⟩ := List.getElem?_eq_some_iff.mp hr'
  rw [h.shrinks.2] at hlt
  obtain ⟨r'', hr'', hsame⟩ := h.kept (List.getElem?_eq_getElem hlt)
  rw [hr'] at hr''
  rw [Option.some.inj hr'']
  exact ⟨_, List.getElem?_eq_getElem hlt, hsame⟩

theorem QueueOk.effect (hq : QueueOk settings queue requests events)
    (h : Effect settings queue requests events more queue' requests') :
    QueueOk settings queue' requests' (events ++ more) := by
  obtain ⟨⟨failed, hshrinks⟩, hlength⟩ := h.shrinks
  -- A step of a thread adds no element, so each one is older than the step.
  refine ⟨hshrinks.nodup hq.nodup, ?_, ?_, ?_, ?_⟩
  · intro e' he'
    obtain ⟨e, he, hold⟩ := hshrinks.mem e' he'
    rw [hold.id, hshrinks.made]
    exact hq.made e he
  · intro e' he'
    obtain ⟨e, he, hold⟩ := hshrinks.mem e' he'
    obtain ⟨r, hr, htask, hseg⟩ := hq.current e he
    obtain ⟨r', hr', htask', hsegs, -⟩ := h.kept hr
    refine ⟨r', by rw [hlength]; exact hr', ?_, ?_⟩
    · rw [htask', htask, hshrinks.taskId]
    · rw [hsegs, hold.segment]
      exact hseg
  · intro e' he' server hserver
    rw [hlength]
    -- an old failure was noticed before, and a new one is the event of this step
    have hold : ∀ e ∈ queue.queue, e'.segment = e.segment →
        server ∈ OrdSet.toList e.errorServers → server ∈ settings.servers ∧
          Event.failed (requests.length - 1) e'.segment server ∈ events ++ more := by
      intro e he hsegment hs
      obtain ⟨hin, hevent⟩ := hq.errorServers e he server hs
      exact ⟨hin, List.mem_append_left _ (by rw [hsegment]; exact hevent)⟩
    cases h with
    | quiet hs _ _ =>
      obtain ⟨e, he, ho⟩ := hs.mem e' he'
      rcases ho.failed server hserver with hs | hs
      · exact hold e he ho.segment hs
      · cases hs
    | accept _ _ => exact hold e' he' rfl hserver
    | remove _ _ => exact hold e' (QueueP2P.mem_removeElement.mp he').1 rfl hserver
    | removeError _ _ => exact hold e' (QueueP2P.mem_removeElement.mp he').1 rfl hserver
    | @fail e₀ server₀ he₀ hin₀ =>
      obtain ⟨e, he, ho⟩ := (QueueP2P.shrinks_errorElement queue e₀.id server₀).mem e' he'
      rcases ho.failed server hserver with hs | hs
      · exact hold e he ho.segment hs
      · obtain ⟨hid, rfl⟩ := Prod.mk.inj (Option.some.inj hs)
        refine ⟨hin₀, List.mem_append_right _ ?_⟩
        rw [ho.segment, QueueP2P.eq_of_id hq.nodup he he₀ hid.symm]
        exact List.mem_singleton_self _
  · intro i j r r' k hr hr' hk hk'
    obtain ⟨r₁, hr₁, htask, -⟩ := h.kept_back hr
    obtain ⟨r₂, hr₂, htask', -⟩ := h.kept_back hr'
    exact hq.injective i j r₁ r₂ k hr₁ hr₂ (htask ▸ hk) (htask' ▸ hk')

/-- More events, none of which is an answer that is stored. -/
theorem AnswersOk.append {i : Nat} {r : Request} (h : AnswersOk events i r)
    (hmore : ∀ segment answer, Event.accepted i i segment answer true ∉ more) :
    AnswersOk (events ++ more) i r where
  positions := h.positions
  stored := by
    intro segment hseg answer hevent
    rcases List.mem_append.mp hevent with hevent | hevent
    · obtain ⟨answer', hevent', ha⟩ := h.stored segment hseg answer hevent
      exact ⟨answer', List.mem_append_left _ hevent', ha⟩
    · exact absurd hevent (hmore segment answer)
  origin := by
    intro p a ha hne
    obtain ⟨segment, hseg, hpos, hevent⟩ := h.origin p a ha hne
    exact ⟨segment, hseg, hpos, List.mem_append_left _ hevent⟩

/-- An answer is stored at the place of its segment. -/
theorem AnswersOk.store {i : Nat} {r : Request} {segment : Segment} {answer old : Blob}
    (h : AnswersOk events i r) (hseg : segment ∈ r.segments)
    (hold : r.answers[segment.posInArray]? = some old) :
    AnswersOk (events ++ [.accepted i i segment answer true]) i
      { r with answers := r.answers.set segment.posInArray answer } where
  positions := h.positions
  stored := by
    intro segment' hseg' answer' hevent
    by_cases hpos : segment.posInArray = segment'.posInArray
    · obtain rfl : segment = segment' := List.inj_on_of_nodup_map h.positions hseg hseg' hpos
      obtain ⟨hlt, -⟩ := List.getElem?_eq_some_iff.mp hold
      exact ⟨answer, List.mem_append_right _ (List.mem_singleton_self _), List.getElem?_set_self hlt⟩
    · rcases List.mem_append.mp hevent with hevent | hevent
      · obtain ⟨a, hevent', ha⟩ := h.stored segment' hseg' answer' hevent
        exact ⟨a, List.mem_append_left _ hevent', (List.getElem?_set_ne hpos).trans ha⟩
      · cases List.mem_singleton.mp hevent
        exact absurd rfl hpos
  origin := by
    intro p a ha hne
    by_cases hpos : segment.posInArray = p
    · subst hpos
      obtain ⟨hlt, -⟩ := List.getElem?_eq_some_iff.mp hold
      rw [List.getElem?_set_self hlt] at ha
      obtain rfl := Option.some.inj ha
      exact ⟨segment, hseg, rfl, List.mem_append_right _ (List.mem_singleton_self _)⟩
    · rw [List.getElem?_set_ne hpos] at ha
      obtain ⟨segment', hseg', hpos', hevent⟩ := h.origin p a ha hne
      exact ⟨segment', hseg', hpos', List.mem_append_left _ hevent⟩

theorem answersOk_effect
    (hanswers : ∀ (i : Nat) (r : Request), requests[i]? = some r → AnswersOk events i r)
    (h : Effect settings queue requests events more queue' requests') :
    ∀ (i : Nat) (r : Request), requests'[i]? = some r → AnswersOk (events ++ more) i r := by
  intro i r hr
  cases h with
  | quiet _ _ _ => exact (hanswers i r hr).append (by simp)
  | remove _ _ => exact (hanswers i r hr).append (by simp)
  | removeError _ _ => exact (hanswers i r hr).append (by simp)
  | fail _ _ => exact (hanswers i r hr).append (by simp)
  | @accept j r₀ r' segment answer stored hr₀ ha =>
    by_cases hij : j = i
    · subst hij
      obtain ⟨hlt, -⟩ := List.getElem?_eq_some_iff.mp hr₀
      rw [List.getElem?_set_self hlt] at hr
      obtain rfl := Option.some.inj hr
      obtain ⟨response, hok⟩ := ha.ok
      obtain ⟨old, hold, ⟨rfl, -, rfl⟩ | ⟨rfl, -, rfl⟩⟩ := processResponse_ok hok
      · exact (hanswers j r₀ hr₀).store ha.segment hold
      · exact (hanswers j r' hr₀).append (by simp)
    · rw [List.getElem?_set_ne hij] at hr
      exact (hanswers i r hr).append (by
        intro segment' answer' hevent
        cases List.mem_singleton.mp hevent
        exact hij rfl)

/-- What leaves was in the queue, and belongs to the last request. -/
theorem Effect.left_mem (h : Effect settings queue requests events more queue' requests') {i : Nat}
    {segment : Segment} {b : Bool} (hevent : Event.left i segment b ∈ more) :
    i = requests.length - 1 ∧ segment ∈ queue.queue.map QueueElement.segment := by
  cases h with
  | quiet _ _ _ => cases hevent
  | accept _ _ => cases List.mem_singleton.mp hevent
  | fail _ _ => cases List.mem_singleton.mp hevent
  | remove he _ =>
    cases List.mem_singleton.mp hevent
    exact ⟨rfl, List.mem_map.mpr ⟨_, he, rfl⟩⟩
  | removeError he _ =>
    cases List.mem_singleton.mp hevent
    exact ⟨rfl, List.mem_map.mpr ⟨_, he, rfl⟩⟩

theorem mem_segments_removeElement {e : QueueElement} (he : e ∈ queue.queue)
    (hids : (queue.queue.map QueueElement.id).Nodup)
    (hsegs : (queue.queue.map QueueElement.segment).Nodup) {segment : Segment} :
    segment ∈ (queue.removeElement e.id).queue.map QueueElement.segment ↔
      segment ∈ queue.queue.map QueueElement.segment ∧ segment ≠ e.segment := by
  constructor
  · intro h
    obtain ⟨x, hx, rfl⟩ := List.mem_map.mp h
    obtain ⟨hx, hid⟩ := QueueP2P.mem_removeElement.mp hx
    refine ⟨List.mem_map.mpr ⟨x, hx, rfl⟩, fun heq => hid ?_⟩
    rw [List.inj_on_of_nodup_map hsegs hx he heq]
  · rintro ⟨h, hne⟩
    obtain ⟨x, hx, rfl⟩ := List.mem_map.mp h
    refine List.mem_map.mpr ⟨x, QueueP2P.mem_removeElement.mpr ⟨hx, fun hid => hne ?_⟩, rfl⟩
    rw [QueueP2P.eq_of_id hids hx he hid]

/-- **What is in the queue after a step**: what was there and has not left. -/
theorem Effect.segments (h : Effect settings queue requests events more queue' requests')
    (hids : (queue.queue.map QueueElement.id).Nodup)
    (hsegs : (queue.queue.map QueueElement.segment).Nodup) (segment : Segment) :
    segment ∈ queue'.queue.map QueueElement.segment ↔
      segment ∈ queue.queue.map QueueElement.segment ∧
        ∀ b, Event.left (requests.length - 1) segment b ∉ more := by
  -- Only a removal takes a segment away, and it is the event of the step.
  cases h with
  | quiet hs _ hkeep =>
    simp only [List.not_mem_nil, not_false_eq_true, implies_true, and_true]
    constructor
    · intro h
      obtain ⟨e', he', rfl⟩ := List.mem_map.mp h
      obtain ⟨e, he, hold⟩ := hs.mem e' he'
      exact List.mem_map.mpr ⟨e, he, hold.segment.symm⟩
    · intro h
      obtain ⟨e, he, rfl⟩ := List.mem_map.mp h
      obtain ⟨e', he', hseg⟩ := hkeep e he
      exact List.mem_map.mpr ⟨e', he', hseg⟩
  | accept _ _ => simp
  | remove he _ =>
    rw [mem_segments_removeElement he hids hsegs]
    simp [eq_comm]
  | removeError he _ =>
    rw [show (queue.removeElementError _).queue = (queue.removeElement _).queue from rfl,
      mem_segments_removeElement he hids hsegs]
    simp [eq_comm]
  | @fail e₀ server _ _ =>
    simp only [List.mem_singleton, reduceCtorEq, not_false_eq_true, implies_true, and_true]
    constructor
    · intro h
      obtain ⟨e', he', rfl⟩ := List.mem_map.mp h
      obtain ⟨e, he, hold⟩ := (QueueP2P.shrinks_errorElement queue e₀.id server).mem e' he'
      exact List.mem_map.mpr ⟨e, he, hold.segment.symm⟩
    · intro h
      obtain ⟨e, he, rfl⟩ := List.mem_map.mp h
      obtain ⟨e', he', hseg⟩ := QueueP2P.errorElement_segment hids he
      exact List.mem_map.mpr ⟨e', he', hseg⟩

theorem Effect.nodup_segments (h : Effect settings queue requests events more queue' requests')
    (hids : (queue.queue.map QueueElement.id).Nodup)
    (hsegs : (queue.queue.map QueueElement.segment).Nodup) :
    (queue'.queue.map QueueElement.segment).Nodup := by
  obtain ⟨⟨failed, hshrinks⟩, -⟩ := h.shrinks
  refine List.Nodup.map_on ?_ (List.Nodup.of_map _ (hshrinks.nodup hids))
  intro x hx y hy hxy
  obtain ⟨e, he, hold⟩ := hshrinks.mem x hx
  obtain ⟨e', he', hold'⟩ := hshrinks.mem y hy
  have hsame : e = e' := List.inj_on_of_nodup_map hsegs he he'
    (hold.segment.symm.trans (hxy.trans hold'.segment))
  exact QueueP2P.eq_of_id (hshrinks.nodup hids) hx hy
    (hold.id.trans ((congrArg QueueElement.id hsame).trans hold'.id.symm))

/-! ## The invariant -/

/-- The request that an event is about. -/
def Event.request : Event → Nat
  | accepted _ request _ _ _ => request
  | failed request _ _ => request
  | left request _ _ => request
  | ended request => request

/-- What an event needs to have happened before, and what must not have. -/
def EventOk (settings : Settings) (before : List Event) : Event → Prop
  | .accepted asked request _ _ _ => asked = request ∧ Event.ended request ∉ before
  | .left request segment isError =>
    (∀ b, Event.left request segment b ∉ before) ∧
    (isError = false → ∃ answer, Event.accepted request request segment answer true ∈ before) ∧
    (isError = true → ∀ server ∈ settings.servers, Event.failed request segment server ∈ before)
  | _ => True

/-- Each event goes together with those before it. -/
def HistoryOk (settings : Settings) (events : List Event) : Prop :=
  ∀ before e after, events = before ++ e :: after → EventOk settings before e

theorem HistoryOk.snoc {e : Event} (h : HistoryOk settings events) (he : EventOk settings events e) :
    HistoryOk settings (events ++ [e]) := by
  intro before x after heq
  rcases List.eq_nil_or_concat after with rfl | ⟨after, y, rfl⟩
  · obtain ⟨rfl, hx⟩ := List.append_inj' heq rfl
    rw [← List.singleton_inj.mp hx]
    exact he
  · rw [List.concat_eq_append, ← List.cons_append, ← List.append_assoc] at heq
    obtain ⟨rfl, -⟩ := List.append_inj' heq rfl
    exact h before x after rfl

/-- The number of the request that is being made, or was made last. -/
def State.current (s : State) : Nat := s.requests.length - 1

/-- The segments that the caller has still to put into the queue. -/
def Caller.rest : Caller → List Segment
  | .starting _ segments => segments
  | _ => []

/-- The segments of the last request that have not left the queue. -/
def State.pending (s : State) : List Segment :=
  s.queue.queue.map QueueElement.segment ++ s.caller.rest

/-- The request that is being made is going to throw. -/
def State.failing (s : State) : Bool :=
  match s.caller with
  | .idle => false
  | .starting _ _ => s.queue.isError
  | .waited => s.queue.isError
  | .destroying isError => isError
  | .stopping isError => isError

/-- What holds of all requests. -/
structure RequestsOk (settings : Settings) (events : List Event) (s : State) : Prop where
  queue : QueueOk settings s.queue s.requests events
  threads : ∀ i, ThreadOk settings s.queue s.requests events (s.threads i)
  answers : ∀ (i : Nat) (r : Request), s.requests[i]? = some r → AnswersOk events i r
  tasks : ∀ (i : Nat) (r : Request) (k : Nat), s.requests[i]? = some r → r.taskId = some k →
    k ≤ s.queue.taskId
  prepared : ∀ (i : Nat) (r : Request), s.requests[i]? = some r → r.taskId ≠ none →
    (∃ tasks, prepare settings r.query = .ok (tasks, r.segments)) ∧
      r.answers.length = countAnswers settings r.query
  known : ∀ e ∈ events, e.request < s.requests.length
  ended : ∀ (i : Nat) (r : Request), s.requests[i]? = some r →
    (r.outcome ≠ none → r.destroyed = true) ∧ (Event.ended i ∈ events → r.outcome ≠ none)
  returned : ∀ (i : Nat) (r : Request) (answers : List Blob), s.requests[i]? = some r →
    r.outcome = some (.ok answers) → answers = r.answers ∧ r.taskId ≠ none ∧
      (∀ segment ∈ r.segments, Event.left i segment false ∈ events) ∧
      ∀ segment, Event.left i segment true ∉ events
  history : HistoryOk settings events

/-- The request that is being made. -/
structure Making (events : List Event) (s : State) (r : Request) : Prop where
  get : s.requests[s.current]? = some r
  taskId : r.taskId = some s.queue.taskId
  outcome : r.outcome = none
  isStopped : s.queue.isStopped = false
  pending : ∀ segment ∈ s.pending, segment ∈ r.segments
  covered : ∀ segment ∈ r.segments,
    segment ∈ s.pending ∨ ∃ b, Event.left s.current segment b ∈ events
  failing : ∀ segment, Event.left s.current segment true ∈ events → s.failing = true

/-- What holds of the caller and the last request. -/
structure CallerOk (settings : Settings) (events : List Event) (s : State) : Prop where
  making : s.caller ≠ .idle → ∃ r, Making events s r
  /-- Nothing is in the queue before the threads are told, and once the caller has waited. -/
  waited : (∀ segments, s.caller ≠ .starting [] segments) → s.queue.queue = []
  servers : ∀ tasks segments, s.caller = .starting tasks segments →
    ∀ x ∈ tasks, x.2 ∈ settings.servers
  nodup : s.pending.Nodup
  left : ∀ segment ∈ s.pending, ∀ b, Event.left s.current segment b ∉ events

/-- What holds after every step of a run. -/
structure Inv (settings : Settings) (events : List Event) (s : State) : Prop where
  requests : RequestsOk settings events s
  caller : CallerOk settings events s

theorem inv_new : Inv settings [] State.new where
  requests :=
    { queue := ⟨List.nodup_nil, by simp [State.new, QueueP2P.new], by simp [State.new, QueueP2P.new],
        by simp [State.new, QueueP2P.new], by simp [State.new]⟩
      threads := fun i => ⟨(fun t ht => by cases ht), trivial⟩
      answers := by simp [State.new]
      tasks := by simp [State.new]
      prepared := by simp [State.new]
      known := by simp
      ended := by simp [State.new]
      returned := by simp [State.new]
      history := by intro before e after h; simp at h }
  caller :=
    { making := fun h => absurd rfl h
      waited := fun _ => rfl
      servers := by simp [State.new]
      nodup := List.nodup_nil
      left := by simp [State.pending, State.new, QueueP2P.new, Caller.rest] }

/-! ## A step of a thread -/

theorem CallerOk.starting (h : CallerOk settings events s) {e : QueueElement}
    (he : e ∈ s.queue.queue) : ∃ segments, s.caller = .starting [] segments := by
  by_contra hne
  have hempty := h.waited (fun segments hc => hne ⟨segments, hc⟩)
  rw [hempty] at he
  cases he

theorem eventOk_effect {s : State} (hinv : Inv settings events s)
    (h : Effect settings s.queue s.requests events more queue' requests') :
    HistoryOk settings (events ++ more) := by
  obtain ⟨hr, hc⟩ := hinv
  have hleft : ∀ e ∈ s.queue.queue, ∀ b, Event.left s.current e.segment b ∉ events :=
    fun e he => hc.left e.segment (List.mem_append_left _ (List.mem_map.mpr ⟨e, he, rfl⟩))
  cases h with
  | quiet _ _ _ =>
    rw [List.append_nil]
    exact hr.history
  | @accept i r r' segment answer stored hget ha =>
    refine hr.history.snoc ⟨rfl, fun hended => ?_⟩
    obtain ⟨hdestroyed, hout⟩ := hr.ended i r hget
    have := hdestroyed (hout hended)
    rw [ha.destroyed] at this
    cases this
  | @remove e he hanswer =>
    exact hr.history.snoc ⟨hleft e he, fun _ => hanswer, fun hb => by cases hb⟩
  | @removeError e he hall =>
    refine hr.history.snoc ⟨hleft e he, (fun hb => by cases hb), fun _ server hserver => ?_⟩
    exact (hr.queue.errorServers e he server (hall server hserver)).2
  | fail _ _ => exact hr.history.snoc trivial

/-- What leaves with an error sets the flag. -/
theorem Effect.isError (h : Effect settings queue requests events more queue' requests') :
    (queue.isError = true → queue'.isError = true) ∧
      ∀ segment, Event.left (requests.length - 1) segment true ∈ more → queue'.isError = true := by
  cases h with
  | quiet _ hkeep _ => exact ⟨hkeep, fun _ hm => by cases hm⟩
  | accept _ _ => exact ⟨id, fun _ hm => by cases List.mem_singleton.mp hm⟩
  | remove _ _ => exact ⟨id, fun _ hm => by cases List.mem_singleton.mp hm⟩
  | removeError _ _ => exact ⟨fun _ => rfl, fun _ _ => rfl⟩
  | @fail e server _ _ =>
    refine ⟨fun he => ?_, fun _ hm => by cases List.mem_singleton.mp hm⟩
    unfold QueueP2P.errorElement
    split <;> exact he

theorem Effect.request_lt (h : Effect settings queue requests events more queue' requests')
    (hq : QueueOk settings queue requests events) : ∀ e ∈ more, e.request < requests.length := by
  have hlast : ∀ e ∈ queue.queue, requests.length - 1 < requests.length := by
    intro e he
    have := hq.length_pos he
    omega
  cases h with
  | quiet _ _ _ => simp
  | accept hget _ =>
    intro e he
    rw [List.mem_singleton.mp he]
    exact (List.getElem?_eq_some_iff.mp hget).1
  | remove he _ =>
    intro e hm
    rw [List.mem_singleton.mp hm]
    exact hlast _ he
  | removeError he _ =>
    intro e hm
    rw [List.mem_singleton.mp hm]
    exact hlast _ he
  | fail he _ =>
    intro e hm
    rw [List.mem_singleton.mp hm]
    exact hlast _ he

/-- The state after a step of a thread. -/
def State.afterThread (s : State) (queue : QueueP2P) (requests : List Request) (i : Nat)
    (th : P2PThread) : State :=
  { s with queue, requests, threads := Function.update s.threads i th }

theorem RequestsOk.thread {s : State} {i : Nat} {th : P2PThread} (hinv : Inv settings events s)
    (h : Effect settings s.queue s.requests events more queue' requests')
    (hth : ThreadOk settings queue' requests' (events ++ more) th) :
    RequestsOk settings (events ++ more) (s.afterThread queue' requests' i th) := by
  have hr := hinv.requests
  obtain ⟨⟨failed, hshrinks⟩, hlength⟩ := h.shrinks
  refine ⟨hr.queue.effect h, ?_, answersOk_effect hr.answers h, ?_, ?_, ?_, ?_, ?_,
    eventOk_effect hinv h⟩
  -- The thread that took the step found out what it should; the others lose nothing.
  · intro j
    show ThreadOk settings queue' requests' (events ++ more) (Function.update s.threads i th j)
    by_cases hj : j = i
    · subst hj
      rw [Function.update_self]
      exact hth
    · rw [Function.update_of_ne hj]
      exact (hr.threads j).mono h.grows
  · intro j r k hget hk
    obtain ⟨r₀, hget₀, htask, -⟩ := h.kept_back hget
    show k ≤ queue'.taskId
    rw [hshrinks.taskId]
    exact hr.tasks j r₀ k hget₀ (htask ▸ hk)
  -- An answer takes the place of another, so there are as many as before.
  · intro j r hget hne
    obtain ⟨r₀, hget₀, htask, hsegs, -, -, hquery⟩ := h.kept_back hget
    obtain ⟨hprepared, hanswers⟩ := hr.prepared j r₀ hget₀ (htask ▸ hne)
    rw [hquery, hsegs]
    refine ⟨hprepared, ?_⟩
    rw [← hanswers]
    cases h with
    | @accept i₁ r₁ r' segment answer stored hget₁ ha =>
      by_cases hj : i₁ = j
      · subst hj
        have hlt := (List.getElem?_eq_some_iff.mp hget₁).1
        obtain rfl : r₁ = r₀ := Option.some.inj (hget₁.symm.trans hget₀)
        obtain rfl : r' = r := Option.some.inj ((List.getElem?_set_self hlt).symm.trans hget)
        obtain ⟨response, hok⟩ := ha.ok
        obtain ⟨old, -, ⟨-, -, rfl⟩ | ⟨-, -, rfl⟩⟩ := processResponse_ok hok
        · exact List.length_set
        · rfl
      · obtain rfl := Option.some.inj (((List.getElem?_set_ne hj).symm.trans hget).symm.trans hget₀)
        rfl
    | quiet _ _ _ => rw [Option.some.inj (hget₀.symm.trans hget)]
    | remove _ _ => rw [Option.some.inj (hget₀.symm.trans hget)]
    | removeError _ _ => rw [Option.some.inj (hget₀.symm.trans hget)]
    | fail _ _ => rw [Option.some.inj (hget₀.symm.trans hget)]
  · intro e he
    show e.request < requests'.length
    rw [hlength]
    rcases List.mem_append.mp he with he | he
    · exact hr.known e he
    · exact h.request_lt hr.queue e he
  -- A step of a thread ends no request.
  · intro j r hget
    obtain ⟨r₀, hget₀, -, -, hdestroyed, hout, -⟩ := h.kept_back hget
    obtain ⟨hd, hended⟩ := hr.ended j r₀ hget₀
    rw [hdestroyed, hout]
    refine ⟨hd, fun he => ?_⟩
    rcases List.mem_append.mp he with he | he
    · exact hended he
    · cases h with
      | quiet _ _ _ => cases he
      | accept _ _ => cases List.mem_singleton.mp he
      | remove _ _ => cases List.mem_singleton.mp he
      | removeError _ _ => cases List.mem_singleton.mp he
      | fail _ _ => cases List.mem_singleton.mp he
  · intro j r answers hget hreturned
    obtain ⟨r₀, hget₀, htask, hsegs, -, hout, -⟩ := h.kept_back hget
    obtain ⟨hsame, htask₀, hleft, hnot⟩ := hr.returned j r₀ answers hget₀ (hout ▸ hreturned)
    have hdestroyed : r₀.destroyed = true :=
      (hr.ended j r₀ hget₀).1 (by rw [← hout, hreturned]; simp)
    refine ⟨?_, by rw [htask]; exact htask₀, ?_, ?_⟩
    · -- a request that has returned takes no more answers
      rw [hsame]
      cases h with
      | @accept i₁ r₁ r' segment answer stored hget₁ ha =>
        by_cases hj : i₁ = j
        · subst hj
          obtain rfl : r₁ = r₀ := Option.some.inj (hget₁.symm.trans hget₀)
          rw [ha.destroyed] at hdestroyed
          cases hdestroyed
        · rw [Option.some.inj (((List.getElem?_set_ne hj).symm.trans hget).symm.trans hget₀)]
      | quiet _ _ _ => rw [Option.some.inj (hget₀.symm.trans hget)]
      | remove _ _ => rw [Option.some.inj (hget₀.symm.trans hget)]
      | removeError _ _ => rw [Option.some.inj (hget₀.symm.trans hget)]
      | fail _ _ => rw [Option.some.inj (hget₀.symm.trans hget)]
    · intro segment hseg
      exact List.mem_append_left _ (hleft segment (hsegs ▸ hseg))
    · intro segment hevent
      rcases List.mem_append.mp hevent with hevent | hevent
      · exact hnot segment hevent
      · -- nothing leaves but while a request is being made
        obtain ⟨rfl, hmem⟩ := h.left_mem hevent
        obtain ⟨e, he, rfl⟩ := List.mem_map.mp hmem
        obtain ⟨segments, hcaller⟩ := hinv.caller.starting he
        obtain ⟨r₁, hmaking⟩ := hinv.caller.making (by rw [hcaller]; simp)
        rw [Option.some.inj (hget₀.symm.trans hmaking.get), hmaking.outcome] at hout
        rw [hout] at hreturned
        cases hreturned

theorem CallerOk.thread {s : State} {i : Nat} {th : P2PThread} (hinv : Inv settings events s)
    (h : Effect settings s.queue s.requests events more queue' requests') :
    CallerOk settings (events ++ more) (s.afterThread queue' requests' i th) := by
  obtain ⟨hr, hc⟩ := hinv
  obtain ⟨⟨failed, hshrinks⟩, hlength⟩ := h.shrinks
  obtain ⟨hsegs, hrest, hdisjoint⟩ := List.nodup_append.mp hc.nodup
  have hcurrent : (s.afterThread queue' requests' i th).current = s.current := by
    show requests'.length - 1 = s.requests.length - 1
    rw [hlength]
  -- what is pending is what was pending and has not left now
  have hpending : ∀ segment, segment ∈ (s.afterThread queue' requests' i th).pending ↔
      segment ∈ s.pending ∧ ∀ b, Event.left s.current segment b ∉ more := by
    intro segment
    have hqueue := h.segments hr.queue.nodup hsegs segment
    show segment ∈ queue'.queue.map QueueElement.segment ++ s.caller.rest ↔ _
    rw [List.mem_append, hqueue, State.pending, List.mem_append]
    constructor
    · rintro (⟨hin, hnot⟩ | hin)
      · exact ⟨Or.inl hin, hnot⟩
      · refine ⟨Or.inr hin, fun b hb => ?_⟩
        exact hdisjoint segment (h.left_mem hb).2 segment hin rfl
    · rintro ⟨hin | hin, hnot⟩
      · exact Or.inl ⟨hin, hnot⟩
      · exact Or.inr hin
  refine ⟨?_, ?_, hc.servers, ?_, ?_⟩
  -- While a request is made, what is missing is pending or has left.
  · intro hidle
    obtain ⟨r, hm⟩ := hc.making hidle
    obtain ⟨r', hget', htask', hsegs', -, hout', -⟩ := h.kept hm.get
    refine ⟨r', by rw [hcurrent]; exact hget', ?_, hout'.trans hm.outcome, ?_, ?_, ?_, ?_⟩
    · show r'.taskId = some queue'.taskId
      rw [htask', hm.taskId, hshrinks.taskId]
    · show queue'.isStopped = false
      rw [hshrinks.isStopped, hm.isStopped]
    · intro segment hin
      rw [hsegs']
      exact hm.pending segment ((hpending segment).mp hin).1
    · intro segment hin
      rw [hcurrent, hpending]
      rw [hsegs'] at hin
      rcases hm.covered segment hin with hin | ⟨b, hb⟩
      · by_cases hleft : ∃ b, Event.left s.current segment b ∈ more
        · obtain ⟨b, hb⟩ := hleft
          exact Or.inr ⟨b, List.mem_append_right _ hb⟩
        · exact Or.inl ⟨hin, fun b hb => hleft ⟨b, hb⟩⟩
      · exact Or.inr ⟨b, List.mem_append_left _ hb⟩
    -- An element that leaves with an error sets the flag, and nothing takes it back.
    · intro segment hevent
      rw [hcurrent] at hevent
      rcases List.mem_append.mp hevent with hevent | hevent
      · have hfailing := hm.failing segment hevent
        unfold State.failing at hfailing ⊢
        show (match s.caller with
          | .idle => false
          | .starting _ _ => queue'.isError
          | .waited => queue'.isError
          | .destroying isError => isError
          | .stopping isError => isError) = true
        cases hcaller : s.caller <;> rw [hcaller] at hfailing <;>
          first | exact hfailing | exact h.isError.1 hfailing
      · obtain ⟨e, he, -⟩ := List.mem_map.mp (h.left_mem hevent).2
        obtain ⟨segments, hcaller⟩ := hc.starting he
        unfold State.failing State.afterThread
        rw [hcaller]
        exact h.isError.2 segment hevent
  -- Once the queue has been empty, nobody fills it.
  · intro hne
    show queue'.queue = []
    have hempty := hc.waited hne
    rw [List.eq_nil_iff_forall_not_mem]
    intro e' he'
    obtain ⟨e, he, -⟩ := hshrinks.mem e' he'
    rw [hempty] at he
    cases he
  · show (queue'.queue.map QueueElement.segment ++ s.caller.rest).Nodup
    refine List.nodup_append.mpr ⟨h.nodup_segments hr.queue.nodup hsegs, hrest, ?_⟩
    intro a ha b hb
    exact hdisjoint a ((h.segments hr.queue.nodup hsegs a).mp ha).1 b hb
  · intro segment hin b hevent
    rw [hcurrent] at hevent
    obtain ⟨hin, hnot⟩ := (hpending segment).mp hin
    rcases List.mem_append.mp hevent with hevent | hevent
    · exact hc.left segment hin b hevent
    · exact hnot b hevent

/-- The invariant after a step of a thread. -/
theorem Inv.thread {s : State} {i : Nat} {th : P2PThread} (hinv : Inv settings events s)
    (h : ThreadStep s.queue s.requests (s.threads i) more queue' requests' th) :
    Inv settings (events ++ more) (s.afterThread queue' requests' i th) := by
  obtain ⟨heffect, hth⟩ := h.effect (hinv.requests.threads i) hinv.requests.queue
    hinv.requests.answers
  exact ⟨RequestsOk.thread hinv heffect hth, CallerOk.thread hinv heffect⟩

end P2P_Ips

end TorrentNode
