import Mathlib.Logic.Function.Basic
import TorrentNode.P2P.Queue

/-!
# Requests to many servers (`P2P_Ips`, `P2P_Impl`, `P2PThread`)

One caller makes one request after the other. Each request is a task: the caller tells
the threads which server they are to ask, puts the segments into the queue, waits until
the queue is empty and takes the answers. The threads go on whatever the caller does,
so one that has worked on an old task may come back in the middle of a new one.
-/

namespace TorrentNode

namespace P2P_Ips

/-- What does not change. -/
structure Settings where
  servers : List Blob
  countConnections : Nat

/-- The arguments of `requestImpl`. -/
structure Query where
  responseSize : Nat
  minResponseSize : Nat
  isPrecisionSize : Bool
  /-- The answer to the part between two bytes; an answer with an error is thrown by the caller. -/
  responseParse : Blob → Nat → Nat → Except Err Blob

/-- A request: its arguments, its segments, the answers, and how it ended. -/
structure Request where
  query : Query
  segments : List Segment
  /-- The task that it became. -/
  taskId : Option Nat
  answers : List Blob
  /-- The references that the threads hold are cut. -/
  destroyed : Bool
  outcome : Option (Except Err (List Blob))

/-- What a thread is told with `newTask`. -/
structure Task where
  taskNumber : Nat
  server : Blob
  /-- The request that the references lead to. -/
  request : Nat
  countUniqueServers : Nat

/-- Where a thread is in `work`. -/
inductive Place where
  /-- Not started. -/
  | none
  /-- At the top of the loop. -/
  | top
  | task (t : Task)
  /-- `getElement` returned false. -/
  | closed (t : Task)
  | element (t : Task) (id : Nat)
  | segment (t : Task) (id : Nat) (segment : Segment)
  /-- A server was asked what `makeQsAndPost` of a request made. -/
  | asked (t : Task) (id : Nat) (segment : Segment) (query : Nat)
  | answered (t : Task) (id : Nat) (segment : Segment) (query : Nat) (response : Blob)
  | processed (t : Task) (id : Nat)
  | failed (t : Task) (id : Nat)
  /-- All servers failed. -/
  | exhausted (t : Task) (id : Nat)
  /-- Out of the loop. -/
  | ended

/-- A thread: its last task, and where it is. -/
structure P2PThread where
  task : Option Task
  place : Place

/-- The thread at another place. -/
def P2PThread.at (th : P2PThread) (place : Place) : P2PThread := { th with place }

/-- Where the caller is in `process`. -/
inductive Caller where
  | idle
  /-- The calls of `newTask` and `addElement` that are left. -/
  | starting (tasks : List (Nat × Blob)) (segments : List Segment)
  /-- The queue was empty. -/
  | waited
  | destroying (isError : Bool)
  | stopping (isError : Bool)

/-- The caller, the threads, and what they share. -/
structure State where
  queue : QueueP2P
  /-- `P2P_Impl::taskId`. -/
  taskId : Nat
  threads : Nat → P2PThread
  caller : Caller
  requests : List Request

/-- What is remarkable about a step. -/
inductive Event where
  /-- The answer to what was asked for one request is accepted by a request, and stored or not. -/
  | accepted (asked request : Nat) (segment : Segment) (answer : Blob) (stored : Bool)
  | failed (request : Nat) (segment : Segment) (server : Blob)
  | left (request : Nat) (segment : Segment) (isError : Bool)
  | ended (request : Nat)
  deriving DecidableEq

/-! ## What the caller computes -/

/-- `getServersList(srves, countSegments)`: the threads of each server, from here to there. -/
def getServersList (settings : Settings) (countSegments : Nat) :
    Except Err (List (Nat × Nat × Blob)) := do
  let currConnections := min
    ((countSegments + settings.servers.length - 1) / settings.servers.length)
    settings.countConnections
  settings.servers.mapM (fun srv => do
    check (srv ∈ settings.servers) "where did this come from?"
    let index := settings.servers.idxOf srv
    pure (index * settings.countConnections, index * settings.countConnections + currConnections,
      srv))

/-- The threads that get a task, and their servers. -/
def newTasks (distribution : List (Nat × Nat × Blob)) : List (Nat × Blob) :=
  distribution.flatMap (fun d => (List.range' d.1 (d.2.1 - d.1)).map (fun index => (index, d.2.2)))

/-- `countSegments` of `requestImpl`, which has so many answers. -/
def countAnswers (settings : Settings) (q : Query) : Nat :=
  countSegments q.responseSize q.minResponseSize
    (settings.countConnections * settings.servers.length)

/-- `requestImpl` before the task starts: the threads to start and the segments. -/
def prepare (settings : Settings) (q : Query) :
    Except Err (List (Nat × Blob) × List Segment) := do
  check (q.responseSize != 0) "response size 0"
  let distribution ← getServersList settings (countAnswers settings q)
  let segments ← makeSegments (countAnswers settings q) q.responseSize q.minResponseSize
  pure (newTasks distribution, segments)

/-- `countUnique` of the servers. -/
def countUniqueServer (settings : Settings) : Nat :=
  (OrdSet.toList (OrdSet.ofList settings.servers)).length

/-- The lambda `processResponse`: the answer, whether it was stored, and the request. -/
def processResponse (r : Request) (response : Blob) (segment : Segment) :
    Except Err (Blob × Bool × Request) := do
  let answer ← r.query.responseParse response segment.fromByte segment.toByte
  if r.query.isPrecisionSize ∧ answer.size ≠ segment.toByte - segment.fromByte then
    .error (.exception "Incorrect response size")
  else
    match r.answers[segment.posInArray]? with
    | none => .error (.std "out_of_range")
    | some old =>
      if old.isEmpty then
        pure (answer, true, { r with answers := r.answers.set segment.posInArray answer })
      else pure (answer, false, r)

/-- `request`: the answers one after the other. -/
def joinAnswers (q : Query) (answers : List Blob) : Except Err Blob := do
  let response ← Blob.ofBytes (answers.flatMap Subtype.val)
  check (!q.isPrecisionSize || response.size == q.responseSize)
    "response size != getted response"
  pure response

/-- `P2PThread::newTask`; a thread that was not started is started. -/
def newTask (queue : QueueP2P) (t : Task) (th : P2PThread) : Except Err P2PThread := do
  check (queue.started == some t.taskNumber) "Queue not started"
  check ((th.task.elim 0 Task.taskNumber) < t.taskNumber) "Incorrect sequences task"
  pure { task := some t
         place := match th.place with
           | .none => .top
           | place => place }

/-- A request that has become a task. -/
def newRequest (settings : Settings) (q : Query) (taskId : Nat) (segments : List Segment) :
    Request where
  query := q
  segments := segments
  taskId := some taskId
  answers := List.replicate (countAnswers settings q) ∅
  destroyed := false
  outcome := none

/-- A request that has not. -/
def refusedRequest (q : Query) (segments : List Segment) (e : Err) : Request where
  query := q
  segments := segments
  taskId := none
  answers := []
  destroyed := true
  outcome := some (.error e)

/-! ## Steps -/

/-- The segment of an element that is about to leave the queue. -/
def leaving (queue : QueueP2P) (request id : Nat) (isError : Bool) : List Event :=
  (queue.getSegment id).toList.map (fun segment => .left request segment isError)

/-- A step of a thread: what it makes of the queue, of the requests and of itself. -/
inductive ThreadStep (queue : QueueP2P) (requests : List Request) (th : P2PThread) :
    List Event → QueueP2P → List Request → P2PThread → Prop where
  | read {t : Task} : th.place = .top → th.task = some t →
      ThreadStep queue requests th [] queue requests (th.at (.task t))
  | takeThrows {t : Task} {e : Err} : th.place = .task t →
      queue.getElement t.server t.taskNumber = .error e →
      ThreadStep queue requests th [] queue requests (th.at .ended)
  | takeNothing {t : Task} {queue' : QueueP2P} : th.place = .task t →
      queue.getElement t.server t.taskNumber = .ok (some (none, queue')) →
      ThreadStep queue requests th [] queue' requests (th.at (.closed t))
  | take {t : Task} {queue' : QueueP2P} {id : Nat} : th.place = .task t →
      queue.getElement t.server t.taskNumber = .ok (some (some id, queue')) →
      ThreadStep queue requests th [] queue' requests (th.at (.element t id))
  | wake {t t' : Task} : th.place = .closed t → th.task = some t' →
      t.taskNumber ≠ t'.taskNumber →
      ThreadStep queue requests th [] queue requests (th.at .top)
  | lost {t : Task} {id : Nat} : th.place = .element t id → queue.getSegment id = none →
      ThreadStep queue requests th [] queue requests (th.at .top)
  | segment {t : Task} {id : Nat} {segment : Segment} : th.place = .element t id →
      queue.getSegment id = some segment →
      ThreadStep queue requests th [] queue requests (th.at (.segment t id segment))
  /-- `DestroyedException` out of `makeQsAndPost`. -/
  | askDestroyed {t : Task} {id : Nat} {segment : Segment} {r : Request} :
      th.place = .segment t id segment → requests[t.request]? = some r → r.destroyed = true →
      ThreadStep queue requests th [] queue requests (th.at .top)
  | ask {t : Task} {id : Nat} {segment : Segment} {r : Request} :
      th.place = .segment t id segment → requests[t.request]? = some r → r.destroyed = false →
      ThreadStep queue requests th [] queue requests (th.at (.asked t id segment t.request))
  | answer {t : Task} {id : Nat} {segment : Segment} {query : Nat} (response : Blob) :
      th.place = .asked t id segment query →
      ThreadStep queue requests th [] queue requests
        (th.at (.answered t id segment query response))
  | noAnswer {t : Task} {id : Nat} {segment : Segment} {query : Nat} :
      th.place = .asked t id segment query →
      ThreadStep queue requests th [] queue requests (th.at (.failed t id))
  /-- `DestroyedException` out of `processResponse`. -/
  | processDestroyed {t : Task} {id : Nat} {segment : Segment} {query : Nat} {response : Blob}
      {r : Request} :
      th.place = .answered t id segment query response → requests[t.request]? = some r →
      r.destroyed = true → ThreadStep queue requests th [] queue requests (th.at .top)
  | processThrows {t : Task} {id : Nat} {segment : Segment} {query : Nat} {response : Blob}
      {r : Request} {msg : String} : th.place = .answered t id segment query response →
      requests[t.request]? = some r → r.destroyed = false →
      processResponse r response segment = .error (.exception msg) →
      ThreadStep queue requests th [] queue requests (th.at (.failed t id))
  | processEnds {t : Task} {id : Nat} {segment : Segment} {query : Nat} {response : Blob}
      {r : Request} {e : Err} : th.place = .answered t id segment query response →
      requests[t.request]? = some r → r.destroyed = false →
      processResponse r response segment = .error e →
      ThreadStep queue requests th [] queue requests (th.at .ended)
  | process {t : Task} {id : Nat} {segment : Segment} {query : Nat} {response answer : Blob}
      {r r' : Request} {stored : Bool} : th.place = .answered t id segment query response →
      requests[t.request]? = some r → r.destroyed = false →
      processResponse r response segment = .ok (answer, stored, r') →
      ThreadStep queue requests th [.accepted query t.request segment answer stored] queue
        (requests.set t.request r') (th.at (.processed t id))
  | remove {t : Task} {id : Nat} : th.place = .processed t id →
      ThreadStep queue requests th (leaving queue t.request id false) (queue.removeElement id)
        requests (th.at .top)
  | error {t : Task} {id : Nat} : th.place = .failed t id →
      ThreadStep queue requests th
        ((queue.getSegment id).toList.map (fun segment => .failed t.request segment t.server))
        (queue.errorElement id t.server).2 requests
        (th.at (if t.countUniqueServers ≤ (queue.errorElement id t.server).1 then .exhausted t id
          else .top))
  | removeError {t : Task} {id : Nat} : th.place = .exhausted t id →
      ThreadStep queue requests th (leaving queue t.request id true)
        (queue.removeElementError id) requests (th.at .top)

/-- The last request ended this way; its references are cut. -/
def endRequest (requests : List Request) (outcome : Except Err (List Blob)) : List Request :=
  requests.modify (requests.length - 1)
    (fun r => { r with destroyed := true, outcome := some outcome })

/-- A step of the caller or of a thread. -/
inductive Step (settings : Settings) (s : State) : List Event → State → Prop where
  | refused {q : Query} {e : Err} : s.caller = .idle → prepare settings q = .error e →
      Step settings s [.ended s.requests.length] { s with
        requests := s.requests ++ [refusedRequest q [] e] }
  | notStarted {q : Query} {e : Err} {tasks : List (Nat × Blob)} {segments : List Segment}
      {queue : QueueP2P} : s.caller = .idle → prepare settings q = .ok (tasks, segments) →
      s.queue.start s.taskId = (.error e, queue) →
      Step settings s [.ended s.requests.length] { s with
        queue, requests := s.requests ++ [refusedRequest q segments e] }
  | start {q : Query} {tasks : List (Nat × Blob)} {segments : List Segment}
      {queue : QueueP2P} : s.caller = .idle → prepare settings q = .ok (tasks, segments) →
      s.queue.start s.taskId = (.ok (), queue) →
      Step settings s [] { s with
        queue
        caller := .starting tasks segments
        requests := s.requests ++ [newRequest settings q s.taskId segments] }
  | newTask {index : Nat} {server : Blob} {tasks : List (Nat × Blob)} {segments : List Segment}
      {th : P2PThread} : s.caller = .starting ((index, server) :: tasks) segments →
      index < settings.countConnections * settings.servers.length →
      newTask s.queue { taskNumber := s.taskId, server, request := s.requests.length - 1
                        countUniqueServers := countUniqueServer settings } (s.threads index) =
        .ok th →
      Step settings s [] { s with
        caller := .starting tasks segments
        threads := Function.update s.threads index th }
  | taskThrows {index : Nat} {server : Blob} {tasks : List (Nat × Blob)} {segments : List Segment}
      {e : Err} : s.caller = .starting ((index, server) :: tasks) segments →
      (index < settings.countConnections * settings.servers.length →
        newTask s.queue { taskNumber := s.taskId, server, request := s.requests.length - 1
                          countUniqueServers := countUniqueServer settings } (s.threads index) =
          .error e) →
      Step settings s [.ended (s.requests.length - 1)] { s with
        caller := .idle
        requests := endRequest s.requests (.error e) }
  | addElement {segment : Segment} {segments : List Segment} {queue : QueueP2P} :
      s.caller = .starting [] (segment :: segments) →
      s.queue.addElement segment = (.ok (), queue) →
      Step settings s [] { s with queue, caller := .starting [] segments }
  | addThrows {segment : Segment} {segments : List Segment} {queue : QueueP2P} {e : Err} :
      s.caller = .starting [] (segment :: segments) →
      s.queue.addElement segment = (.error e, queue) →
      Step settings s [.ended (s.requests.length - 1)] { s with
        queue, caller := .idle, requests := endRequest s.requests (.error e) }
  | waitEmpty : s.caller = .starting [] [] → s.queue.waitedEmpty = true →
      Step settings s [] { s with caller := .waited }
  | error {isError : Bool} : s.caller = .waited → s.queue.error = .ok isError →
      Step settings s [] { s with caller := .destroying isError }
  | errorThrows {e : Err} : s.caller = .waited → s.queue.error = .error e →
      Step settings s [.ended (s.requests.length - 1)] { s with
        caller := .idle, requests := endRequest s.requests (.error e) }
  | destroy {isError : Bool} : s.caller = .destroying isError →
      Step settings s [] { s with
        caller := .stopping isError
        requests := s.requests.modify (s.requests.length - 1)
          (fun r => { r with destroyed := true }) }
  | stop {isError : Bool} {r : Request} : s.caller = .stopping isError →
      s.requests[s.requests.length - 1]? = some r →
      Step settings s [.ended (s.requests.length - 1)] { s with
        queue := s.queue.stop
        taskId := s.taskId + 1
        caller := .idle
        requests := endRequest s.requests
          (if isError then .error (.exception "dont run request") else .ok r.answers) }
  | thread {i : Nat} {events : List Event} {queue : QueueP2P} {requests : List Request}
      {th : P2PThread} :
      ThreadStep s.queue s.requests (s.threads i) events queue requests th →
      Step settings s events { s with
        queue, requests, threads := Function.update s.threads i th }

/-- Nothing was requested yet. -/
def State.new : State where
  queue := QueueP2P.new
  taskId := 1
  threads := fun _ => { task := none, place := .none }
  caller := .idle
  requests := []

/-- The events so far of the caller and the threads. -/
inductive Run (settings : Settings) : List Event → State → Prop where
  | new : Run settings [] State.new
  | step {events more : List Event} {s s' : State} : Run settings events s →
      Step settings s more s' → Run settings (events ++ more) s'

end P2P_Ips

end TorrentNode
