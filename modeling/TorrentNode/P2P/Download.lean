import TorrentNode.P2P.Invariant

/-!
# A download comes out as it went in

The caller starts a request, hands it out and ends it. When a request returns, each of
its segments has left the queue with an answer, so the answers are those to its own
segments in their order, and put together they are the dump.
-/

namespace TorrentNode

namespace P2P_Ips

variable {settings : Settings} {events more : List Event} {s : State}

/-! ## What the caller computes -/

theorem getServersList_servers {count : Nat} {distribution : List (Nat × Nat × Blob)}
    (h : getServersList settings count = .ok distribution) :
    ∀ d ∈ distribution, d.2.2 ∈ settings.servers := by
  intro d hd
  obtain ⟨srv, hsrv, hok⟩ := exists_of_mapM h d hd
  obtain ⟨-, hok⟩ := check_bind_eq_ok.mp hok
  cases hok
  exact hsrv

/-- The threads that are started work for the servers, and the segments are in a row. -/
theorem prepare_ok {q : Query} {tasks : List (Nat × Blob)} {segments : List Segment}
    (h : prepare settings q = .ok (tasks, segments)) :
    (∀ x ∈ tasks, x.2 ∈ settings.servers) ∧ Contiguous 0 q.responseSize segments ∧
      segments.map Segment.posInArray = List.range segments.length ∧
      countAnswers settings q ≤ segments.length := by
  obtain ⟨-, h⟩ := check_bind_eq_ok.mp h
  obtain ⟨distribution, hdistribution, h⟩ := bind_eq_ok.mp h
  obtain ⟨segments', hsegments, h⟩ := bind_eq_ok.mp h
  cases h
  obtain ⟨-, hsegments⟩ := check_bind_eq_ok.mp hsegments
  cases hsegments
  refine ⟨?_, contiguous_segmentsFrom _ _ _ _ _ (Nat.zero_le _), ?_, ?_⟩
  · intro x hx
    obtain ⟨d, hd, hx⟩ := List.mem_flatMap.mp hx
    obtain ⟨index, -, rfl⟩ := List.mem_map.mp hx
    exact getServersList_servers hdistribution d hd
  · have hpos := posInArray_segmentsFrom
      (segmentStep (countAnswers settings q) q.responseSize q.minResponseSize) q.responseSize
      (countAnswers settings q - 1) 0 0
    have hlength := congrArg List.length hpos
    rw [List.length_map, List.length_range'] at hlength
    rw [hpos, hlength, List.range_eq_range']
  · have hpos := congrArg List.length (posInArray_segmentsFrom
      (segmentStep (countAnswers settings q) q.responseSize q.minResponseSize) q.responseSize
      (countAnswers settings q - 1) 0 0)
    rw [List.length_map, List.length_range'] at hpos
    rw [hpos]
    omega

theorem nodup_positions {segments : List Segment}
    (h : segments.map Segment.posInArray = List.range segments.length) :
    (segments.map Segment.posInArray).Nodup := by
  rw [h]
  exact List.nodup_range

/-! ## A new request -/

/-- The state with one more request. -/
def State.withRequest (s : State) (queue : QueueP2P) (caller : Caller) (r : Request) : State :=
  { s with queue, caller, requests := s.requests ++ [r] }

/-- A request that has no answers, and whose task is a new one. -/
structure FreshRequest (settings : Settings) (s : State) (queue : QueueP2P) (r : Request) :
    Prop where
  positions : (r.segments.map Segment.posInArray).Nodup
  answers : ∀ a ∈ r.answers, a.isEmpty = true
  task : ∀ k, r.taskId = some k → s.queue.taskId < k ∧ k ≤ queue.taskId
  prepared : r.taskId ≠ none →
    (∃ tasks, prepare settings r.query = .ok (tasks, r.segments)) ∧
      r.answers.length = countAnswers settings r.query
  outcome : r.outcome ≠ none → r.destroyed = true
  notReturned : ∀ answers, r.outcome ≠ some (.ok answers)

theorem getElem?_snoc {α : Type} {l : List α} {a b : α} {i : Nat} (h : (l ++ [a])[i]? = some b) :
    l[i]? = some b ∨ i = l.length ∧ b = a := by
  rcases Nat.lt_trichotomy i l.length with hlt | rfl | hgt
  · rw [List.getElem?_append_left hlt] at h
    exact Or.inl h
  · rw [List.getElem?_concat_length] at h
    exact Or.inr ⟨rfl, (Option.some.inj h).symm⟩
  · rw [List.getElem?_eq_none (by rw [List.length_append, List.length_singleton]; omega)] at h
    cases h

theorem RequestsOk.withRequest {queue : QueueP2P} {caller : Caller} {r : Request}
    (hr : RequestsOk settings events s) (hempty : queue.queue = [])
    (hmade : queue.made = s.queue.made) (htaskId : s.queue.taskId ≤ queue.taskId)
    (hfresh : FreshRequest settings s queue r)
    (hmore : more = [] ∨ more = [.ended s.requests.length] ∧ r.outcome ≠ none) :
    RequestsOk settings (events ++ more) (s.withRequest queue caller r) := by
  -- The only event there can be is the end of the new request, if it was refused.
  have hended : ∀ e ∈ more, e = .ended s.requests.length := by
    rcases hmore with rfl | ⟨rfl, -⟩ <;> simp
  have hnew : ∀ e ∈ events, e.request ≠ s.requests.length := fun e he => (hr.known e he).ne
  -- The queue is empty, so no thread holds an element of it.
  have hgrows : Grows s.queue s.requests events queue (s.requests ++ [r]) (events ++ more) := by
    refine ⟨?_, Nat.le_of_eq hmade.symm, ?_, fun e he => List.mem_append_left _ he⟩
    · rw [hempty]
      intro e he
      cases he
    · intro i r₀ hget
      refine ⟨r₀, ?_, rfl, rfl⟩
      rw [List.getElem?_append_left (List.getElem?_eq_some_iff.mp hget).1]
      exact hget
  refine ⟨⟨?_, ?_, ?_, ?_, ?_⟩, fun i => (hr.threads i).mono hgrows, ?_, ?_, ?_, ?_, ?_, ?_, ?_⟩
  · show (queue.queue.map QueueElement.id).Nodup
    rw [hempty]
    exact List.nodup_nil
  · show ∀ e ∈ queue.queue, _
    rw [hempty]
    simp
  · show ∀ e ∈ queue.queue, _
    rw [hempty]
    simp
  · show ∀ e ∈ queue.queue, _
    rw [hempty]
    simp
  -- The task of the new request is greater than every one before it.
  · intro i j r₁ r₂ k hget₁ hget₂ hk₁ hk₂
    rcases getElem?_snoc hget₁ with h₁ | ⟨hi, heq₁⟩ <;>
      rcases getElem?_snoc hget₂ with h₂ | ⟨hj, heq₂⟩
    · exact hr.queue.injective i j r₁ r₂ k h₁ h₂ hk₁ hk₂
    · have hle := hr.tasks i r₁ k h₁ hk₁
      have hlt := (hfresh.task k (heq₂ ▸ hk₂)).1
      omega
    · have hle := hr.tasks j r₂ k h₂ hk₂
      have hlt := (hfresh.task k (heq₁ ▸ hk₁)).1
      omega
    · rw [hi, hj]
  -- What holds of the old requests still does; the new one has no answers.
  · intro i r₀ hget
    rcases getElem?_snoc hget with hget | ⟨rfl, rfl⟩
    · exact (hr.answers i r₀ hget).append (fun _ _ he => by cases hended _ he)
    · refine ⟨hfresh.positions, ?_, ?_⟩
      · intro segment _ answer he
        rcases List.mem_append.mp he with he | he
        · exact absurd rfl (hnew _ he)
        · cases hended _ he
      · intro p a ha hne
        rw [hfresh.answers a (List.mem_of_getElem? ha)] at hne
        cases hne
  · intro i r₀ k hget hk
    show k ≤ queue.taskId
    rcases getElem?_snoc hget with hget | ⟨rfl, rfl⟩
    · exact (hr.tasks i r₀ k hget hk).trans htaskId
    · exact (hfresh.task k hk).2
  · intro i r₀ hget hne
    rcases getElem?_snoc hget with hget | ⟨rfl, rfl⟩
    · exact hr.prepared i r₀ hget hne
    · exact hfresh.prepared hne
  · intro e he
    show e.request < (s.requests ++ [r]).length
    rw [List.length_append, List.length_singleton]
    rcases List.mem_append.mp he with he | he
    · exact Nat.lt_succ_of_lt (hr.known e he)
    · rw [hended e he]
      exact Nat.lt_succ_self _
  · intro i r₀ hget
    rcases getElem?_snoc hget with hget | ⟨rfl, rfl⟩
    · obtain ⟨hd, he⟩ := hr.ended i r₀ hget
      refine ⟨hd, fun hevent => ?_⟩
      rcases List.mem_append.mp hevent with hevent | hevent
      · exact he hevent
      · cases hended _ hevent
        exact absurd (List.getElem?_eq_some_iff.mp hget).1 (Nat.lt_irrefl _)
    · refine ⟨hfresh.outcome, fun hevent => ?_⟩
      rcases List.mem_append.mp hevent with hevent | hevent
      · exact absurd rfl (hnew _ hevent)
      · rcases hmore with rfl | ⟨-, hne⟩
        · cases hevent
        · exact hne
  · intro i r₀ answers hget hreturned
    rcases getElem?_snoc hget with hget | ⟨rfl, rfl⟩
    · obtain ⟨hsame, htask, hleft, hnot⟩ := hr.returned i r₀ answers hget hreturned
      refine ⟨hsame, htask, fun segment hseg => List.mem_append_left _ (hleft segment hseg), ?_⟩
      intro segment hevent
      rcases List.mem_append.mp hevent with hevent | hevent
      · exact hnot segment hevent
      · cases hended _ hevent
    · exact absurd hreturned (hfresh.notReturned answers)
  · rcases hmore with rfl | ⟨rfl, -⟩
    · rw [List.append_nil]
      exact hr.history
    · exact hr.history.snoc trivial

/-- A caller that has nothing to do. -/
theorem CallerOk.of_idle (hcaller : s.caller = .idle) (hempty : s.queue.queue = []) :
    CallerOk settings events s := by
  have hpending : s.pending = [] := by rw [State.pending, hempty, hcaller]; rfl
  refine ⟨fun h => absurd hcaller h, fun _ => hempty, ?_, ?_, ?_⟩
  · intro tasks segments h
    rw [hcaller] at h
    cases h
  · rw [hpending]
    exact List.nodup_nil
  · rw [hpending]
    simp

theorem start_eq {queue queue' : QueueP2P} {taskId : Nat} {r : Except Err Unit}
    (h : queue.start taskId = (r, queue')) :
    queue'.queue = queue.queue ∧ queue'.made = queue.made ∧ queue.taskId ≤ queue'.taskId ∧
      (r = .ok () → queue'.isStopped = false ∧ queue'.taskId = taskId ∧ queue.taskId < taskId) := by
  unfold QueueP2P.start at h
  split at h
  · cases h
    exact ⟨rfl, rfl, Nat.le_refl _, (fun h => by cases h)⟩
  · dsimp only at h
    split at h
    · cases h
      exact ⟨rfl, rfl, Nat.le_refl _, (fun h => by cases h)⟩
    · rename_i hlt
      cases h
      exact ⟨rfl, rfl, Nat.le_of_lt (Nat.lt_of_not_le hlt),
        fun _ => ⟨rfl, rfl, Nat.lt_of_not_le hlt⟩⟩

/-- A request that ends at once. -/
theorem freshRequest_refused {queue : QueueP2P} {q : Query} {segments : List Segment} {e : Err}
    (h : (segments.map Segment.posInArray).Nodup) :
    FreshRequest settings s queue (refusedRequest q segments e) where
  positions := h
  answers := by simp [refusedRequest]
  task := by simp [refusedRequest]
  prepared := fun h => absurd rfl h
  outcome := fun _ => rfl
  notReturned := by simp [refusedRequest]

/-- The invariant when a request starts. -/
theorem Inv.start {q : Query} {tasks : List (Nat × Blob)} {segments : List Segment}
    {queue : QueueP2P} (hinv : Inv settings events s) (hidle : s.caller = .idle)
    (hprepare : prepare settings q = .ok (tasks, segments))
    (hstart : s.queue.start s.taskId = (.ok (), queue)) :
    Inv settings (events ++ []) (s.withRequest queue (.starting tasks segments)
      (newRequest settings q s.taskId segments)) := by
  obtain ⟨hr, hc⟩ := hinv
  obtain ⟨hqueue, hmade, htaskId, hok⟩ := start_eq hstart
  obtain ⟨hstopped, htask, hlt⟩ := hok rfl
  obtain ⟨hservers, -, hpositions, -⟩ := prepare_ok hprepare
  -- Between two requests the queue is empty.
  have hempty : queue.queue = [] := hqueue.trans (hc.waited (by rw [hidle]; simp))
  have hnew : ∀ e ∈ events ++ [], e.request ≠ s.requests.length := by
    rw [List.append_nil]
    exact fun e he => (hr.known e he).ne
  refine ⟨hr.withRequest hempty hmade htaskId ?_ (Or.inl rfl), ?_⟩
  · refine ⟨nodup_positions hpositions, ?_, ?_, ?_, fun h => absurd rfl h, by simp [newRequest]⟩
    · intro a ha
      rw [List.eq_of_mem_replicate ha]
      rfl
    · intro k hk
      cases hk
      exact ⟨hlt, Nat.le_of_eq htask.symm⟩
    · exact fun _ => ⟨⟨tasks, hprepare⟩, List.length_replicate⟩
  -- All segments are still to be put into the queue.
  · have hcurrent : ∀ r, (s.withRequest queue (.starting tasks segments) r).current =
        s.requests.length := by
      intro r
      show (s.requests ++ [r]).length - 1 = _
      rw [List.length_append, List.length_singleton, Nat.add_sub_cancel]
    have hpending : ∀ r, (s.withRequest queue (.starting tasks segments) r).pending = segments := by
      intro r
      show queue.queue.map QueueElement.segment ++ segments = segments
      rw [hempty]
      rfl
    refine ⟨fun _ => ⟨newRequest settings q s.taskId segments, ?_, ?_, rfl, hstopped, ?_, ?_, ?_⟩,
      fun _ => hempty, ?_, ?_, ?_⟩
    · rw [hcurrent]
      exact List.getElem?_concat_length
    · show some s.taskId = some queue.taskId
      rw [htask]
    · rw [hpending]
      exact fun _ h => h
    · rw [hpending]
      exact fun _ h => Or.inl h
    · intro segment hevent
      rw [hcurrent] at hevent
      exact absurd rfl (hnew _ hevent)
    · intro tasks' segments' h
      cases h
      exact hservers
    · rw [hpending]
      exact List.Nodup.of_map _ (nodup_positions hpositions)
    · intro segment _ b hevent
      rw [hcurrent] at hevent
      exact absurd rfl (hnew _ hevent)

/-! ## The request that is being made -/

/-- The state with the last request changed. -/
def State.withLast (s : State) (f : Request → Request) (queue : QueueP2P) (taskId : Nat)
    (caller : Caller) : State :=
  { s with queue, taskId, caller, requests := s.requests.modify (s.requests.length - 1) f }

/-- A request is cut off, and may have ended. -/
structure Cut (f : Request → Request) : Prop where
  taskId : ∀ r, (f r).taskId = r.taskId
  segments : ∀ r, (f r).segments = r.segments
  answers : ∀ r, (f r).answers = r.answers
  query : ∀ r, (f r).query = r.query
  destroyed : ∀ r, (f r).destroyed = true
  outcome : ∀ r, r.outcome ≠ none → (f r).outcome ≠ none

theorem getElem?_modify_eq {f : Request → Request} {l : List Request} {n i : Nat} {r : Request}
    (h : (l.modify n f)[i]? = some r) :
    ∃ r₀, l[i]? = some r₀ ∧ (n = i ∧ r = f r₀ ∨ n ≠ i ∧ r = r₀) := by
  rw [List.getElem?_modify] at h
  obtain ⟨r₀, hr₀, h⟩ := Option.map_eq_some_iff.mp h
  refine ⟨r₀, hr₀, ?_⟩
  by_cases hn : n = i
  · rw [if_pos hn] at h
    exact Or.inl ⟨hn, h.symm⟩
  · rw [if_neg hn] at h
    exact Or.inr ⟨hn, h.symm⟩

theorem getElem?_modify_of {f : Request → Request} {l : List Request} {n i : Nat} {r : Request}
    (h : l[i]? = some r) : (l.modify n f)[i]? = some (if n = i then f r else r) := by
  rw [List.getElem?_modify, h]
  rfl

theorem RequestsOk.withLast {f : Request → Request} {queue : QueueP2P} {taskId : Nat}
    {caller : Caller} (hr : RequestsOk settings events s) (hf : Cut f)
    (hqueue : queue.queue = []) (hmade : queue.made = s.queue.made)
    (htaskId : queue.taskId = s.queue.taskId)
    (hmore : more = [] ∨ more = [.ended (s.requests.length - 1)] ∧ ∀ r, (f r).outcome ≠ none)
    (hlast : s.requests ≠ [])
    (houtcome : ∀ r answers, s.requests[s.requests.length - 1]? = some r →
      (f r).outcome = some (.ok answers) → answers = r.answers ∧ r.taskId ≠ none ∧
        (∀ segment ∈ r.segments, Event.left (s.requests.length - 1) segment false ∈ events) ∧
        ∀ segment, Event.left (s.requests.length - 1) segment true ∉ events) :
    RequestsOk settings (events ++ more) (s.withLast f queue taskId caller) := by
  -- Only the last request can end, and nothing leaves the queue by it.
  have hended : ∀ e ∈ more, e = .ended (s.requests.length - 1) := by
    rcases hmore with rfl | ⟨rfl, -⟩ <;> simp
  have hlength : 0 < s.requests.length := List.length_pos_iff.mpr hlast
  have hleft : ∀ {i segment b}, Event.left i segment b ∈ events ++ more →
      Event.left i segment b ∈ events := by
    intro i segment b h
    rcases List.mem_append.mp h with h | h
    · exact h
    · cases hended _ h
  have hgrows : Grows s.queue s.requests events queue
      (s.requests.modify (s.requests.length - 1) f) (events ++ more) := by
    refine ⟨?_, Nat.le_of_eq hmade.symm, ?_, fun e he => List.mem_append_left _ he⟩
    · rw [hqueue]
      intro e he
      cases he
    · intro i r hget
      refine ⟨_, getElem?_modify_of hget, ?_, ?_⟩
      · split
        · exact hf.taskId r
        · rfl
      · split
        · exact hf.segments r
        · rfl
  -- a request before and after, but for how it ended
  have hback : ∀ {i : Nat} {r : Request}, (s.requests.modify (s.requests.length - 1) f)[i]? = some r →
      ∃ r₀ : Request, s.requests[i]? = some r₀ ∧ r.taskId = r₀.taskId ∧
        r.segments = r₀.segments ∧ r.answers = r₀.answers ∧ r.query = r₀.query := by
    intro i r hget
    obtain ⟨r₀, hget₀, ⟨-, rfl⟩ | ⟨-, rfl⟩⟩ := getElem?_modify_eq hget
    · exact ⟨r₀, hget₀, hf.taskId r₀, hf.segments r₀, hf.answers r₀, hf.query r₀⟩
    · exact ⟨r, hget₀, rfl, rfl, rfl, rfl⟩
  refine ⟨⟨?_, ?_, ?_, ?_, ?_⟩, fun i => (hr.threads i).mono hgrows, ?_, ?_, ?_, ?_, ?_, ?_, ?_⟩
  · show (queue.queue.map QueueElement.id).Nodup
    rw [hqueue]
    exact List.nodup_nil
  · show ∀ e ∈ queue.queue, _
    rw [hqueue]
    simp
  · show ∀ e ∈ queue.queue, _
    rw [hqueue]
    simp
  · show ∀ e ∈ queue.queue, _
    rw [hqueue]
    simp
  -- The tasks, the segments and the answers are those before.
  · intro i j r₁ r₂ k hget₁ hget₂ hk₁ hk₂
    obtain ⟨r₁', hget₁', htask₁, -⟩ := hback hget₁
    obtain ⟨r₂', hget₂', htask₂, -⟩ := hback hget₂
    exact hr.queue.injective i j r₁' r₂' k hget₁' hget₂' (htask₁ ▸ hk₁) (htask₂ ▸ hk₂)
  -- A request that ends is destroyed, and its end is told once.
  · intro i r hget
    obtain ⟨r₀, hget₀, -, hsegs, hanswers, -⟩ := hback hget
    have hok : AnswersOk (events ++ more) i r₀ :=
      (hr.answers i r₀ hget₀).append (fun _ _ he => by cases hended _ he)
    obtain ⟨hpositions, hstored, horigin⟩ := hok
    rw [← hsegs] at hpositions hstored horigin
    rw [← hanswers] at hstored horigin
    exact ⟨hpositions, hstored, horigin⟩
  · intro i r k hget hk
    obtain ⟨r₀, hget₀, htask, -⟩ := hback hget
    show k ≤ queue.taskId
    rw [htaskId]
    exact hr.tasks i r₀ k hget₀ (htask ▸ hk)
  · intro i r hget hne
    obtain ⟨r₀, hget₀, htask, hsegs, hanswers, hquery⟩ := hback hget
    rw [hsegs, hanswers, hquery]
    exact hr.prepared i r₀ hget₀ (htask ▸ hne)
  · intro e he
    show e.request < (s.requests.modify (s.requests.length - 1) f).length
    rw [List.length_modify]
    rcases List.mem_append.mp he with he | he
    · exact hr.known e he
    · rw [hended e he]
      show s.requests.length - 1 < s.requests.length
      omega
  · intro i r hget
    obtain ⟨r₀, hget₀, ⟨rfl, rfl⟩ | ⟨hne, rfl⟩⟩ := getElem?_modify_eq hget
    · refine ⟨fun _ => hf.destroyed r₀, fun hevent => ?_⟩
      rcases List.mem_append.mp hevent with hevent | hevent
      · exact hf.outcome r₀ ((hr.ended _ r₀ hget₀).2 hevent)
      · rcases hmore with rfl | ⟨-, hne⟩
        · cases hevent
        · exact hne r₀
    · obtain ⟨hd, he⟩ := hr.ended i r hget₀
      refine ⟨hd, fun hevent => ?_⟩
      rcases List.mem_append.mp hevent with hevent | hevent
      · exact he hevent
      · cases hended _ hevent
        exact absurd rfl hne
  -- The last request returns what it holds; those before returned what they did.
  · intro i r answers hget hreturned
    obtain ⟨r₀, hget₀, ⟨rfl, rfl⟩ | ⟨hne, rfl⟩⟩ := getElem?_modify_eq hget
    · obtain ⟨hsame, htask, hall, hnot⟩ := houtcome r₀ answers hget₀ hreturned
      rw [hf.answers, hf.taskId, hf.segments]
      exact ⟨hsame, htask, fun segment hseg => List.mem_append_left _ (hall segment hseg),
        fun segment hevent => hnot segment (hleft hevent)⟩
    · obtain ⟨hsame, htask, hall, hnot⟩ := hr.returned i r answers hget₀ hreturned
      exact ⟨hsame, htask, fun segment hseg => List.mem_append_left _ (hall segment hseg),
        fun segment hevent => hnot segment (hleft hevent)⟩
  · rcases hmore with rfl | ⟨rfl, -⟩
    · rw [List.append_nil]
      exact hr.history
    · exact hr.history.snoc trivial

/-- The step of the caller that gives a thread its task. -/
theorem Inv.newTask {index : Nat} {server : Blob} {tasks : List (Nat × Blob)}
    {segments : List Segment} {th : P2PThread} (hinv : Inv settings events s)
    (hcaller : s.caller = .starting ((index, server) :: tasks) segments)
    (hok : newTask s.queue { taskNumber := s.taskId, server, request := s.requests.length - 1
                             countUniqueServers := countUniqueServer settings }
      (s.threads index) = .ok th) :
    Inv settings (events ++ []) { s with
      caller := .starting tasks segments
      threads := Function.update s.threads index th } := by
  rw [List.append_nil]
  obtain ⟨hr, hc⟩ := hinv
  obtain ⟨r, hm⟩ := hc.making (by rw [hcaller]; simp)
  have hempty := hc.waited (by rw [hcaller]; simp)
  have hservers := hc.servers _ _ hcaller
  obtain ⟨hstarted, hok⟩ := check_bind_eq_ok.mp hok
  obtain ⟨-, hok⟩ := check_bind_eq_ok.mp hok
  cases hok
  -- The queue was started for the task that is handed out.
  have htaskId : s.taskId = s.queue.taskId := by
    have hstarted := eq_of_beq hstarted
    rw [QueueP2P.started, hm.isStopped] at hstarted
    exact (Option.some.inj hstarted).symm
  have hpending : s.pending = segments := by
    rw [State.pending, hempty, hcaller]
    rfl
  refine ⟨⟨hr.queue, fun i => ?_, hr.answers, hr.tasks, hr.prepared, hr.known, hr.ended,
    hr.returned, hr.history⟩, fun _ => ⟨r, hm.get, hm.taskId, hm.outcome, hm.isStopped, ?_, ?_, ?_⟩,
    fun _ => hempty, ?_, ?_, ?_⟩
  -- Only this thread is told anything, and it is told of the last request.
  · show ThreadOk settings s.queue s.requests events (Function.update s.threads index _ i)
    by_cases hi : i = index
    · subst hi
      rw [Function.update_self]
      obtain ⟨htask, hplace⟩ := hr.threads i
      refine ⟨?_, ?_⟩
      · rintro t ht
        obtain rfl := Option.some.inj ht
        exact ⟨⟨r, hm.get, by rw [hm.taskId, htaskId]⟩, hservers (i, server) List.mem_cons_self, rfl⟩
      · show PlaceOk settings s.queue s.requests events _
        dsimp only
        split
        · trivial
        · exact hplace
    · rw [Function.update_of_ne hi]
      exact hr.threads i
  -- Nothing of the queue has changed, so what is pending is the same.
  · have h := hm.pending
    rw [hpending] at h
    show ∀ segment ∈ s.queue.queue.map QueueElement.segment ++ segments, _
    rw [hempty]
    exact h
  · have h := hm.covered
    rw [hpending] at h
    show ∀ segment ∈ r.segments, segment ∈ s.queue.queue.map QueueElement.segment ++ segments ∨ _
    rw [hempty]
    exact h
  · have h := hm.failing
    rw [State.failing, hcaller] at h
    exact h
  · intro tasks' segments' h x hx
    cases h
    exact hservers x (List.mem_cons_of_mem _ hx)
  · have h := hc.nodup
    rw [hpending] at h
    show (s.queue.queue.map QueueElement.segment ++ segments).Nodup
    rw [hempty]
    exact h
  · have h := hc.left
    rw [hpending] at h
    show ∀ segment ∈ s.queue.queue.map QueueElement.segment ++ segments, _
    rw [hempty]
    exact h

/-- The step of the caller that puts a segment into the queue. -/
theorem Inv.addElement {segment : Segment} {segments : List Segment} {queue : QueueP2P}
    (hinv : Inv settings events s) (hcaller : s.caller = .starting [] (segment :: segments))
    (hok : s.queue.addElement segment = (.ok (), queue)) :
    Inv settings (events ++ []) { s with queue, caller := .starting [] segments } := by
  rw [List.append_nil]
  obtain ⟨hr, hc⟩ := hinv
  obtain ⟨r, hm⟩ := hc.making (by rw [hcaller]; simp)
  have hqueue : queue = { s.queue with
      queue := s.queue.queue ++ [⟨s.queue.made, segment, ∅, ∅⟩], made := s.queue.made + 1 } := by
    unfold QueueP2P.addElement at hok
    split at hok <;> cases hok
    rfl
  subst hqueue
  -- What is pending stays the same: the segment goes from the caller to the queue.
  have hpending : s.pending =
      (s.queue.queue ++ [(⟨s.queue.made, segment, ∅, ∅⟩ : QueueElement)]).map
        QueueElement.segment ++ segments := by
    rw [State.pending, hcaller, List.map_append, List.append_assoc]
    rfl
  -- The element is new, so no thread holds it.
  have hgrows : Grows s.queue s.requests events
      { s.queue with
        queue := s.queue.queue ++ [⟨s.queue.made, segment, ∅, ∅⟩], made := s.queue.made + 1 }
      s.requests events := by
    refine ⟨?_, Nat.le_succ _, fun i r hget => ⟨r, hget, rfl, rfl⟩, fun _ he => he⟩
    intro e he hlt
    rcases List.mem_append.mp he with he | he
    · exact ⟨rfl, e, he, none, QueueP2P.Older.refl none e⟩
    · rw [List.mem_singleton.mp he] at hlt
      exact absurd hlt (Nat.lt_irrefl _)
  have hsegment : segment ∈ r.segments := hm.pending segment (by
    rw [hpending]
    simp)
  refine ⟨⟨⟨?_, ?_, ?_, ?_, hr.queue.injective⟩, fun i => (hr.threads i).mono hgrows, hr.answers,
    hr.tasks, hr.prepared, hr.known, hr.ended, hr.returned, hr.history⟩,
    fun _ => ⟨r, hm.get, hm.taskId, hm.outcome, hm.isStopped, ?_, ?_, ?_⟩,
    fun hne => absurd rfl (hne segments), ?_, ?_, ?_⟩
  -- The number of the element is the next one, so it is different from the others.
  · show ((s.queue.queue ++ [_]).map QueueElement.id).Nodup
    rw [List.map_append]
    refine List.nodup_append.mpr ⟨hr.queue.nodup, List.nodup_singleton _, ?_⟩
    rintro a ha b hb rfl
    obtain ⟨e, he, rfl⟩ := List.mem_map.mp ha
    exact absurd (List.mem_singleton.mp hb) (hr.queue.made e he).ne
  · intro e he
    rcases List.mem_append.mp he with he | he
    · exact Nat.lt_succ_of_lt (hr.queue.made e he)
    · rw [List.mem_singleton.mp he]
      exact Nat.lt_succ_self _
  · intro e he
    rcases List.mem_append.mp he with he | he
    · exact hr.queue.current e he
    · rw [List.mem_singleton.mp he]
      exact ⟨r, hm.get, hm.taskId, hsegment⟩
  · intro e he server hserver
    rcases List.mem_append.mp he with he | he
    · exact hr.queue.errorServers e he server hserver
    · rw [List.mem_singleton.mp he] at hserver
      cases hserver
  · exact fun x hx => hm.pending x (hpending ▸ hx)
  · intro x hx
    rcases hm.covered x hx with h | h
    · rw [hpending] at h
      exact Or.inl h
    · exact Or.inr h
  · have h := hm.failing
    rw [State.failing, hcaller] at h
    exact h
  · intro tasks segments' h x hx
    cases h
    cases hx
  · have h := hc.nodup
    rw [hpending] at h
    exact h
  · exact fun x hx => hc.left x (hpending ▸ hx)

/-- The caller goes on, with nothing pending. -/
theorem Inv.proceed {caller : Caller} (hinv : Inv settings events s) (hne : s.caller ≠ .idle)
    (hempty : s.pending = []) (hrest : caller.rest = [])
    (hstarting : ∀ tasks segments, caller ≠ .starting tasks segments)
    (hfailing : s.failing = true → State.failing { s with caller } = true) :
    Inv settings (events ++ []) { s with caller } := by
  rw [List.append_nil]
  obtain ⟨hr, hc⟩ := hinv
  obtain ⟨r, hm⟩ := hc.making hne
  obtain ⟨hqueue, -⟩ := List.append_eq_nil_iff.mp hempty
  have hpending : State.pending { s with caller } = [] := by
    show s.queue.queue.map QueueElement.segment ++ caller.rest = []
    rw [hqueue, hrest]
    rfl
  refine ⟨⟨hr.queue, hr.threads, hr.answers, hr.tasks, hr.prepared, hr.known, hr.ended,
    hr.returned, hr.history⟩, fun _ => ⟨r, hm.get, hm.taskId, hm.outcome, hm.isStopped, ?_, ?_, ?_⟩,
    fun _ => List.map_eq_nil_iff.mp hqueue, ?_, ?_, ?_⟩
  · rw [hpending]
    simp
  · intro segment hsegment
    have h := hm.covered segment hsegment
    rw [hempty] at h
    rw [hpending]
    exact h
  · exact fun segment hevent => hfailing (hm.failing segment hevent)
  · exact fun tasks segments h => absurd h (hstarting tasks segments)
  · rw [hpending]
    exact List.nodup_nil
  · rw [hpending]
    simp

/-- The step of the caller that cuts the references. -/
theorem cut_destroy : Cut (fun r => { r with destroyed := true }) where
  taskId := fun _ => rfl
  segments := fun _ => rfl
  answers := fun _ => rfl
  query := fun _ => rfl
  destroyed := fun _ => rfl
  outcome := fun _ h => h

theorem cut_end (outcome : Except Err (List Blob)) :
    Cut (fun r => { r with destroyed := true, outcome := some outcome }) where
  taskId := fun _ => rfl
  segments := fun _ => rfl
  answers := fun _ => rfl
  query := fun _ => rfl
  destroyed := fun _ => rfl
  outcome := fun _ _ h => by cases h

theorem Inv.destroy {isError : Bool} (hinv : Inv settings events s)
    (hcaller : s.caller = .destroying isError) :
    Inv settings (events ++ [])
      (s.withLast (fun r => { r with destroyed := true }) s.queue s.taskId (.stopping isError)) := by
  obtain ⟨hr, hc⟩ := hinv
  obtain ⟨r, hm⟩ := hc.making (by rw [hcaller]; simp)
  have hempty := hc.waited (by rw [hcaller]; simp)
  -- Nothing is pending any more, so that all segments have left.
  have hpending : s.pending = [] := by
    rw [State.pending, hempty, hcaller]
    rfl
  have hlt := (List.getElem?_eq_some_iff.mp hm.get).1
  have hcurrent : ∀ f caller, (s.withLast f s.queue s.taskId caller).current = s.current := by
    intro f caller
    show (s.requests.modify _ f).length - 1 = _
    rw [List.length_modify]
    rfl
  have hpending' : ∀ f, (s.withLast f s.queue s.taskId (.stopping isError)).pending = [] := by
    intro f
    show s.queue.queue.map QueueElement.segment ++ [] = []
    rw [hempty]
    rfl
  -- The threads keep what they know of the request; it takes no more answers.
  refine ⟨hr.withLast cut_destroy hempty rfl rfl (Or.inl rfl) ?_ ?_, ?_⟩
  · exact List.ne_nil_of_length_pos (Nat.lt_of_le_of_lt (Nat.zero_le _) hlt)
  · intro r₀ answers hget hout
    obtain rfl := Option.some.inj (hget.symm.trans hm.get)
    rw [hm.outcome] at hout
    cases hout
  · refine ⟨fun _ => ⟨{ r with destroyed := true }, ?_, hm.taskId, hm.outcome, hm.isStopped, ?_, ?_,
      ?_⟩, fun _ => hempty, ?_, ?_, ?_⟩
    · rw [hcurrent]
      have h := getElem?_modify_of (f := fun r => { r with destroyed := true })
        (n := s.requests.length - 1) hm.get
      rw [if_pos (show s.requests.length - 1 = s.current from rfl)] at h
      exact h
    · rw [hpending']
      simp
    · intro segment hsegment
      have h := hm.covered segment hsegment
      rw [hpending] at h
      rw [hpending', hcurrent, List.append_nil]
      exact h
    · intro segment hevent
      rw [hcurrent, List.append_nil] at hevent
      have h := hm.failing segment hevent
      rw [State.failing, hcaller] at h
      exact h
    · intro tasks segments h
      cases h
    · rw [hpending']
      exact List.nodup_nil
    · rw [hpending']
      simp

/-- The request ends, and the caller has nothing to do. -/
theorem Inv.end {queue : QueueP2P} {taskId : Nat} {outcome : Except Err (List Blob)}
    (hinv : Inv settings events s) (hne : s.caller ≠ .idle) (hempty : s.queue.queue = [])
    (hqueue : queue.queue = s.queue.queue) (hmade : queue.made = s.queue.made)
    (htaskId : queue.taskId = s.queue.taskId)
    (houtcome : ∀ r answers, s.requests[s.current]? = some r → outcome = .ok answers →
      answers = r.answers ∧ r.taskId ≠ none ∧
        (∀ segment ∈ r.segments, Event.left s.current segment false ∈ events) ∧
        ∀ segment, Event.left s.current segment true ∉ events) :
    Inv settings (events ++ [.ended (s.requests.length - 1)])
      (s.withLast (fun r => { r with destroyed := true, outcome := some outcome }) queue taskId
        .idle) := by
  obtain ⟨r, hm⟩ := hinv.caller.making hne
  have hlt := (List.getElem?_eq_some_iff.mp hm.get).1
  have hnil : queue.queue = [] := hqueue.trans hempty
  refine ⟨hinv.requests.withLast (cut_end outcome) hnil hmade htaskId
    (Or.inr ⟨rfl, fun _ h => by cases h⟩) ?_ ?_, CallerOk.of_idle rfl hnil⟩
  · exact List.ne_nil_of_length_pos (Nat.lt_of_le_of_lt (Nat.zero_le _) hlt)
  · intro r₀ answers hget hout
    exact houtcome r₀ answers hget (Option.some.inj hout)

/-! ## Runs -/

/-- When the caller has waited, every segment has an answer unless the request throws. -/
theorem Making.all_left {r : Request} (hm : Making events s r) (hpending : s.pending = [])
    (hfailing : s.failing = false) :
    (∀ segment ∈ r.segments, Event.left s.current segment false ∈ events) ∧
      ∀ segment, Event.left s.current segment true ∉ events := by
  have hnot : ∀ segment, Event.left s.current segment true ∉ events := by
    intro segment hevent
    rw [hm.failing segment hevent] at hfailing
    cases hfailing
  refine ⟨?_, hnot⟩
  intro segment hsegment
  rcases hm.covered segment hsegment with h | ⟨b, hb⟩
  · rw [hpending] at h
    cases h
  · cases b with
    | false => exact hb
    | true => exact absurd hb (hnot segment)

/-- **Every step keeps the invariant.** -/
theorem Inv.step {s' : State} (hinv : Inv settings events s) (h : Step settings s more s') :
    Inv settings (events ++ more) s' := by
  obtain ⟨hr, hc⟩ := hinv
  -- One case for each step of the caller, and one for all steps of the threads.
  have hlast : ∀ isError, s.caller = .stopping isError → s.pending = [] := by
    intro isError hcaller
    rw [State.pending, hc.waited (by rw [hcaller]; simp), hcaller]
    rfl
  cases h with
  | @refused q e hidle hprepare =>
    have hempty := hc.waited (by rw [hidle]; simp)
    exact ⟨hr.withRequest hempty rfl (Nat.le_refl _) (freshRequest_refused List.nodup_nil)
      (Or.inr ⟨rfl, by simp [refusedRequest]⟩), CallerOk.of_idle hidle hempty⟩
  | @notStarted q e tasks segments queue hidle hprepare hstart =>
    obtain ⟨hqueue, hmade, htaskId, -⟩ := start_eq hstart
    have hempty := hqueue.trans (hc.waited (by rw [hidle]; simp))
    obtain ⟨-, -, hpositions, -⟩ := prepare_ok hprepare
    exact ⟨hr.withRequest hempty hmade htaskId
      (freshRequest_refused (nodup_positions hpositions))
      (Or.inr ⟨rfl, by simp [refusedRequest]⟩), CallerOk.of_idle hidle hempty⟩
  | start hidle hprepare hstart => exact Inv.start ⟨hr, hc⟩ hidle hprepare hstart
  | newTask hcaller _ hok => exact Inv.newTask ⟨hr, hc⟩ hcaller hok
  | @taskThrows index server tasks segments e hcaller _ =>
    exact Inv.end ⟨hr, hc⟩ (by rw [hcaller]; simp) (hc.waited (by rw [hcaller]; simp)) rfl rfl rfl
      (fun _ _ _ h => by cases h)
  | addElement hcaller hok => exact Inv.addElement ⟨hr, hc⟩ hcaller hok
  | addThrows hcaller hok =>
    -- the queue is not stopped while a request is made
    obtain ⟨r, hm⟩ := hc.making (by rw [hcaller]; simp)
    rw [QueueP2P.addElement, hm.isStopped] at hok
    cases hok
  -- The queue is not stopped, so it is empty that the caller has waited for.
  | waitEmpty hcaller hwaited =>
    obtain ⟨r, hm⟩ := hc.making (by rw [hcaller]; simp)
    rw [QueueP2P.waitedEmpty, hm.isStopped, Bool.false_or, List.isEmpty_iff] at hwaited
    refine Inv.proceed ⟨hr, hc⟩ (by rw [hcaller]; simp) ?_ rfl (by simp) ?_
    · rw [State.pending, hwaited, hcaller]
      rfl
    · intro h
      rw [State.failing, hcaller] at h
      exact h
  -- The flag that the caller takes away is the one that the queue has.
  | @error isError hcaller herror =>
    obtain ⟨-, herror⟩ := check_bind_eq_ok.mp herror
    cases herror
    refine Inv.proceed ⟨hr, hc⟩ (by rw [hcaller]; simp) ?_ rfl (by simp) ?_
    · rw [State.pending, hc.waited (by rw [hcaller]; simp), hcaller]
      rfl
    · intro h
      rw [State.failing, hcaller] at h
      exact h
  | errorThrows hcaller herror =>
    obtain ⟨r, hm⟩ := hc.making (by rw [hcaller]; simp)
    rw [QueueP2P.error, hm.isStopped] at herror
    cases herror
  | destroy hcaller => exact Inv.destroy ⟨hr, hc⟩ hcaller
  -- Without the flag every segment has left with an answer.
  | @stop isError r hcaller hget =>
    obtain ⟨r', hm⟩ := hc.making (by rw [hcaller]; simp)
    refine Inv.end ⟨hr, hc⟩ (by rw [hcaller]; simp) (hc.waited (by rw [hcaller]; simp)) rfl rfl rfl
      ?_
    intro r₀ answers hget₀ hout
    obtain rfl : r₀ = r := Option.some.inj (hget₀.symm.trans hget)
    obtain rfl : r₀ = r' := Option.some.inj (hget₀.symm.trans hm.get)
    cases isError with
    | true => cases hout
    | false =>
      obtain rfl := Except.ok.inj hout
      obtain ⟨hall, hnot⟩ := hm.all_left (hlast false hcaller) (by rw [State.failing, hcaller])
      exact ⟨rfl, by rw [hm.taskId]; simp, hall, hnot⟩
  | thread hstep => exact Inv.thread ⟨hr, hc⟩ hstep

theorem Run.inv (h : Run settings events s) : Inv settings events s := by
  induction h with
  | new => exact inv_new
  | step _ hstep ih => exact ih.step hstep

/-- What a request returns: the slices of the dump, one after the other. -/
theorem RequestsOk.answers_eq {i : Nat} {r : Request} {answers : List Blob} {D : Blob}
    (hr : RequestsOk settings events s) (hget : s.requests[i]? = some r)
    (hreturned : r.outcome = some (.ok answers))
    (haccepted : ∀ asked segment answer stored,
      Event.accepted asked i segment answer stored ∈ events → answer.val = segment.slice D) :
    answers.map Subtype.val = r.segments.map (fun segment => segment.slice D) := by
  obtain ⟨rfl, htask, hleft, -⟩ := hr.returned i r answers hget hreturned
  obtain ⟨⟨tasks, hprepare⟩, hlength⟩ := hr.prepared i r hget htask
  obtain ⟨-, -, hpositions, hcount⟩ := prepare_ok hprepare
  -- each segment has an answer at its place
  have hanswer : ∀ segment ∈ r.segments, ∃ a, r.answers[segment.posInArray]? = some a ∧
      a.val = segment.slice D := by
    intro segment hsegment
    obtain ⟨before, after, heq⟩ := List.append_of_mem (hleft segment hsegment)
    obtain ⟨-, hstored, -⟩ := hr.history before _ after heq
    obtain ⟨answer, hevent⟩ := hstored rfl
    have hmem : Event.accepted i i segment answer true ∈ events := by
      rw [heq]
      exact List.mem_append_left _ hevent
    obtain ⟨a, hevent', ha⟩ := (hr.answers i r hget).stored segment hsegment answer hmem
    exact ⟨a, ha, haccepted _ _ _ _ hevent'⟩
  refine List.ext_getElem? (fun p => ?_)
  rw [List.getElem?_map, List.getElem?_map]
  -- The segments are numbered by their places, so the answers stand in the same order.
  cases hp : r.segments[p]? with
  | none =>
    have hle := List.getElem?_eq_none_iff.mp hp
    rw [List.getElem?_eq_none (by omega)]
    rfl
  | some segment =>
    have hpos : segment.posInArray = p := by
      have h := congrArg (fun l => l[p]?) hpositions
      rw [List.getElem?_map, hp] at h
      have hlt := (List.getElem?_eq_some_iff.mp hp).1
      rw [List.getElem?_range hlt] at h
      exact Option.some.inj h
    obtain ⟨a, ha, hval⟩ := hanswer segment (List.mem_of_getElem? hp)
    rw [hpos] at ha
    rw [ha]
    exact congrArg some hval

/-- **What is downloaded is the dump.** In every run of the caller and the threads: a request that
returns, all of whose accepted answers are the bytes that were asked for, returns the whole dump; a
segment leaves the queue once, with an answer that is stored or after all servers have failed on
it, and in that case the request does not return; and an answer is taken only by the request that
was asked for it, before that has ended. -/
theorem download_reassembles (h : Run settings events s) :
    (∀ i r answers D, s.requests[i]? = some r → r.outcome = some (.ok answers) →
      D.size = r.query.responseSize →
      (∀ asked segment answer stored,
        Event.accepted asked i segment answer stored ∈ events → answer.val = segment.slice D) →
      joinAnswers r.query answers = .ok D) ∧
    (∀ before i segment isError after, events = before ++ .left i segment isError :: after →
      (∀ b, Event.left i segment b ∉ before ++ after) ∧
      ((∃ answer, Event.accepted i i segment answer true ∈ before) ∨
        (∀ server ∈ settings.servers, Event.failed i segment server ∈ before) ∧
          ∀ r answers, s.requests[i]? = some r → r.outcome ≠ some (.ok answers))) ∧
    (∀ before asked i segment answer stored after,
      events = before ++ .accepted asked i segment answer stored :: after →
      asked = i ∧ Event.ended i ∉ before) := by
  obtain ⟨hr, -⟩ := h.inv
  refine ⟨?_, ?_, ?_⟩
  -- The slices of the segments follow one another, so together they are the whole.
  · intro i r answers D hget hreturned hsize haccepted
    have hanswers := hr.answers_eq hget hreturned haccepted
    obtain ⟨rfl, htask, -⟩ := hr.returned i r answers hget hreturned
    obtain ⟨⟨tasks, hprepare⟩, -⟩ := hr.prepared i r hget htask
    obtain ⟨-, hcontiguous, -⟩ := prepare_ok hprepare
    have hslices : r.segments.flatMap (fun s => s.slice D) ++ D.val.drop r.query.responseSize =
        D.val.drop 0 := flatMap_slice hcontiguous
    rw [← hsize, List.drop_zero, show D.val.drop D.size = [] from List.drop_length,
      List.append_nil] at hslices
    have hbytes : r.answers.flatMap Subtype.val = D.val := by
      rw [List.flatMap_def, hanswers, ← List.flatMap_def, hslices]
    unfold joinAnswers
    rw [hbytes, Blob.ofBytes_val]
    refine bind_eq_ok.mpr ⟨D, rfl, check_bind_eq_ok.mpr ⟨?_, rfl⟩⟩
    rw [hsize]
    simp
  -- A segment leaves once, with an answer or after all servers have failed.
  · intro before i segment isError after heq
    obtain ⟨hnot, hstored, hfailed⟩ := hr.history before _ after heq
    refine ⟨?_, ?_⟩
    · intro b hb
      rcases List.mem_append.mp hb with hb | hb
      · exact hnot b hb
      · obtain ⟨before', after', rfl⟩ := List.append_of_mem hb
        have hlater := hr.history (before ++ .left i segment isError :: before')
          (.left i segment b) after' (by rw [heq]; simp)
        exact hlater.1 isError (List.mem_append_right _ List.mem_cons_self)
    · cases isError with
      | false => exact Or.inl (hstored rfl)
      | true =>
        refine Or.inr ⟨hfailed rfl, fun r answers hget hreturned => ?_⟩
        exact (hr.returned i r answers hget hreturned).2.2.2 segment (by rw [heq]; simp)
  · intro before asked i segment answer stored after heq
    exact hr.history before _ after heq

/-! ## One server fails on a segment that the other answers -/

/-- Two servers, and a connection to each. -/
def twoServers : Settings where
  servers := [Blob.replicate 1 1 Blob.byte_fits, Blob.replicate 1 2 Blob.byte_fits]
  countConnections := 1

/-- One byte more than a segment holds. -/
def twoSegments : Query where
  responseSize := MIN_RESPONSE_SIZE + 1
  minResponseSize := MIN_RESPONSE_SIZE
  isPrecisionSize := true
  responseParse := fun response _ _ => .ok response

/-- The bytes of the first segment. -/
def firstPart : Blob := Blob.replicate MIN_RESPONSE_SIZE 7 (by decide)

/-- The byte of the last segment. -/
def lastPart : Blob := Blob.replicate 1 8 Blob.byte_fits

/-- Both, one behind the other. -/
def twoSegmentsDump : Blob := ⟨firstPart.val ++ lastPart.val, by
  rw [List.length_append, firstPart, lastPart, Blob.replicate, Blob.replicate,
    List.length_replicate, List.length_replicate]
  decide⟩

theorem firstPart_size : firstPart.size = MIN_RESPONSE_SIZE := List.length_replicate

theorem lastPart_size : lastPart.size = 1 := List.length_replicate

/-- An answer of the size that was asked for is stored where nothing was stored before. -/
theorem processResponse_stored {r : Request} {response : Blob} {segment : Segment}
    (hparse : r.query.responseParse response segment.fromByte segment.toByte = .ok response)
    (hsize : response.size = segment.toByte - segment.fromByte)
    (hfree : r.answers[segment.posInArray]? = some ∅) :
    processResponse r response segment =
      .ok (response, true, { r with answers := r.answers.set segment.posInArray response }) := by
  unfold processResponse
  rw [hparse]
  show (if _ ∧ response.size ≠ segment.toByte - segment.fromByte then _ else _) = _
  rw [if_neg (fun h => h.2 hsize), hfree]
  rfl

/-- The run in which the first server fails on the last segment, and the second answers both. -/
theorem run_twoSegments : ∃ events s, Run twoServers events s ∧
    (∃ r, s.requests[0]? = some r ∧ r.query = twoSegments ∧
      r.outcome = some (.ok [firstPart, lastPart])) ∧
    events = [.failed 0 ⟨10000, 10001, 1⟩ (Blob.replicate 1 1 Blob.byte_fits),
      .accepted 0 0 ⟨0, 10000, 0⟩ firstPart true, .left 0 ⟨0, 10000, 0⟩ false,
      .accepted 0 0 ⟨10000, 10001, 1⟩ lastPart true, .left 0 ⟨10000, 10001, 1⟩ false,
      .ended 0] := by
  have h₁ := Run.step (Run.new : Run twoServers [] State.new)
    (Step.start (q := twoSegments) rfl rfl rfl)
  have h₂ := Run.step h₁ (Step.newTask rfl (by decide) rfl)
  have h₃ := Run.step h₂ (Step.newTask rfl (by decide) rfl)
  have h₄ := Run.step h₃ (Step.addElement rfl rfl)
  have h₅ := Run.step h₄ (Step.addElement rfl rfl)
  -- the first server is given the last segment and fails on it
  have h₆ := Run.step h₅ (Step.thread (i := 0) (ThreadStep.read rfl rfl))
  have h₇ := Run.step h₆ (Step.thread (i := 0) (ThreadStep.take rfl rfl))
  have h₈ := Run.step h₇ (Step.thread (i := 0) (ThreadStep.segment rfl rfl))
  have h₉ := Run.step h₈ (Step.thread (i := 0) (ThreadStep.ask rfl rfl rfl))
  have h₁₀ := Run.step h₉ (Step.thread (i := 0) (ThreadStep.noAnswer rfl))
  have h₁₁ := Run.step h₁₀ (Step.thread (i := 0) (ThreadStep.error rfl))
  -- the second answers the first segment
  have h₁₂ := Run.step h₁₁ (Step.thread (i := 1) (ThreadStep.read rfl rfl))
  have h₁₃ := Run.step h₁₂ (Step.thread (i := 1) (ThreadStep.take rfl rfl))
  have h₁₄ := Run.step h₁₃ (Step.thread (i := 1) (ThreadStep.segment rfl rfl))
  have h₁₅ := Run.step h₁₄ (Step.thread (i := 1) (ThreadStep.ask rfl rfl rfl))
  have h₁₆ := Run.step h₁₅ (Step.thread (i := 1) (ThreadStep.answer firstPart rfl))
  have h₁₇ := Run.step h₁₆ (Step.thread (i := 1) (ThreadStep.process rfl rfl rfl
    (processResponse_stored rfl firstPart_size rfl)))
  have h₁₈ := Run.step h₁₇ (Step.thread (i := 1) (ThreadStep.remove rfl))
  -- and then the one that the first failed on
  have h₁₉ := Run.step h₁₈ (Step.thread (i := 1) (ThreadStep.read rfl rfl))
  have h₂₀ := Run.step h₁₉ (Step.thread (i := 1) (ThreadStep.take rfl rfl))
  have h₂₁ := Run.step h₂₀ (Step.thread (i := 1) (ThreadStep.segment rfl rfl))
  have h₂₂ := Run.step h₂₁ (Step.thread (i := 1) (ThreadStep.ask rfl rfl rfl))
  have h₂₃ := Run.step h₂₂ (Step.thread (i := 1) (ThreadStep.answer lastPart rfl))
  have h₂₄ := Run.step h₂₃ (Step.thread (i := 1) (ThreadStep.process rfl rfl rfl
    (processResponse_stored rfl lastPart_size rfl)))
  have h₂₅ := Run.step h₂₄ (Step.thread (i := 1) (ThreadStep.remove rfl))
  have h₂₆ := Run.step h₂₅ (Step.waitEmpty rfl rfl)
  have h₂₇ := Run.step h₂₆ (Step.error rfl rfl)
  have h₂₈ := Run.step h₂₇ (Step.destroy rfl)
  have h₂₉ := Run.step h₂₈ (Step.stop rfl rfl)
  exact ⟨_, _, h₂₉, ⟨_, rfl, rfl, rfl⟩, rfl⟩

/-- The answers are the bytes of the two segments. -/
theorem twoSegments_slices :
    (⟨0, 10000, 0⟩ : Segment).slice twoSegmentsDump = firstPart.val ∧
      (⟨10000, 10001, 1⟩ : Segment).slice twoSegmentsDump = lastPart.val := by
  constructor
  · exact List.take_left' firstPart_size
  · show ((firstPart.val ++ lastPart.val).drop MIN_RESPONSE_SIZE).take 1 = lastPart.val
    rw [List.drop_left' firstPart_size]
    rfl

theorem download_reassembles_two :
    joinAnswers twoSegments [firstPart, lastPart] = .ok twoSegmentsDump := by
  obtain ⟨events, s, hrun, ⟨r, hget, hquery, hreturned⟩, hevents⟩ := run_twoSegments
  rw [← hquery]
  refine (download_reassembles hrun).1 0 r [firstPart, lastPart] twoSegmentsDump hget hreturned
    ?_ ?_
  · rw [hquery]
    exact (List.length_append).trans (congrArg₂ (· + ·) firstPart_size lastPart_size)
  · intro asked segment answer stored hevent
    rw [hevents] at hevent
    simp only [List.mem_cons, reduceCtorEq, Event.accepted.injEq, List.not_mem_nil, or_false,
      false_or] at hevent
    rcases hevent with ⟨-, -, rfl, rfl, -⟩ | ⟨-, -, rfl, rfl, -⟩
    · exact twoSegments_slices.1.symm
    · exact twoSegments_slices.2.symm

end P2P_Ips

end TorrentNode
