import CexHertz.Service.PipelineCalls

/-!
# Processing an event again

Sequences of pipeline calls over the in-memory log. The check for events processed before stands
behind the append: a repeated call reaches no processor, and is in the log once more.
-/

namespace CexHertz

open List

inductive PipelineRequest (n : Nat) where
  | processEvent (event : MatchingEngineEvent) (input : CallInput n)
  | processEventWithContext (eventCtx : EventContext) (input : CallInput n)

namespace PipelineRequest

variable {n : Nat}

def event : PipelineRequest n → MatchingEngineEvent
  | .processEvent event _ => event
  | .processEventWithContext eventCtx _ => eventCtx.event

def eventCtx : PipelineRequest n → Option EventContext
  | .processEvent _ _ => none
  | .processEventWithContext eventCtx _ => some eventCtx

def input : PipelineRequest n → CallInput n
  | .processEvent _ input => input
  | .processEventWithContext _ input => input

def appends : PipelineRequest n → Bool
  | .processEvent _ _ => true
  | .processEventWithContext eventCtx _ => eventCtx.isValid

def logged (r : PipelineRequest n) : List MatchingEngineEvent :=
  if r.appends then [r.event] else []

variable (r : PipelineRequest n)

theorem logged_of_not_appends (h : r.appends = false) : r.logged = [] := by
  unfold logged
  rw [h]
  rfl

theorem mem_logged (h : r.appends = true) : r.event ∈ r.logged := by
  unfold logged
  rw [if_pos h]
  exact mem_cons_self

theorem eq_of_mem_logged {x : MatchingEngineEvent} (h : x ∈ r.logged) : x = r.event := by
  unfold logged at h
  split at h
  · exact List.mem_singleton.mp h
  · cases h

end PipelineRequest

namespace PipelineMemory

def serve (names : List String) (s : PipelineMemory) :
    PipelineRequest names.length → Option (Option String × PipelineMemory)
  | .processEvent event input => s.processEvent names input event
  | .processEventWithContext eventCtx input => s.processEventWithContext names input eventCtx

def serveAll (names : List String) (s : PipelineMemory)
    (requests : List (PipelineRequest names.length)) : Option PipelineMemory :=
  requests.foldlM (fun s r => (s.serve names r).map Prod.snd) s

def withLog (s : PipelineMemory) (log : List MatchingEngineEvent) : PipelineMemory :=
  { s with log := log }

/-! ## The dispatch does not look at the log -/

section

variable {names : List String} {n : Nat} {input : CallInput n} {event : MatchingEngineEvent}
  {eventCtx : Option EventContext} {s : PipelineMemory} {log : List MatchingEngineEvent}

theorem succeed_withLog (i : Nat) : (s.withLog log).succeed names input event eventCtx i =
      (s.succeed names input event eventCtx i).map fun s' => s'.withLog log := by
  unfold succeed writeKafkaOffset recordCheckpoint withLog
  cases eventCtx with
  | none => cases s.checkpointMgr <;> rfl
  | some eventCtx =>
    by_cases hoffset : 0 ≤ eventCtx.offset
    · simp only [if_pos hoffset]
      cases s.checkpointMgr <;> rfl
    · simp only [if_neg hoffset]
      cases s.checkpointMgr <;> rfl

theorem runProcessor_withLog (errs : List String) (i : Nat) :
    runProcessor names input event eventCtx (errs, s.withLog log) i =
      (runProcessor names input event eventCtx (errs, s) i).map fun r =>
        (r.1, r.2.withLog log) := by
  by_cases hskip : event.eventSeq ≤ s.lastSeq names event i
  · rw [runProcessor_of_skipped hskip, runProcessor_of_skipped (s := s.withLog log) hskip]
    rfl
  · have hlt := not_le.mp hskip
    cases hanswer : input.answer i with
    | some err =>
      rw [runProcessor_of_failed hlt hanswer,
        runProcessor_of_failed (s := s.withLog log) hlt hanswer]
      rfl
    | none =>
      rw [runProcessor_of_succeeded hlt hanswer,
        runProcessor_of_succeeded (s := s.withLog log) hlt hanswer, succeed_withLog,
        Option.map_map, Option.map_map]
      rfl

theorem dispatch_withLog (order : List Nat) (errs : List String) :
    order.foldlM (runProcessor names input event eventCtx) (errs, s.withLog log) =
      (order.foldlM (runProcessor names input event eventCtx) (errs, s)).map fun r =>
        (r.1, r.2.withLog log) := by
  induction order generalizing errs s with
  | nil => rfl
  | cons i rest ih =>
    rw [foldlM_cons, foldlM_cons, runProcessor_withLog]
    cases h : runProcessor names input event eventCtx (errs, s) i with
    | none => rfl
    | some r => exact ih r.1

theorem dispatchToProcessorsInternal_withLog :
    (s.withLog log).dispatchToProcessorsInternal names input event eventCtx =
      (s.dispatchToProcessorsInternal names input event eventCtx).map fun r =>
        (r.1, r.2.withLog log) := by
  unfold dispatchToProcessorsInternal
  rw [dispatch_withLog, Option.map_map, Option.map_map]
  rfl

end

/-! ## One call -/

section

variable {names : List String} {s s' : PipelineMemory} {r : PipelineRequest names.length}
  {err : Option String}

def dispatchOf (s : PipelineMemory) (r : PipelineRequest names.length) :
    Option (Option String × PipelineMemory) :=
  if r.appends then s.dispatchToProcessorsInternal names r.input r.event r.eventCtx
  else some (some "event context is invalid", s)

theorem serve_eq (happend : r.input.appendErr = none) :
    s.serve names r = (s.dispatchOf r).map fun q => (q.1, q.2.withLog (s.log ++ r.logged)) := by
  cases r with
  | processEvent event input =>
    change input.appendErr = none at happend
    show s.processEvent names input event = _
    unfold processEvent appendAndDispatch
    rw [happend]
    exact dispatchToProcessorsInternal_withLog
  | processEventWithContext eventCtx input =>
    change input.appendErr = none at happend
    show s.processEventWithContext names input eventCtx = _
    unfold processEventWithContext
    by_cases hvalid : eventCtx.isValid = true
    · have hlogged : (PipelineRequest.processEventWithContext eventCtx input).logged =
          [eventCtx.event] := if_pos hvalid
      have hdispatch : s.dispatchOf (.processEventWithContext eventCtx input) =
          s.dispatchToProcessorsInternal names input eventCtx.event (some eventCtx) :=
        if_pos hvalid
      unfold appendAndDispatch
      rw [if_pos hvalid, happend, hlogged, hdispatch]
      exact dispatchToProcessorsInternal_withLog
    · have hlogged : (PipelineRequest.processEventWithContext eventCtx input).logged = [] :=
        if_neg hvalid
      have hdispatch : s.dispatchOf (.processEventWithContext eventCtx input) =
          some (some "event context is invalid", s) := if_neg hvalid
      rw [if_neg hvalid, hlogged, hdispatch, append_nil]
      rfl

theorem dispatchOf_withLog (log : List MatchingEngineEvent) :
    (s.withLog log).dispatchOf r = (s.dispatchOf r).map fun q => (q.1, q.2.withLog log) := by
  unfold dispatchOf
  split
  · exact dispatchToProcessorsInternal_withLog
  · rfl

theorem serve_withLog (happend : r.input.appendErr = none) (log : List MatchingEngineEvent) :
    (s.withLog log).serve names r =
      (s.dispatchOf r).map fun q => (q.1, q.2.withLog (log ++ r.logged)) := by
  rw [serve_eq happend, dispatchOf_withLog, Option.map_map]
  rfl

def Reached (names : List String) (event : MatchingEngineEvent) (s : PipelineMemory) : Prop :=
  ∀ i < names.length, event.eventSeq ≤ s.lastSeq names event i

theorem dispatchOf_dispatched {q : PipelineMemory} (h : s.dispatchOf r = some (err, q)) :
    (r.appends = false ∧ err = some "event context is invalid" ∧ q = s) ∨ ∃ errs, err = errs.head? ∧
        Dispatched names r.input r.event r.input.order [] s errs q := by
  unfold dispatchOf at h
  split at h
  next =>
    obtain ⟨⟨errs, t⟩, hrun, heq⟩ := Option.map_eq_some_iff.mp h
    cases heq
    exact .inr ⟨errs, rfl, dispatched hrun⟩
  next hnot =>
    cases h
    exact .inl ⟨by simpa using hnot, rfl, rfl⟩

theorem reached_of_serve (h : s.serve names r = some (none, s'))
    (happend : r.input.appendErr = none) : Reached names r.event s' := by
  rw [serve_eq happend] at h
  obtain ⟨⟨err, q⟩, hq, heq⟩ := Option.map_eq_some_iff.mp h
  cases heq
  rcases dispatchOf_dispatched hq with ⟨-, hinvalid, -⟩ | ⟨errs, herr, hd⟩
  · cases hinvalid
  · intro i hi
    have hnil : errs = [] := List.head?_eq_none_iff.mp herr.symm
    exact hd.reached hnil i (r.input.mem_order.mpr hi)

theorem offsets_le_of_dispatchOf {q : PipelineMemory} (h : s.dispatchOf r = some (err, q))
    (name symbol : String) : s.processorOffsets name symbol ≤ q.processorOffsets name symbol := by
  rcases dispatchOf_dispatched h with ⟨-, -, rfl⟩ | ⟨errs, -, hd⟩
  · exact le_refl _
  · exact hd.offsets_le name symbol

theorem Reached.dispatchOf {event : MatchingEngineEvent} {q : PipelineMemory}
    (h : Reached names event s) (hq : s.dispatchOf r = some (err, q)) : Reached names event q :=
  fun i hi => (h i hi).trans (offsets_le_of_dispatchOf hq _ _)

-- Where every processor is past the event, nobody is called.
theorem dispatch_of_reached {input : CallInput names.length} {event : MatchingEngineEvent}
    {eventCtx : Option EventContext} {order : List Nat}
    (h : ∀ i ∈ order, event.eventSeq ≤ s.lastSeq names event i) (errs : List String) :
    order.foldlM (runProcessor names input event eventCtx) (errs, s) = some (errs, s) := by
  induction order with
  | nil => rfl
  | cons i rest ih =>
    rw [foldlM_cons, runProcessor_of_skipped (h i mem_cons_self)]
    exact ih fun j hj => h j (.tail _ hj)

theorem dispatchOf_of_reached (h : Reached names r.event s) :
    ∃ err, s.dispatchOf r = some (err, s) := by
  unfold PipelineMemory.dispatchOf
  split
  · unfold dispatchToProcessorsInternal
    rw [dispatch_of_reached fun i hi => h i (r.input.mem_order.mp hi)]
    exact ⟨_, rfl⟩
  · exact ⟨_, rfl⟩

theorem serve_of_reached (h : Reached names r.event s) (happend : r.input.appendErr = none) :
    ∃ err, s.serve names r = some (err, s.withLog (s.log ++ r.logged)) := by
  obtain ⟨err, hd⟩ := dispatchOf_of_reached h
  rw [serve_eq happend, hd]
  exact ⟨err, rfl⟩

end

/-! ## Sequences of calls -/

section

variable {names : List String} {s s' : PipelineMemory} {e : MatchingEngineEvent}
  {requests : List (PipelineRequest names.length)}

def logAt (s : PipelineMemory) (e : MatchingEngineEvent) : List MatchingEngineEvent :=
  s.log.filter fun x => x.eventSeq = e.eventSeq

def others (e : MatchingEngineEvent) (requests : List (PipelineRequest names.length)) :
    List (PipelineRequest names.length) :=
  requests.filter fun r => r.event ≠ e

theorem serveAll_cons (r : PipelineRequest names.length) : s.serveAll names (r :: requests) =
      (s.serve names r).bind fun q => q.2.serveAll names requests := by
  unfold serveAll
  rw [foldlM_cons]
  cases s.serve names r <;> rfl

theorem log_of_serveAll (hmemory : ∀ r ∈ requests, r.input.appendErr = none)
    (hrun : s.serveAll names requests = some s') :
    s'.log = s.log ++ requests.flatMap PipelineRequest.logged := by
  induction requests generalizing s with
  | nil =>
    cases hrun
    exact (append_nil _).symm
  | cons r rest ih =>
    rw [serveAll_cons, serve_eq (hmemory r mem_cons_self)] at hrun
    obtain ⟨next, hnext, hrest⟩ := Option.bind_eq_some_iff.mp hrun
    obtain ⟨q, -, rfl⟩ := Option.map_eq_some_iff.mp hnext
    rw [ih (fun x hx => hmemory x (.tail _ hx)) hrest, flatMap_cons, ← append_assoc]
    rfl

/-- Replaying events that every processor has reached appends them all once more and does nothing
else. -/
theorem serveAll_of_reached (hmemory : ∀ r ∈ requests, r.input.appendErr = none)
    (hreached : ∀ r ∈ requests, Reached names r.event s) :
    s.serveAll names requests =
      some (s.withLog (s.log ++ requests.flatMap PipelineRequest.logged)) := by
  induction requests generalizing s with
  | nil => exact congrArg (fun log => some (s.withLog log)) (append_nil _).symm
  | cons r rest ih =>
    obtain ⟨err, hserve⟩ :=
      serve_of_reached (hreached r mem_cons_self) (hmemory r mem_cons_self)
    have hrest := ih (s := s.withLog (s.log ++ r.logged))
      (fun x hx => hmemory x (.tail _ hx))
      (fun x hx => hreached x (.tail _ hx))
    rwa [serveAll_cons, hserve, flatMap_cons, ← append_assoc]

/-- Once the event has been processed, a sequence of calls ends, or panics, as it would without the
calls for the event, but for the log. -/
theorem serveAll_others (hreached : Reached names e s)
    (hmemory : ∀ r ∈ requests, r.input.appendErr = none) (log : List MatchingEngineEvent) :
    (s.withLog log).serveAll names (others e requests) = (s.serveAll names requests).map fun s' =>
        s'.withLog (log ++ (others e requests).flatMap PipelineRequest.logged) := by
  induction requests generalizing s log with
  | nil => exact congrArg (fun log => some (s.withLog log)) (append_nil _).symm
  | cons r rest ih =>
    have happend := hmemory r mem_cons_self
    have hmemory' := fun x hx => hmemory x (.tail _ hx)
    rw [serveAll_cons]
    by_cases heq : r.event = e
    · -- a repeated call only appends
      subst heq
      obtain ⟨err, hserve⟩ := serve_of_reached hreached happend
      have hrest := ih (s := s.withLog (s.log ++ r.logged)) hreached hmemory' log
      rwa [hserve, others, filter_cons_of_neg (by simp)]
    · -- a call for another event is made on both sides
      rw [others, filter_cons_of_pos (by simpa using heq), serveAll_cons,
        serve_withLog happend, serve_eq happend]
      cases hq : s.dispatchOf r with
      | none => rfl
      | some q =>
        have hkept : Reached names e q.2 := hreached.dispatchOf hq
        have hrest := ih (s := q.2.withLog (s.log ++ r.logged)) hkept hmemory' (log ++ r.logged)
        rwa [flatMap_cons, ← append_assoc]

-- The other events have other numbers, so only the repeated calls are seen at the event's number.
theorem filter_logged_others
    (hhigher : ∀ r ∈ requests, r.event = e ∨ e.eventSeq < r.event.eventSeq) :
    (((others e requests).flatMap PipelineRequest.logged).filter
      fun x => x.eventSeq = e.eventSeq) = [] := by
  rw [filter_eq_nil_iff]
  intro x hx
  obtain ⟨r, hr, hx⟩ := List.mem_flatMap.mp hx
  obtain ⟨hr, hother⟩ := List.mem_filter.mp hr
  have hlt := (hhigher r hr).resolve_left (by simpa using hother)
  have heq : x = r.event := r.eq_of_mem_logged hx
  simp only [heq, decide_eq_true_eq]
  omega

theorem filter_logged_eq_nil_iff
    (hhigher : ∀ r ∈ requests, r.event = e ∨ e.eventSeq < r.event.eventSeq) :
    ((requests.flatMap PipelineRequest.logged).filter fun x => x.eventSeq = e.eventSeq) = [] ↔
      ∀ r ∈ requests, r.event = e → r.appends = false := by
  simp only [filter_eq_nil_iff, mem_flatMap, decide_eq_true_eq]
  constructor
  · intro h r hr heq
    by_contra happends
    have hmem : r.event ∈ r.logged := r.mem_logged (by simpa using happends)
    exact h r.event ⟨r, hr, hmem⟩ (congrArg _ heq)
  · rintro h x ⟨r, hr, hx⟩ hseq
    have heq : x = r.event := r.eq_of_mem_logged hx
    have hevent : r.event = e := by
      rcases hhigher r hr with hevent | hlt
      · exact hevent
      · rw [heq] at hseq
        omega
    rw [r.logged_of_not_appends (h r hr hevent)] at hx
    cases hx

/-- Nothing an observer of the event can see has changed: the log at its number, the calls of the
processors, the offsets. -/
structure Unchanged (e : MatchingEngineEvent) (s s' : PipelineMemory) : Prop where
  logAt : s.logAt e = s'.logAt e
  given : s.given = s'.given
  processorOffsets : s.processorOffsets = s'.processorOffsets
  kafkaOffsets : s.kafkaOffsets = s'.kafkaOffsets

end

/-- After a first successful call for an event, take any further calls in which the other events
have higher numbers.  The calls for the event change nothing but the log, and they leave what it
holds at the event's number alone exactly when none of them gets as far as the append: when each
has a context that is refused. -/
theorem reprocessing_unchanged_iff (names : List String) {s s₁ s₂ : PipelineMemory}
    (first : PipelineRequest names.length) (requests : List (PipelineRequest names.length))
    (hfirst : s.serve names first = some (none, s₁))
    (hmemory : ∀ r ∈ first :: requests, r.input.appendErr = none)
    (hhigher : ∀ r ∈ requests, r.event = first.event ∨ first.event.eventSeq < r.event.eventSeq)
    (hrun : s₁.serveAll names requests = some s₂) :
    ∃ s₃, s₁.serveAll names (others first.event requests) = some s₃ ∧ s₂.withLog s₃.log = s₃ ∧
      (Unchanged first.event s₂ s₃ ↔
        ∀ r ∈ requests, r.event = first.event → r.appends = false) := by
  have hreached := reached_of_serve hfirst (hmemory first mem_cons_self)
  have hmemory' := fun r hr => hmemory r (mem_cons_of_mem first hr)
  have hothers := serveAll_others hreached hmemory' s₁.log
  rw [hrun] at hothers
  refine ⟨_, hothers, rfl, ?_⟩
  rw [← filter_logged_eq_nil_iff hhigher]
  have hlog : s₂.logAt first.event = s₁.logAt first.event ++
      (requests.flatMap PipelineRequest.logged).filter
        fun x => x.eventSeq = first.event.eventSeq := by
    rw [logAt, log_of_serveAll hmemory' hrun, filter_append]
    rfl
  have hlog' : (s₁.log ++ (others first.event requests).flatMap PipelineRequest.logged).filter
      (fun x => x.eventSeq = first.event.eventSeq) = s₁.logAt first.event := by
    rw [filter_append, filter_logged_others hhigher, append_nil]
    rfl
  constructor
  · intro h
    exact List.append_right_eq_self.mp (hlog.symm.trans (h.logAt.trans hlog'))
  · intro hnil
    refine ⟨?_, rfl, rfl, rfl⟩
    rw [hlog, hnil, append_nil]
    exact hlog'.symm

def firstRequest : PipelineRequest 1 := .processEvent (submittedBTC 1) (.quiet 1)

def againUnder (topic : String) : PipelineRequest 1 :=
  .processEventWithContext ⟨submittedBTC 1, topic, 0, 0, "", 0, 0⟩ (.quiet 1)

def secondRequest : PipelineRequest 1 := .processEvent (submittedBTC 2) (.quiet 1)

-- A context without a topic is refused, so the event is not appended again.
theorem refused_repeat_unchanged :
    ∃ s₁ s₂ s₃, (new none).serve ["p"] firstRequest = some (none, s₁) ∧
      s₁.serveAll ["p"] [againUnder "", secondRequest] = some s₂ ∧
      s₁.serveAll ["p"] (others (submittedBTC 1) [againUnder "", secondRequest]) = some s₃ ∧
      Unchanged (submittedBTC 1) s₂ s₃ := by
  have hmemory : ∀ r ∈ [firstRequest, againUnder "", secondRequest],
      r.input.appendErr = none := by decide
  have hhigher : ∀ r ∈ [againUnder "", secondRequest],
      r.event = submittedBTC 1 ∨ (submittedBTC 1).eventSeq < r.event.eventSeq := by decide
  have hrefused : ∀ r ∈ [againUnder "", secondRequest],
      r.event = submittedBTC 1 → r.appends = false := by decide
  obtain ⟨s₁, hfirst⟩ : ∃ s₁, (new none).serve ["p"] firstRequest = some (none, s₁) := ⟨_, rfl⟩
  obtain ⟨s₂, hrun⟩ : ∃ s₂, s₁.serveAll ["p"] [againUnder "", secondRequest] = some s₂ := by
    cases hfirst
    exact ⟨_, rfl⟩
  obtain ⟨s₃, hothers, -, hiff⟩ := reprocessing_unchanged_iff ["p"] firstRequest
    [againUnder "", secondRequest] hfirst hmemory hhigher hrun
  exact ⟨s₁, s₂, s₃, hfirst, hrun, hothers, hiff.mpr hrefused⟩

theorem two_replays_logged :
    ∃ s₁, (new none).serve ["p"] firstRequest = some (none, s₁) ∧
      s₁.serveAll ["p"] [againUnder "orders", againUnder "orders"] =
        some (s₁.withLog (s₁.log ++ [submittedBTC 1, submittedBTC 1])) := by
  obtain ⟨s₁, hfirst⟩ : ∃ s₁, (new none).serve ["p"] firstRequest = some (none, s₁) := ⟨_, rfl⟩
  have hreached : Reached ["p"] (submittedBTC 1) s₁ := reached_of_serve hfirst rfl
  refine ⟨s₁, hfirst, serveAll_of_reached (by decide) fun r hr => ?_⟩
  rcases mem_pair.mp hr with rfl | rfl
  · exact hreached
  · exact hreached

/-- An event that was processed is replayed as recovery does, with a valid context: the processor is
not called again, and the log holds the event twice. -/
theorem replayed_event_logged_twice :
    ∃ s₁ s₂, (new none).serve ["p"] firstRequest = some (none, s₁) ∧
      s₁.serve ["p"] (againUnder "orders") = some (none, s₂) ∧
      s₁.logAt (submittedBTC 1) = [submittedBTC 1] ∧
      s₂.logAt (submittedBTC 1) = [submittedBTC 1, submittedBTC 1] ∧
      s₂.given = s₁.given ∧ ¬ Unchanged (submittedBTC 1) s₂ s₁ := by
  refine ⟨_, _, rfl, rfl, rfl, rfl, rfl, fun h => ?_⟩
  exact absurd (congrArg List.length h.logAt) (by decide +kernel)

end PipelineMemory

end CexHertz
