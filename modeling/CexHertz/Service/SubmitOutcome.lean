import CexHertz.Service.MatchEngine
import CexHertz.Service.PipelineCalls

/-!
# What the answer of `SubmitOrder` says

One `SubmitOrder` call from its start to its return: append, dispatch and enqueue come one after the
other, and none is taken back when a later one fails.
-/

namespace CexHertz

open List PipelineMemory Function

variable {buyBefore sellBefore : Int → Int → Prop} [DecidableRel buyBefore]
  [DecidableRel sellBefore]

structure SubmitEngine (C : Containers buyBefore sellBefore) where
  sequencer : Sequencer
  pipeline : PipelineMemory
  orderQueues : String → List SubmitOrderMsg
  orderBooks : String → Option (OrderBook C)
  done : Bool

/-- What the environment decides about a call.  With the engine shutting down both cases of the
`select` may be ready, and `takesDone` says which one is taken; otherwise a full queue makes the
call wait until there is room. -/
structure SubmitInput (n : Nat) where
  nowNano : Int
  now : Int
  call : CallInput n
  takesDone : Bool

namespace SubmitEngine

variable {C : Containers buyBefore sellBefore} (cfg : EngineConfig) (s : SubmitEngine C)
  (order : SubmitOrderMsg) (input : SubmitInput cfg.processors.length)

def withOrderID : SubmitOrderMsg × Sequencer :=
  if order.orderID = "" then
    ({ order with orderID := generatedID input.nowNano s.sequencer.nextGlobalSeq.1 },
      s.sequencer.nextGlobalSeq.2)
  else (order, s.sequencer)

def completed : SubmitOrderMsg := (s.withOrderID cfg order input).1

def event : MatchingEngineEvent :=
  let (order, sequencer) := s.withOrderID cfg order input
  .orderSubmitted (submittedEvent cfg order sequencer.nextGlobalSeq.1 input.now)

def drawn : Sequencer :=
  let sequencer := (s.withOrderID cfg order input).2.nextGlobalSeq.2
  if cfg.logDraws then sequencer.nextGlobalSeq.2 else sequencer

def enqueueOrder (s : SubmitEngine C) (order : SubmitOrderMsg) (takesDone : Bool) :
    SubmitEngine C :=
  let symbol := order.symbol
  let s :=
    match s.orderBooks symbol with
    | some _ => s
    | none =>
      { s with
        orderBooks := update s.orderBooks symbol (some (newOrderBook C symbol)) }
  if s.done && takesDone then s
  else
    { s with
      orderQueues := update s.orderQueues symbol (s.orderQueues symbol ++ [order]) }

/-- `none`: the process has panicked. -/
def submitOrder : Option (Option String × SubmitEngine C) :=
  if order.Missing then some (some "invalid order: missing required fields", s)
  else
    let sequencer := s.drawn cfg order input
    match s.pipeline.processEvent cfg.processors input.call (s.event cfg order input) with
    | none => none
    | some (some err, pipeline) =>
      some (some err, { s with sequencer := sequencer, pipeline := pipeline })
    | some (none, pipeline) =>
      let s' := { s with sequencer := sequencer, pipeline := pipeline }
      some (none, s'.enqueueOrder (s.completed cfg order input) input.takesDone)

/-! ## All or nothing -/

def givenSince (s' : SubmitEngine C) : List (Dispatch × Option String) :=
  s'.pipeline.given.drop s.pipeline.given.length

structure Nothing (s' : SubmitEngine C) : Prop where
  log : s'.pipeline.log = s.pipeline.log
  processors : ∀ d ∈ s.givenSince s', d.2 ≠ none
  queues : s'.orderQueues = s.orderQueues

structure All (s' : SubmitEngine C) : Prop where
  log : s'.pipeline.log = s.pipeline.log ++ [s.event cfg order input]
  processors : ∀ i < cfg.processors.length, ((i, s.event cfg order input), none) ∈ s.givenSince s'
  queue : s'.orderQueues (s.completed cfg order input).symbol =
    s.orderQueues (s.completed cfg order input).symbol ++ [s.completed cfg order input]

def AllOrNothing : Prop :=
  ∀ err s', s.submitOrder cfg order input = some (err, s') →
    (err ≠ none → s.Nothing s') ∧ (err = none → s.All cfg order input s')

/-- The processor would be called for the event of the call, and return without an error. -/
def Succeeds (i : Nat) : Prop :=
  PipelineMemory.Succeeds cfg.processors input.call (s.event cfg order input) s.pipeline i

/-- The order is refused, or the log refuses the event, or the call panics, or processors of
different names are all called and all succeed and the enqueue does not give up. -/
def RefusedOrSmooth : Prop :=
  order.Missing ∨ input.call.appendErr ≠ none ∨ (s.pipeline.checkpointMgr ≠ none ∧
      ∃ i < cfg.processors.length, s.Succeeds cfg order input i) ∨
    (cfg.processors.Nodup ∧ (∀ i < cfg.processors.length, s.Succeeds cfg order input i) ∧
      (s.done && input.takesDone) = false)

section

variable {cfg s order input}

theorem enqueueOrder_pipeline (s : SubmitEngine C) (order : SubmitOrderMsg) (takesDone : Bool) :
    (s.enqueueOrder order takesDone).pipeline = s.pipeline := by
  unfold enqueueOrder
  dsimp only
  split <;> split <;> rfl

theorem enqueueOrder_orderQueues (s : SubmitEngine C) (order : SubmitOrderMsg) (takesDone : Bool) :
    (s.enqueueOrder order takesDone).orderQueues = if s.done && takesDone then s.orderQueues
      else update s.orderQueues order.symbol
        (s.orderQueues order.symbol ++ [order]) := by
  unfold enqueueOrder
  dsimp only
  split <;> split <;> simp_all

theorem submitOrder_of_dispatch (hmissing : ¬ order.Missing) (happend : input.call.appendErr = none)
    {errs : List String} {pipeline : PipelineMemory}
    (h : input.call.order.foldlM (runProcessor cfg.processors input.call
      (s.event cfg order input) none) ([], s.pipeline.appended (s.event cfg order input)) =
        some (errs, pipeline)) :
    s.submitOrder cfg order input =
      let s' := { s with sequencer := s.drawn cfg order input, pipeline := pipeline }
      match errs.head? with
      | some err => some (some err, s')
      | none => some (none, s'.enqueueOrder (s.completed cfg order input) input.takesDone) := by
  have hprocess : s.pipeline.processEvent cfg.processors input.call (s.event cfg order input) =
      some (errs.head?, pipeline) := appendAndDispatch_of_dispatch happend h
  unfold submitOrder
  rw [if_neg hmissing, hprocess]
  cases errs.head? <;> rfl

theorem submitOrder_of_missing (hmissing : order.Missing) :
    s.submitOrder cfg order input = some (some "invalid order: missing required fields", s) := by
  unfold submitOrder
  rw [if_pos hmissing]

theorem submitOrder_of_append_error (hmissing : ¬ order.Missing) {err : String}
    (happend : input.call.appendErr = some err) :
    s.submitOrder cfg order input = some (some err, { s with
      sequencer := s.drawn cfg order input
      pipeline :=
        { s.pipeline with failedEventCount := s.pipeline.failedEventCount + 1 } }) := by
  have hprocess : s.pipeline.processEvent cfg.processors input.call (s.event cfg order input) =
      some (some err,
        { s.pipeline with failedEventCount := s.pipeline.failedEventCount + 1 }) :=
    appendAndDispatch_of_append_error happend
  unfold submitOrder
  rw [if_neg hmissing, hprocess]

theorem nothing_of_same {s' : SubmitEngine C} (hlog : s'.pipeline.log = s.pipeline.log)
    (hgiven : s'.pipeline.given = s.pipeline.given) (hqueues : s'.orderQueues = s.orderQueues) :
    s.Nothing s' := by
  refine ⟨hlog, fun d hd => ?_, hqueues⟩
  unfold givenSince at hd
  rw [hgiven, drop_length] at hd
  cases hd

/-- Where every processor has processed the event, each was called at its own offset and has a name
of its own. -/
theorem smooth_of_processed {errs : List String} {s' : SubmitEngine C}
    (h : PipelineMemory.Dispatched cfg.processors input.call (s.event cfg order input)
      input.call.order [] (s.pipeline.appended (s.event cfg order input)) errs s'.pipeline)
    (hall : ∀ i < cfg.processors.length, ((i, s.event cfg order input), none) ∈ s.givenSince s') :
    cfg.processors.Nodup ∧ ∀ i < cfg.processors.length, s.Succeeds cfg order input i := by
  obtain ⟨new, hnew, hnodup, hsucc⟩ := h.given
  have hsince : s.givenSince s' = new := by
    unfold givenSince
    rw [hnew]
    exact drop_left
  rw [hsince] at hall
  refine ⟨?_, fun i hi => hsucc _ (hall i hi) rfl⟩
  rw [nodup_iff_injective_getElem]
  rintro ⟨i, hi⟩ ⟨j, hj⟩ heq
  have hmem : ∀ k < cfg.processors.length, ((k, s.event cfg order input), none) ∈
      new.filter fun d => d.2 = none :=
    fun k hk => List.mem_filter.mpr ⟨hall k hk, by simp⟩
  have hname : cfg.processors.getD i "" = cfg.processors.getD j "" := by
    rwa [getD_eq_getElem _ _ hi, getD_eq_getElem _ _ hj]
  have hsame := inj_on_of_nodup_map hnodup (hmem i hi) (hmem j hj) hname
  exact Fin.ext (congrArg (fun d => d.1.1) hsame)

theorem refusedOrSmooth_of_allOrNothing (h : s.AllOrNothing cfg order input) :
    s.RefusedOrSmooth cfg order input := by
  by_cases hmissing : order.Missing
  · exact .inl hmissing
  cases happend : input.call.appendErr with
  | some err => exact .inr (.inl (by rw [happend]; exact Option.some_ne_none err))
  | none =>
    refine .inr (.inr ?_)
    by_cases hpanic : s.pipeline.checkpointMgr ≠ none ∧
        ∃ i < cfg.processors.length, s.Succeeds cfg order input i
    · exact .inl hpanic
    · -- the dispatch returns, so the answer has to be true
      obtain ⟨⟨errs, pipeline⟩, hrun⟩ :
          ∃ r, input.call.order.foldlM (runProcessor cfg.processors input.call
            (s.event cfg order input) none)
              ([], s.pipeline.appended (s.event cfg order input)) = some r := by
        by_cases hcm : s.pipeline.checkpointMgr = none
        · exact dispatch_returns
            (s := s.pipeline.appended (s.event cfg order input)) hcm []
        · have hnobody : ∀ i ∈ input.call.order, ¬ PipelineMemory.Succeeds cfg.processors
              input.call (s.event cfg order input)
              (s.pipeline.appended (s.event cfg order input)) i :=
            fun i hi hsucc => hpanic ⟨hcm, i, input.call.mem_order.mp hi, hsucc⟩
          obtain ⟨r, hr⟩ := dispatch_of_nobody hnobody []
          exact ⟨r, hr none⟩
      have hd := dispatched hrun
      have hsubmit := submitOrder_of_dispatch hmissing happend hrun
      cases herrs : errs.head? with
      | some err =>
        -- an error is returned, and the event stays in the log
        rw [herrs] at hsubmit
        have hlog : pipeline.log = s.pipeline.log :=
          ((h _ _ hsubmit).1 (Option.some_ne_none err)).log
        rw [hd.log] at hlog
        exact absurd (congrArg List.length hlog) (by simp [PipelineMemory.appended])
      | none =>
        rw [herrs] at hsubmit
        have hall := (h _ _ hsubmit).2 rfl
        refine .inr ?_
        obtain ⟨hnodup, hsucc⟩ :=
          smooth_of_processed (by rw [enqueueOrder_pipeline]; exact hd) hall.processors
        refine ⟨hnodup, hsucc, ?_⟩
        -- a dropped order is not in the queue
        by_contra hdropped
        have hqueue := hall.queue
        rw [enqueueOrder_orderQueues, if_pos (by simpa using hdropped)] at hqueue
        exact absurd (congrArg List.length hqueue) (by simp)

theorem submitOrder_of_panic (hmissing : ¬ order.Missing) (happend : input.call.appendErr = none)
    (hpanic : s.pipeline.checkpointMgr ≠ none ∧
      ∃ i < cfg.processors.length, s.Succeeds cfg order input i) :
    s.submitOrder cfg order input = none := by
  unfold submitOrder
  rw [if_neg hmissing, processEvent_panics happend hpanic.1 hpanic.2]

-- With a checkpoint manager a call in which somebody succeeds does not return.
theorem smooth_dispatch
    (hpanic : ¬ (s.pipeline.checkpointMgr ≠ none ∧
      ∃ i < cfg.processors.length, s.Succeeds cfg order input i))
    (hnodup : cfg.processors.Nodup)
    (hsucc : ∀ i < cfg.processors.length, s.Succeeds cfg order input i) :
    ∃ pipeline, input.call.order.foldlM (runProcessor cfg.processors input.call
        (s.event cfg order input) none) ([], s.pipeline.appended (s.event cfg order input)) =
          some ([], pipeline) ∧
      pipeline.log = s.pipeline.log ++ [s.event cfg order input] ∧
      pipeline.given = s.pipeline.given ++
        input.call.order.map fun i => ((i, s.event cfg order input), none) := by
  by_cases hcm : s.pipeline.checkpointMgr = none
  · exact dispatch_of_all (s := s.pipeline.appended (s.event cfg order input)) hcm
      (input.call.names_nodup hnodup) (fun i hi => hsucc i (input.call.mem_order.mp hi)) []
  · have hnone : input.call.order = [] := by
      rw [eq_nil_iff_forall_not_mem]
      intro i hi
      have hlt := input.call.mem_order.mp hi
      exact hpanic ⟨hcm, i, hlt, hsucc i hlt⟩
    rw [hnone]
    exact ⟨_, rfl, rfl, (append_nil _).symm⟩

theorem allOrNothing_of_refusedOrSmooth (h : s.RefusedOrSmooth cfg order input) :
    s.AllOrNothing cfg order input := by
  intro err s' hs'
  by_cases hmissing : order.Missing
  · rw [submitOrder_of_missing hmissing] at hs'
    cases hs'
    exact ⟨fun _ => nothing_of_same rfl rfl rfl, fun hnone => by cases hnone⟩
  cases happend : input.call.appendErr with
  | some e =>
    rw [submitOrder_of_append_error hmissing happend] at hs'
    cases hs'
    exact ⟨fun _ => nothing_of_same rfl rfl rfl, fun hnone => by cases hnone⟩
  | none =>
    have hrest := (h.resolve_left hmissing).resolve_left fun hne => hne happend
    by_cases hpanic : s.pipeline.checkpointMgr ≠ none ∧
        ∃ i < cfg.processors.length, s.Succeeds cfg order input i
    · rw [submitOrder_of_panic hmissing happend hpanic] at hs'
      cases hs'
    · obtain ⟨hnodup, hsucc, hkept⟩ := hrest.resolve_left hpanic
      obtain ⟨pipeline, hrun, hlog, hgiven⟩ := smooth_dispatch hpanic hnodup hsucc
      have hsubmit := submitOrder_of_dispatch hmissing happend hrun
      rw [hsubmit] at hs'
      cases hs'
      refine ⟨fun hne => absurd rfl hne, fun _ => ⟨?_, fun i hi => ?_, ?_⟩⟩
      · rwa [enqueueOrder_pipeline]
      · unfold givenSince
        rw [enqueueOrder_pipeline, hgiven]
        show _ ∈ List.drop s.pipeline.given.length (s.pipeline.given ++ _)
        rw [drop_left]
        exact List.mem_map.mpr ⟨i, input.call.mem_order.mpr hi, rfl⟩
      · rw [enqueueOrder_orderQueues, if_neg (by rw [hkept]; decide), update_self]

end

/-- `SubmitOrder` answers for what it has done exactly when the order or the event is refused, or
the call does not return, or nothing goes wrong at all. -/
theorem submit_all_or_nothing_iff (cfg : EngineConfig) (s : SubmitEngine C)
    (order : SubmitOrderMsg) (input : SubmitInput cfg.processors.length) :
    s.AllOrNothing cfg order input ↔ s.RefusedOrSmooth cfg order input :=
  ⟨refusedOrSmooth_of_allOrNothing, allOrNothing_of_refusedOrSmooth⟩

/-! ## Two calls that do not -/

def databaseOnly : EngineConfig := ⟨.amd64, ["DatabaseProcessor"], false⟩

def idle (C : Containers buyBefore sellBefore) (done : Bool) : SubmitEngine C where
  sequencer := newSequencer
  pipeline := .new none
  orderQueues := fun _ => []
  orderBooks := fun _ => none
  done := done

def oneCoin : SubmitOrderMsg := ⟨"o1", "BTC/USDT", "buy", "1", "1", "alice"⟩

def processorDown : SubmitInput 1 :=
  ⟨0, 0, { CallInput.quiet 1 with answer := fun _ => some "database is down" }, false⟩

def shutDown : SubmitInput 1 := ⟨0, 0, .quiet 1, true⟩

/-- A processor that fails makes the call return an error with the event in the log; an engine that
shuts down makes it return no error with the order in no queue. -/
theorem submit_answer_misleads :
    (∃ err s', (idle sortedContainers false).submitOrder databaseOnly oneCoin processorDown =
        some (some err, s') ∧ s'.pipeline.log.length = 1) ∧
      ¬ (idle sortedContainers false).AllOrNothing databaseOnly oneCoin processorDown ∧
      (∃ s', (idle sortedContainers true).submitOrder databaseOnly oneCoin shutDown =
        some (none, s') ∧ s'.pipeline.log.length = 1 ∧ s'.orderQueues "BTC/USDT" = []) ∧
      ¬ (idle sortedContainers true).AllOrNothing databaseOnly oneCoin shutDown := by
  have hfail : ∃ err s', (idle sortedContainers false).submitOrder databaseOnly oneCoin
      processorDown = some (some err, s') ∧ s'.pipeline.log.length = 1 := ⟨_, _, rfl, rfl⟩
  have hdrop : ∃ s', (idle sortedContainers true).submitOrder databaseOnly oneCoin shutDown =
      some (none, s') ∧ s'.pipeline.log.length = 1 ∧ s'.orderQueues "BTC/USDT" = [] :=
    ⟨_, rfl, rfl, rfl⟩
  refine ⟨hfail, fun h => ?_, hdrop, fun h => ?_⟩
  · obtain ⟨err, s', hs', hlog⟩ := hfail
    have hnothing := (h _ _ hs').1 (Option.some_ne_none err)
    rw [hnothing.log] at hlog
    cases hlog
  · obtain ⟨s', hs', -, hqueue⟩ := hdrop
    have hall := (h _ _ hs').2 rfl
    have hqueued := hall.queue.symm.trans hqueue
    exact absurd hqueued (by simp)

end SubmitEngine

end CexHertz
