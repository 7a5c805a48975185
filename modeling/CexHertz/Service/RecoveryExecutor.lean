import CexHertz.Service.CheckpointedPipeline
import CexHertz.Service.EventReadBack

/-!
# Crash recovery

`recovery_executor.go` with the queries of `checkpoint_repo.go`. A recovery reads where a processor
has stopped and gives it the rest of the log. But its context has no topic, so the pipeline rejects
the first event; and the list of what is to be recovered is taken from a column that no caller sets.
-/

namespace CexHertz

open List EngineNode PipelineState Run

open Json (Encoding)

variable {τ : Type}
variable {s s' : EngineNode τ} {err : Option String} {J : Encoding τ} {rows : List CheckpointRow}
  {symbol : String} {recoveryCtx : RecoveryContext}

/-! ## The repository -/

def getLatestCheckpoint (rows : List CheckpointRow) (processorName symbol : String) :
    Option EventOffsetCheckpoint :=
  ((rows.filter fun row => row.pair = (processorName, symbol)).mergeSort fun a b =>
    b.checkpoint.eventSeq ≤ a.checkpoint.eventSeq).head?.map CheckpointRow.checkpoint

structure RecoveryContext where
  symbol : String
  processorName : String
  startEventSeq : Nat
  startKafkaOffset : Int
  topic : String
  partition : Int
  preCrashChecksum : String
  expectedOrderCount : Int
  expectedTradeCount : Int

/-- A context without a checkpoint; the fields that are not set keep their zero values. -/
def newRecoveryContext (processorName symbol : String) : RecoveryContext where
  symbol := symbol
  processorName := processorName
  startEventSeq := 1
  startKafkaOffset := 0
  topic := ""
  partition := 0
  preCrashChecksum := ""
  expectedOrderCount := 0
  expectedTradeCount := 0

def getRecoveryContext (rows : List CheckpointRow) (fault : Option String)
    (processorName symbol : String) : Except String RecoveryContext :=
  match fault with
  | some err => .error err
  | none =>
    let ctx := newRecoveryContext processorName symbol
    match getLatestCheckpoint rows processorName symbol with
    | some cp =>
      .ok { ctx with
        startEventSeq := (cp.eventSeq + 1) % 2 ^ 64
        startKafkaOffset := wrapInt64 (cp.kafkaOffset + 1)
        preCrashChecksum := cp.stateChecksum }
    | none => .ok ctx

/-- `ListPendingRecoveryItems`: the latest update first. -/
def listPendingRecoveryItems (rows : List CheckpointRow) (fault : Option String) :
    Except String (List (String × String)) :=
  match fault with
  | some err => .error err
  | none =>
    .ok (((rows.filter fun row => row.recoveryStatus = .inProgress ∨
      row.recoveryStatus = .failed).mergeSort fun a b => b.updatedAt ≤ a.updatedAt).map
        CheckpointRow.pair)

/-! ## Replaying -/

def newEventContext (event : MatchingEngineEvent) (topic : String) (partition offset : Int) :
    EventContext where
  event := event
  topic := topic
  partition := partition
  offset := offset
  stateChecksum := ""
  orderCount := 0
  tradeCount := 0

/-- A recovery ends the process, or the given steps of the pipeline do not complete a call. -/
inductive Halt where
  | panicked
  | unfinished
  deriving DecidableEq

instance (s : EngineNode τ) (action : NodeAction) : Decidable (s.Running action) :=
  match action with
  | .restart _ => isFalse id
  | .processEvent _ | .processEventWithContext _ | .append _ _ | .advance _ _
  | .flushCheckpoints _ _ | .saveCheckpoint _ _ | .finish _ => isTrue trivial

/-- `ProcessEventWithContext`, with the steps that the process takes until the call returns. -/
def EngineNode.processEventWithContext (J : Encoding τ) (s : EngineNode τ)
    (eventCtx : EventContext) (schedule : List NodeAction) :
    Except Halt (EngineNode τ × Option String) :=
  match execute (step J) EngineNode.Running s
      (.processEventWithContext eventCtx :: schedule) with
  | none => .error .unfinished
  | some s' =>
    match s'.pipeline.calls[s.pipeline.calls.length]? with
    | some ⟨_, _, _, .returned err⟩ => .ok (s', err)
    | _ => .error .unfinished

structure ReplayInput where
  /-- The context of the recovery has expired. -/
  expired : Bool
  schedule : List NodeAction

structure Replay (τ : Type) where
  node : EngineNode τ
  eventsReplayed : Nat
  handed : List MatchingEngineEvent
  err : Option String

def replayEvents (J : Encoding τ) (recoveryCtx : RecoveryContext) (inputs : Nat → ReplayInput) :
    List (Option MatchingEngineEvent) → Int → Replay τ → Except Halt (Replay τ)
  | [], _, r => .ok r
  | event :: rest, offset, r =>
    let input := inputs r.eventsReplayed
    if input.expired then .ok { r with err := some "recovery context timeout" }
    else
      match event with
      -- the context is invalid, and the message about it asks the nil event for its number
      | none => .error .panicked
      | some event =>
        let eventCtx :=
          newEventContext event recoveryCtx.topic recoveryCtx.partition offset
        let handed := r.handed ++ [event]
        match r.node.processEventWithContext J eventCtx input.schedule with
        | .error halt => .error halt
        | .ok (node, some err) =>
          .ok { r with
            node := node, handed := handed, err := some ("failed to process event: " ++ err) }
        | .ok (node, none) =>
          replayEvents J recoveryCtx inputs rest (wrapInt64 (offset + 1))
            { r with
              node := node, handed := handed, eventsReplayed := r.eventsReplayed + 1 }

def decodeAll (J : Encoding τ) (envelopes : List (EventEnvelope τ)) :
    List (Option MatchingEngineEvent) :=
  envelopes.filterMap fun envelope =>
    match unmarshalEvent J envelope with
    | .ok event => some event
    | .error _ => none

/-! ## The executor -/

structure RecoveryExecutor where
  lockMgr : Bool
  eventLog : Bool
  eventPipeline : Bool

structure RecoveryOptions where
  processorNames : List String
  symbols : List String
  validateAfterRecovery : Bool

structure RecoveryResult where
  processorName : String
  symbol : String
  eventsReplayed : Nat
  ordersRestored : Int
  tradesRestored : Int
  preCrashChecksum : String
  postRecoveryChecksum : String
  isValid : Bool
  validationError : Option String
  deriving DecidableEq

def emptyResult (processorName symbol : String) : RecoveryResult :=
  ⟨processorName, symbol, 0, 0, 0, "", "", false, none⟩

inductive LockError where
  | expired (err : String)
  | refused (err : String)

structure RecoveryInput where
  lock : Option LockError
  contextFault : Option String
  logFault : Option String
  replay : Nat → ReplayInput
  /-- What `CalculateStateChecksum` makes of the state and the clock. -/
  stateChecksum : String

def validateRecovery (preChecksum postChecksum : String)
    (expectedOrderCount actualOrderCount expectedTradeCount actualTradeCount : Int) :
    Option String :=
  if preChecksum ≠ postChecksum then
    some ("state checksum mismatch: pre=" ++ preChecksum ++ ", post=" ++ postChecksum)
  else if expectedOrderCount ≠ actualOrderCount then
    some ("order count mismatch: expected=" ++ toString expectedOrderCount ++ ", actual=" ++
      toString actualOrderCount)
  else if expectedTradeCount ≠ actualTradeCount then
    some ("trade count mismatch: expected=" ++ toString expectedTradeCount ++ ", actual=" ++
      toString actualTradeCount)
  else none

/-- The state of the node after the recovery of one processor and symbol, the result, the events
that were given to the pipeline, and the error. -/
structure Recovered (τ : Type) where
  node : EngineNode τ
  result : RecoveryResult
  handed : List MatchingEngineEvent
  err : Option String

def eventsToReplay (J : Encoding τ) (re : RecoveryExecutor) (log : PostgresEventLog τ)
    (fault : Option String) (recoveryCtx : RecoveryContext) :
    Except String (List (Option MatchingEngineEvent)) :=
  if re.eventLog then
    (log.getEventsBySymbol fault recoveryCtx.symbol recoveryCtx.startEventSeq 1000).map
      (decodeAll J)
  else .ok []

def validated (opts : RecoveryOptions) (recoveryCtx : RecoveryContext) (stateChecksum : String)
    (result : RecoveryResult) : RecoveryResult :=
  if opts.validateAfterRecovery then
    let result := { result with postRecoveryChecksum := stateChecksum }
    match validateRecovery recoveryCtx.preCrashChecksum stateChecksum
        recoveryCtx.expectedOrderCount recoveryCtx.expectedOrderCount
        recoveryCtx.expectedTradeCount recoveryCtx.expectedTradeCount with
    | some errMsg => { result with validationError := some errMsg, isValid := false }
    | none => { result with isValid := true }
  else { result with isValid := true }

def recoverSingleProcessor (J : Encoding τ) (re : RecoveryExecutor) (s : EngineNode τ)
    (item : String × String) (opts : RecoveryOptions) (input : RecoveryInput) :
    Except Halt (Recovered τ) :=
  let result := emptyResult item.1 item.2
  -- the method of a nil lock manager uses its client
  if re.lockMgr = false then .error .panicked
  else
    match input.lock with
    | some (.expired err) => .ok ⟨s, result, [], some ("lock context expired: " ++ err)⟩
    | some (.refused err) =>
      .ok ⟨s, result, [], some ("failed to acquire lock on recovery:lock:" ++ item.1 ++ ":" ++
        item.2 ++ ": " ++ err)⟩
    | none =>
      match getRecoveryContext s.checkpoints.rows input.contextFault item.1 item.2 with
      | .error err => .ok ⟨s, result, [], some ("failed to get recovery context: " ++ err)⟩
      | .ok recoveryCtx =>
        let result := { result with preCrashChecksum := recoveryCtx.preCrashChecksum }
        match eventsToReplay J re s.log input.logFault recoveryCtx with
        | .error err => .ok ⟨s, result, [], some ("failed to get events for replay: " ++ err)⟩
        | .ok events =>
          if re.eventPipeline = false then
            .ok ⟨s, result, [], some "event pipeline not found"⟩
          else
            match replayEvents J recoveryCtx input.replay events
                recoveryCtx.startKafkaOffset ⟨s, 0, [], none⟩ with
            | .error halt => .error halt
            | .ok r =>
              match r.err with
              | some err => .ok ⟨r.node, result, r.handed, some err⟩
              | none =>
                let result :=
                  { result with
                    eventsReplayed := r.eventsReplayed
                    ordersRestored := recoveryCtx.expectedOrderCount
                    tradesRestored := recoveryCtx.expectedTradeCount }
                .ok ⟨r.node, validated opts recoveryCtx input.stateChecksum result, r.handed, none⟩

/-- `getPendingRecoveryList`: named processors and symbols, or what the table says. -/
def getPendingRecoveryList (rows : List CheckpointRow) (opts : RecoveryOptions)
    (fault : String × String → Option String) (listFault : Option String) :
    Except String (List (String × String)) :=
  if opts.processorNames ≠ [] ∧ opts.symbols ≠ [] then
    .ok ((opts.processorNames.flatMap fun name => opts.symbols.map fun symbol =>
      (name, symbol)).filter fun item =>
        match getRecoveryContext rows (fault item) item.1 item.2 with
        | .ok _ => true
        | .error _ => false)
  else
    match listPendingRecoveryItems rows listFault with
    | .error err => .error ("failed to list pending recovery items: " ++ err)
    | .ok items => .ok items

structure ExecuteInput where
  contextFault : String × String → Option String
  listFault : Option String
  item : Nat → RecoveryInput

/-- The recoveries of a list of items, one after the other; the schedule of each may contain the
calls of the others. -/
def recoverAll (J : Encoding τ) (re : RecoveryExecutor) (opts : RecoveryOptions)
    (inputs : Nat → RecoveryInput) :
    List (String × String) → Nat → EngineNode τ → Except Halt (EngineNode τ × List RecoveryResult)
  | [], _, s => .ok (s, [])
  | item :: rest, i, s =>
    match recoverSingleProcessor J re s item opts (inputs i) with
    | .error halt => .error halt
    | .ok recovered =>
      let result := match recovered.err with
        | none => recovered.result
        | some err => { emptyResult item.1 item.2 with validationError := some err }
      match recoverAll J re opts inputs rest (i + 1) recovered.node with
      | .error halt => .error halt
      | .ok (s, results) => .ok (s, result :: results)

def defaultOptions : RecoveryOptions := ⟨[], [], true⟩

/-- `ExecuteRecovery`: the node afterwards, and the result or the error. -/
def executeRecovery (J : Encoding τ) (re : RecoveryExecutor) (isRecovering : Bool)
    (s : EngineNode τ) (opts : Option RecoveryOptions) (input : ExecuteInput) :
    Except Halt (EngineNode τ × Except String RecoveryResult) :=
  if isRecovering then .ok (s, .error "recovery already in progress")
  else
    let opts := opts.getD defaultOptions
    match getPendingRecoveryList s.checkpoints.rows opts input.contextFault input.listFault with
    | .error err => .ok (s, .error ("failed to get pending recovery list: " ++ err))
    | .ok [] => .ok (s, .ok { emptyResult "" "" with isValid := true })
    | .ok (item :: items) =>
      match recoverAll J re opts input.item (item :: items) 0 s with
      | .error halt => .error halt
      | .ok (s, results) =>
        let first := results.headD (emptyResult "" "")
        .ok (s, .ok { first with
          eventsReplayed := (results.map RecoveryResult.eventsReplayed).sum
          isValid := results.all RecoveryResult.isValid })

/-! ## A context without a topic -/

theorem PipelineState.advance_calls {s s' : PipelineState} {j : Nat} {g : Goroutine}
    {input : DispatchInput} (hstep : s.advance j g input = some s') :
    s'.calls = s.calls ∨ ∃ err,
      s'.calls = s.calls.modify g.call fun c => { c with errChan := c.errChan ++ [err] } := by
  unfold advance at hstep
  dsimp only at hstep
  split at hstep
  case h_4 =>
    cases hstep
    exact .inr ⟨_, rfl⟩
  all_goals
    try split at hstep
    all_goals
      try split at hstep
      all_goals
        cases hstep
        try exact .inl rfl

theorem PipelineState.step_returned {s s' : PipelineState} {action : PipelineAction}
    (hstep : s.step action = some s') {k : Nat} {call : PipelineCall} (hk : s.calls[k]? = some call)
    (hphase : call.phase = .returned err) :
    ∃ call', s'.calls[k]? = some call' ∧ call'.phase = .returned err := by
  have hlt : k < s.calls.length := (List.getElem?_eq_some_iff.mp hk).1
  -- a call that is set is not the returned one
  have hset : ∀ (i : Nat) (old new : PipelineCall), s.calls[i]? = some old →
      (∀ err, old.phase ≠ .returned err) →
      ∃ call', (s.calls.set i new)[k]? = some call' ∧ call'.phase = .returned err := by
    intro i old new hi hold
    refine ⟨call, ?_, hphase⟩
    rw [List.getElem?_set_ne, hk]
    rintro rfl
    rw [hk] at hi
    cases hi
    exact hold err hphase
  cases action with
  | processEvent | processEventWithContext =>
    cases hstep
    exact ⟨call, by rw [List.getElem?_append_left hlt]; exact hk, hphase⟩
  | append i err =>
    rw [step] at hstep
    split at hstep
    next hi =>
      split at hstep <;>
      · cases hstep
        exact hset i _ _ hi fun _ h => by cases h
    next => cases hstep
  | advance j input =>
    rw [step] at hstep
    split at hstep
    next g hj =>
      rcases advance_calls hstep with hsame | ⟨msg, hsent⟩
      · rw [hsame]
        exact ⟨call, hk, hphase⟩
      · rw [hsent, List.getElem?_modify, hk]
        split
        · exact ⟨_, rfl, hphase⟩
        · exact ⟨call, rfl, hphase⟩
    next => cases hstep
  | finish i =>
    rw [step] at hstep
    split at hstep
    next hi =>
      split at hstep
      · cases hstep
        exact hset i _ _ hi fun _ h => by cases h
      · cases hstep
    next => cases hstep

theorem EngineNode.step_returned {action : NodeAction} (hrunning : s.Running action)
    (hstep : s.step J action = some s') {k : Nat} {call : PipelineCall}
    (hk : s.pipeline.calls[k]? = some call) (hphase : call.phase = .returned err) :
    ∃ call', s'.pipeline.calls[k]? = some call' ∧ call'.phase = .returned err := by
  cases step_move hrunning hstep with
  | quiet actions hpipeline =>
    rcases hpipeline with hsame | ⟨action, hpipeline⟩
    · rw [hsame]
      exact ⟨call, hk, hphase⟩
    · exact PipelineState.step_returned hpipeline hk hphase
  | record j g eventCtx input hj _ hpipeline =>
    exact PipelineState.step_returned hpipeline hk hphase

theorem EngineNode.processEventWithContext_invalid {eventCtx : EventContext}
    (hinvalid : eventCtx.isValid = false) {schedule : List NodeAction}
    (h : s.processEventWithContext J eventCtx schedule = .ok (s', err)) :
    err = some "event context is invalid" := by
  unfold processEventWithContext at h
  split at h
  next => cases h
  next s'' hrun =>
    obtain ⟨-, s₁, hstep, hrun⟩ := execute_cons_eq_some.mp hrun
    have hcall : ∃ call, s₁.pipeline.calls[s.pipeline.calls.length]? = some call ∧
        call.phase = .returned (some "event context is invalid") := by
      obtain ⟨hpipeline, -⟩ := both_eq_some hstep
      rw [PipelineState.step, hinvalid] at hpipeline
      rw [← Option.some.inj hpipeline]
      exact ⟨_, List.getElem?_concat_length, rfl⟩
    obtain ⟨call, hcall, hphase⟩ : ∃ call,
        s''.pipeline.calls[s.pipeline.calls.length]? = some call ∧
        call.phase = .returned (some "event context is invalid") := by
      refine (reaches_of_execute hrun).invariant (I := fun t : EngineNode τ => ∃ call,
        t.pipeline.calls[s.pipeline.calls.length]? = some call ∧
        call.phase = .returned (some "event context is invalid")) hcall ?_
      rintro t action t' ⟨call, hk, hphase⟩ hrunning hstep
      exact step_returned hrunning hstep hk hphase
    split at h
    next hreturned =>
      cases h
      rw [hcall] at hreturned
      cases hreturned
      cases hphase
      rfl
    next => cases h

theorem getRecoveryContext_nil (processorName symbol : String) :
    getRecoveryContext [] none processorName symbol =
      .ok (newRecoveryContext processorName symbol) := by
  unfold getRecoveryContext getLatestCheckpoint
  rw [filter_nil, mergeSort_nil]
  rfl

theorem getRecoveryContext_fields {fault : Option String} {processorName : String}
    (h : getRecoveryContext rows fault processorName symbol = .ok recoveryCtx) :
    recoveryCtx.topic = "" ∧ recoveryCtx.symbol = symbol := by
  unfold getRecoveryContext at h
  split at h
  next => cases h
  next =>
    split at h <;>
    · cases h
      exact ⟨rfl, rfl⟩

theorem replayEvents_without_topic (htopic : recoveryCtx.topic = "") {inputs : Nat → ReplayInput}
    {events : List (Option MatchingEngineEvent)} {offset : Int} {r r' : Replay τ}
    (h : replayEvents J recoveryCtx inputs events offset r = .ok r') (herr : r'.err = none) :
    events = [] ∧ r' = r := by
  cases events with
  | nil =>
    cases h
    exact ⟨rfl, rfl⟩
  | cons event rest =>
    unfold replayEvents at h
    dsimp only at h
    split at h
    next =>
      cases h
      cases herr
    next =>
      split at h
      next => cases h
      next event =>
        have hinvalid : (newEventContext event recoveryCtx.topic recoveryCtx.partition
            offset).isValid = false := by
          rw [htopic]
          rfl
        split at h
        next => cases h
        next =>
          cases h
          cases herr
        next node hok => cases processEventWithContext_invalid hinvalid hok

/-! ## The rest of the log -/

def EngineNode.tail (s : EngineNode τ) (symbol : String) (startSeq : Nat) :
    List (EventEnvelope τ) :=
  ((s.log.table.map PersistentEvent.toEnvelope).filter fun envelope =>
    envelope.symbol = symbol ∧ startSeq ≤ envelope.seq).mergeSort fun a b => a.seq ≤ b.seq

structure EngineNode.Stored (s : EngineNode τ) : Prop where
  rows : ∀ row ∈ s.checkpoints.rows, row.checkpoint.eventSeq < 2 ^ 63
  table : ∀ row ∈ s.log.table, -2 ^ 63 ≤ row.globalSeq ∧ row.globalSeq < 2 ^ 63

theorem getRecoveryContext_start (hrows : ∀ row ∈ rows, row.checkpoint.eventSeq < 2 ^ 63)
    {processorName : String}
    (h : getRecoveryContext rows none processorName symbol = .ok recoveryCtx) :
    recoveryCtx.startEventSeq ≤ 2 ^ 63 := by
  unfold getRecoveryContext at h
  dsimp only at h
  split at h
  next cp hcp =>
    cases h
    obtain ⟨row, hrow, rfl⟩ := Option.map_eq_some_iff.mp hcp
    have hmem := List.mem_of_mem_head? hrow
    rw [mem_mergeSort] at hmem
    have hlt := hrows row (mem_of_mem_filter hmem)
    exact Nat.le_trans (Nat.mod_le _ _) hlt
  next =>
    cases h
    show 1 ≤ 2 ^ 63
    decide

theorem le_uint64_of_range {startSeq : Nat} (hstart : startSeq ≤ 2 ^ 63) {globalSeq : Int}
    (hlow : int64 startSeq ≤ globalSeq) (hhigh : globalSeq ≤ rangeEnd startSeq 1000)
    (hrange : -2 ^ 63 ≤ globalSeq ∧ globalSeq < 2 ^ 63) : startSeq ≤ uint64 globalSeq := by
  unfold rangeEnd at hhigh
  unfold int64 wrapInt64 at hlow hhigh
  unfold uint64
  rw [Int.bmod_def] at hlow hhigh
  rw [Int.bmod_def] at hhigh
  omega

theorem getEventsBySymbol_eq_nil (hs : s.Stored) {startSeq : Nat} (hstart : startSeq ≤ 2 ^ 63)
    (h : s.tail symbol startSeq = []) :
    s.log.getEventsBySymbol none symbol startSeq 1000 = .ok [] := by
  have hnone : ∀ row ∈ s.log.table, row.symbol = symbol → ¬ startSeq ≤ uint64 row.globalSeq := by
    intro row hrow hsymbol hle
    have hmem : row.toEnvelope ∈ s.tail symbol startSeq := by
      unfold EngineNode.tail
      rw [mem_mergeSort, mem_filter]
      exact ⟨mem_map_of_mem hrow, decide_eq_true ⟨hsymbol, hle⟩⟩
    rw [h] at hmem
    cases hmem
  unfold PostgresEventLog.getEventsBySymbol getSymbolEvents
  rw [List.filter_eq_nil_iff.mpr, mergeSort_nil]
  · rfl
  · intro row hrow hfound
    simp only [Bool.and_eq_true, decide_eq_true_eq] at hfound
    obtain ⟨⟨hsymbol, hlow⟩, hhigh⟩ := hfound
    exact hnone row hrow hsymbol (le_uint64_of_range hstart hlow hhigh (hs.table row hrow))

/-- The recovery returns without an error, gives all events of the tail to the pipeline in their
order, and counts them. -/
def ReplaysTail (J : Encoding τ) (s : EngineNode τ) (item : String × String)
    (opts : RecoveryOptions) (input : RecoveryInput) (tail : List (EventEnvelope τ)) : Prop :=
  ∃ recovered, recoverSingleProcessor J ⟨true, true, true⟩ s item opts input = .ok recovered ∧
    recovered.err = none ∧
    tail.map (unmarshalEvent J) = recovered.handed.map (fun event => .ok (some event)) ∧
    recovered.result.eventsReplayed = tail.length

theorem validated_eventsReplayed (opts : RecoveryOptions) (recoveryCtx : RecoveryContext)
    (stateChecksum : String) (result : RecoveryResult) :
    (validated opts recoveryCtx stateChecksum result).eventsReplayed = result.eventsReplayed := by
  unfold validated
  split
  · split <;> rfl
  · rfl

theorem recoverSingleProcessor_last {re : RecoveryExecutor} {item : String × String}
    {opts : RecoveryOptions} {input : RecoveryInput} {recovered : Recovered τ}
    (h : recoverSingleProcessor J re s item opts input = .ok recovered)
    (herr : recovered.err = none) :
    ∃ recoveryCtx events r result,
      getRecoveryContext s.checkpoints.rows input.contextFault item.1 item.2 = .ok recoveryCtx ∧
      replayEvents J recoveryCtx input.replay events recoveryCtx.startKafkaOffset
        ⟨s, 0, [], none⟩ = .ok r ∧ r.err = none ∧ result.eventsReplayed = r.eventsReplayed ∧
      recovered =
        ⟨r.node, validated opts recoveryCtx input.stateChecksum result, r.handed, none⟩ := by
  unfold recoverSingleProcessor at h
  split at h
  next => cases h
  next =>
    split at h
    next => cases h; cases herr
    next => cases h; cases herr
    next =>
      split at h
      next => cases h; cases herr
      next recoveryCtx hctx =>
        split at h
        next => cases h; cases herr
        next events _ =>
          split at h
          next => cases h; cases herr
          next =>
            split at h
            next => cases h
            next r hreplay =>
              split at h
              next => cases h; cases herr
              next hnone =>
                cases h
                exact ⟨recoveryCtx, events, r, _, hctx, hreplay, hnone, rfl, rfl⟩

theorem recoverSingleProcessor_ok {re : RecoveryExecutor} {item : String × String}
    {opts : RecoveryOptions} {input : RecoveryInput} {recovered : Recovered τ}
    (h : recoverSingleProcessor J re s item opts input = .ok recovered)
    (herr : recovered.err = none) :
    recovered.node = s ∧ recovered.handed = [] ∧ recovered.result.eventsReplayed = 0 := by
  obtain ⟨recoveryCtx, events, r, result, hctx, hreplay, hnone, hcount, rfl⟩ :=
    recoverSingleProcessor_last h herr
  obtain ⟨-, rfl⟩ :=
    replayEvents_without_topic (getRecoveryContext_fields hctx).1 hreplay hnone
  exact ⟨rfl, rfl, (validated_eventsReplayed _ _ _ _).trans hcount⟩

/-- For every processor and symbol, every checkpoint and every log, with the lock granted and the
database answering: the tail is replayed exactly when it is empty. -/
theorem tail_replayed_iff_empty (J : Encoding τ) {s : EngineNode τ} (hs : s.Stored)
    (item : String × String) (opts : RecoveryOptions) {input : RecoveryInput}
    (hlock : input.lock = none) (hcontext : input.contextFault = none)
    (hlog : input.logFault = none) {recoveryCtx : RecoveryContext}
    (hctx : getRecoveryContext s.checkpoints.rows none item.1 item.2 = .ok recoveryCtx) :
    ReplaysTail J s item opts input (s.tail item.2 recoveryCtx.startEventSeq) ↔
      (s.tail item.2 recoveryCtx.startEventSeq).length = 0 := by
  constructor
  · rintro ⟨recovered, hrecovered, herr, -, hcount⟩
    rw [← hcount]
    exact (recoverSingleProcessor_ok hrecovered herr).2.2
  · intro hempty
    have htail := eq_nil_of_length_eq_zero hempty
    have hfound := getEventsBySymbol_eq_nil hs (getRecoveryContext_start hs.rows hctx) htail
    have hevents : eventsToReplay J ⟨true, true, true⟩ s.log input.logFault recoveryCtx =
        .ok [] := by
      unfold eventsToReplay
      rw [if_pos rfl, hlog, (getRecoveryContext_fields hctx).2, hfound]
      rfl
    refine ⟨⟨s, validated opts recoveryCtx input.stateChecksum
      { emptyResult item.1 item.2 with
        preCrashChecksum := recoveryCtx.preCrashChecksum
        ordersRestored := recoveryCtx.expectedOrderCount
        tradesRestored := recoveryCtx.expectedTradeCount }, [], none⟩, ?_, rfl, ?_, ?_⟩
    · unfold recoverSingleProcessor
      rw [if_neg (by decide), hlock, hcontext, hctx]
      dsimp only
      rw [hevents]
      rfl
    · rw [htail]
      rfl
    · rw [hempty]
      exact validated_eventsReplayed _ _ _ _

def quietRecovery : RecoveryInput := ⟨none, none, none, fun _ => ⟨false, []⟩, ""⟩

def oneEventNode : EngineNode Json :=
  newEngineNode (oneEventLog (submittedBTC 1)) ["position"] []

theorem oneEventNode_stored : oneEventNode.Stored where
  rows := fun _ hrow => by cases hrow
  table := by
    intro row hrow
    rw [List.mem_singleton.mp hrow]
    exact (by decide +kernel : -2 ^ 63 ≤ int64 1 ∧ int64 1 < 2 ^ 63)

theorem ok_of_toOption {ε α : Type} {r : Except ε α} {a : α} (h : r.toOption = some a) :
    r = .ok a := by
  cases r with
  | error e => cases h
  | ok b =>
    cases h
    rfl

/-- One event is to be replayed, and the pipeline rejects it. -/
theorem one_event_not_replayed :
    getRecoveryContext oneEventNode.checkpoints.rows none "position" "BTC/USDT" =
        .ok (newRecoveryContext "position" "BTC/USDT") ∧
      (oneEventNode.tail "BTC/USDT" 1).length = 1 ∧
      (∃ recovered, recoverSingleProcessor Encoding.value ⟨true, true, true⟩ oneEventNode
          ("position", "BTC/USDT") defaultOptions quietRecovery = .ok recovered ∧
        recovered.err = some "failed to process event: event context is invalid") ∧
      ¬ ReplaysTail Encoding.value oneEventNode ("position", "BTC/USDT") defaultOptions
        quietRecovery (oneEventNode.tail "BTC/USDT" 1) := by
  have hrun : (recoverSingleProcessor Encoding.value ⟨true, true, true⟩ oneEventNode
      ("position", "BTC/USDT") defaultOptions quietRecovery).toOption.any (fun recovered =>
        recovered.err = some "failed to process event: event context is invalid") = true := by
    decide +kernel
  obtain ⟨recovered, hrecovered, htest⟩ := exists_of_any hrun
  have hok := ok_of_toOption hrecovered
  have herr := of_decide_eq_true htest
  refine ⟨getRecoveryContext_nil _ _, by decide +kernel, ⟨recovered, hok, herr⟩, ?_⟩
  rintro ⟨recovered', hok', herr', -⟩
  rw [hok] at hok'
  cases hok'
  rw [herr] at herr'
  cases herr'

/-- The event is of another symbol: nothing is to be replayed. -/
theorem other_symbol_replayed :
    ReplaysTail Encoding.value oneEventNode ("position", "ETH/USDT") defaultOptions quietRecovery
      (oneEventNode.tail "ETH/USDT" 1) :=
  (tail_replayed_iff_empty Encoding.value oneEventNode_stored ("position", "ETH/USDT")
    defaultOptions rfl rfl rfl (getRecoveryContext_nil _ _)).mpr (by decide +kernel)

/-! ## What is to be recovered -/

def Unmarked (rows : List CheckpointRow) : Prop := ∀ row ∈ rows, row.recoveryStatus = .none

theorem Unmarked.save {rows' : List CheckpointRow} (h : Unmarked rows) {input : WriteInput}
    {cp : EventOffsetCheckpoint} (hsave : saveCheckpoint rows input cp = .ok rows') :
    Unmarked rows' := by
  unfold saveCheckpoint at hsave
  split at hsave
  next => cases hsave
  next =>
    split at hsave
    next => cases hsave
    next =>
      dsimp only at hsave
      split at hsave
      next i old hfirst =>
        cases hsave
        obtain ⟨pre, post, rfl, -⟩ := Table.first_eq_some hfirst
        intro row hrow
        rcases mem_or_eq_of_mem_set hrow with hrow | rfl
        · exact h row hrow
        · exact h old (mem_append_right _ mem_cons_self)
      next =>
        cases hsave
        exact forall_mem_concat h rfl

theorem Unmarked.step {s s' : CheckpointSystem} (h : Unmarked s.rows) {action : CheckpointAction}
    (hstep : s.step action = some s') : Unmarked s'.rows := by
  cases action with
  | processEvent =>
    cases hstep
    exact h
  | recordEventProcessed | fail =>
    dsimp only [CheckpointSystem.step] at hstep
    split at hstep
    · cases hstep
      exact h
    · cases hstep
  | flushCheckpoints k order =>
    dsimp only [CheckpointSystem.step] at hstep
    split at hstep
    · split at hstep
      · cases hstep
        exact h
      · cases hstep
    · cases hstep
  | saveCheckpoint k input =>
    dsimp only [CheckpointSystem.step] at hstep
    split at hstep
    · split at hstep
      next =>
        cases hstep
        exact h
      next rows hsave =>
        cases hstep
        exact h.save hsave
    · cases hstep

theorem Unmarked.node_step (h : Unmarked s.checkpoints.rows) {action : NodeAction}
    (hstep : s.step J action = some s') : Unmarked s'.checkpoints.rows := by
  by_cases hrunning : s.Running action
  · cases step_move hrunning hstep with
    | quiet actions _ _ hcheckpoints =>
      exact (reaches_of_execute hcheckpoints).invariant (I := fun t => Unmarked t.rows) h
        fun _ _ _ ht _ hstep => ht.step hstep
    | record j g eventCtx input _ _ _ hcheckpoints => exact h.step hcheckpoints
  · cases action with
    | restart sequencer =>
      cases hstep
      exact h
    | _ => exact absurd trivial hrunning

theorem listPendingRecoveryItems_unmarked (h : Unmarked rows) :
    listPendingRecoveryItems rows none = .ok [] := by
  unfold listPendingRecoveryItems
  rw [List.filter_eq_nil_iff.mpr, mergeSort_nil]
  · rfl
  · intro row hrow
    rw [h row hrow]
    decide

theorem executeRecovery_unmarked (J : Encoding τ) (re : RecoveryExecutor)
    (h : Unmarked s.checkpoints.rows) {opts : Option RecoveryOptions}
    (hopts : ∀ o ∈ opts, o.processorNames = [] ∨ o.symbols = []) {input : ExecuteInput}
    (hlist : input.listFault = none) :
    executeRecovery J re false s opts input =
      .ok (s, .ok { emptyResult "" "" with isValid := true }) := by
  have hauto : ¬ ((opts.getD defaultOptions).processorNames ≠ [] ∧
      (opts.getD defaultOptions).symbols ≠ []) := by
    cases opts with
    | none => exact fun hnamed => hnamed.1 rfl
    | some o => exact fun hnamed => (hopts o rfl).elim hnamed.1 hnamed.2
  have hitems : getPendingRecoveryList s.checkpoints.rows (opts.getD defaultOptions)
      input.contextFault input.listFault = .ok [] := by
    unfold getPendingRecoveryList
    rw [if_neg hauto, hlist, listPendingRecoveryItems_unmarked h]
  unfold executeRecovery
  rw [if_neg Bool.false_ne_true]
  dsimp only
  rw [hitems]

theorem restarted_given (s : EngineNode τ) (sequencer : Sequencer) :
    (s.restarted sequencer).pipeline.history.given = [] := by
  unfold EngineNode.restarted newEngineNode
  rw [registered_eq]
  rfl

/-- Every event that is logged above the checkpoint of a processor and a symbol at the crash was
given to that processor after the restart. -/
def HandedToProcessors (J : Encoding τ) (crashed recovered : EngineNode τ) : Prop :=
  ∀ row ∈ crashed.checkpoints.rows, ∀ entry ∈ crashed.log.table,
    entry.symbol = row.checkpoint.symbol →
    row.checkpoint.eventSeq < entry.toEnvelope.seq →
    ∃ event i, unmarshalEvent J entry.toEnvelope = .ok (some event) ∧
      recovered.pipeline.nameOf i = row.checkpoint.processorName ∧
      (i, event) ∈ recovered.pipeline.history.given

def CaughtUp (s : EngineNode τ) : Prop :=
  ∀ row ∈ s.checkpoints.rows, ∀ entry ∈ s.log.table, entry.symbol = row.checkpoint.symbol →
    ¬ row.checkpoint.eventSeq < entry.toEnvelope.seq

/-- For every run of a node, cut by a crash at any point: a recovery that finds out by itself what
is to be recovered and reports success leaves nothing behind exactly when there was nothing to
recover. -/
theorem recovery_leaves_nothing_iff (J : Encoding τ) {log : PostgresEventLog τ}
    {processors : List String} {s : EngineNode τ}
    (hrun : Run.Reaches (step J) (fun _ _ => True) (newEngineNode log processors []) s)
    (sequencer : Sequencer) (re : RecoveryExecutor) {opts : Option RecoveryOptions}
    (hopts : ∀ o ∈ opts, o.processorNames = [] ∨ o.symbols = []) :
    (∀ input recovered result,
      executeRecovery J re false (s.restarted sequencer) opts input = .ok (recovered, .ok result) →
      result.isValid = true → HandedToProcessors J s recovered) ↔ CaughtUp s := by
  have hunmarked : Unmarked s.checkpoints.rows := hrun.invariant
    (I := fun s => Unmarked s.checkpoints.rows) (fun _ hrow => by cases hrow)
    fun _ _ _ hs _ hstep => hs.node_step hstep
  constructor
  · intro h row hrow entry hentry hsymbol hlt
    have hrestarted : Unmarked (s.restarted sequencer).checkpoints.rows := hunmarked
    obtain ⟨event, i, -, -, hgiven⟩ := h ⟨fun _ => none, none, fun _ => quietRecovery⟩ _ _
      (executeRecovery_unmarked J re hrestarted hopts rfl) rfl row hrow entry hentry hsymbol hlt
    -- nothing was given to anybody since the restart
    rw [restarted_given] at hgiven
    cases hgiven
  · intro hcaught input recovered result _ _ row hrow entry hentry hsymbol hlt
    exact absurd hlt (hcaught row hrow entry hentry hsymbol)

def contextBTC (seq : Nat) : EventContext := newEventContext (submittedBTC seq) "orders" 0 seq

def firstFlushed : List NodeAction :=
  [.processEventWithContext (contextBTC 1), .append 0 ⟨0, none⟩] ++
    List.replicate 8 (.advance 0 ⟨0, none⟩) ++
    [.flushCheckpoints 0 ["position:BTC/USDT"], .saveCheckpoint 0 ⟨0, none⟩, .finish 0]

def freshNode : EngineNode Json :=
  newEngineNode (newPostgresEventLog [] newSequencer) ["position"] []

/-- The process ends after the second event was logged and before it was processed.  The recovery
reports success and has given it to nobody. -/
theorem logged_event_left_behind : ∃ s recovered result,
      Run.Reaches (step Encoding.value) (fun _ _ => True) freshNode s ∧
      executeRecovery Encoding.value ⟨true, true, true⟩ false (s.restarted newSequencer) none
        ⟨fun _ => none, none, fun _ => quietRecovery⟩ = .ok (recovered, .ok result) ∧
      result.isValid = true ∧ ¬ HandedToProcessors Encoding.value s recovered := by
  have hrun : (execute (step Encoding.value) (fun _ _ => True) freshNode
      (firstFlushed ++ [.processEventWithContext (contextBTC 2), .append 1 ⟨0, none⟩])).any
      (fun s => decide (∃ row ∈ s.checkpoints.rows, ∃ entry ∈ s.log.table,
        entry.symbol = row.checkpoint.symbol ∧
        row.checkpoint.eventSeq < entry.toEnvelope.seq)) = true := by
    decide +kernel
  obtain ⟨s, hreach, htest⟩ := exists_reaches_of_any hrun
  obtain ⟨row, hrow, entry, hentry, hsymbol, hlt⟩ := of_decide_eq_true htest
  have hunmarked : Unmarked (s.restarted newSequencer).checkpoints.rows :=
    hreach.invariant (I := fun s => Unmarked s.checkpoints.rows) (fun _ hrow => by cases hrow)
      fun _ _ _ hs _ hstep => hs.node_step hstep
  refine ⟨s, _, _, hreach, executeRecovery_unmarked _ _ hunmarked (fun _ h => by cases h) rfl, rfl,
    fun hhanded => ?_⟩
  obtain ⟨event, i, -, -, hgiven⟩ := hhanded row hrow entry hentry hsymbol hlt
  rw [restarted_given] at hgiven
  cases hgiven

/-- The process ends when the only event is processed and flushed. -/
theorem flushed_event_not_left_behind :
    ∃ s, Run.Reaches (step Encoding.value) (fun _ _ => True) freshNode s ∧
      s.checkpoints.rows.length = 1 ∧ s.log.table.length = 1 ∧
      ∀ input recovered result, executeRecovery Encoding.value ⟨true, true, true⟩ false
        (s.restarted newSequencer) none input = .ok (recovered, .ok result) →
      result.isValid = true → HandedToProcessors Encoding.value s recovered := by
  refine exists_reaches firstFlushed
    (P := fun s => s.checkpoints.rows.length = 1 ∧ s.log.table.length = 1 ∧
      ∀ row ∈ s.checkpoints.rows, ∀ entry ∈ s.log.table, entry.symbol = row.checkpoint.symbol →
        ¬ row.checkpoint.eventSeq < entry.toEnvelope.seq) (by decide +kernel)
    fun _ hreach ⟨hrows, htable, hcaught⟩ => ?_
  exact ⟨hrows, htable, (recovery_leaves_nothing_iff Encoding.value hreach newSequencer
    ⟨true, true, true⟩ (fun _ h => by cases h)).mpr hcaught⟩

end CexHertz
