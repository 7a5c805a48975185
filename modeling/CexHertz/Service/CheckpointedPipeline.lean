import CexHertz.Service.CheckpointFlush

/-!
# A pipeline with checkpoints

The goroutines of the pipeline, the log in PostgreSQL and the flushes of the checkpoint manager in
one process. A restart keeps the tables and forgets the rest.
-/

namespace CexHertz

open Json (Encoding)

variable {τ : Type}

/-- The checkpoint manager of `pipeline` and that of `checkpoints` are the same one. -/
structure EngineNode (τ : Type) where
  log : PostgresEventLog τ
  pipeline : PipelineState
  checkpoints : CheckpointSystem

def newEngineNode (log : PostgresEventLog τ) (processors : List String)
    (rows : List CheckpointRow) : EngineNode τ where
  log := log
  pipeline := registered processors (some newCheckpointManager)
  checkpoints := { newCheckpointSystem with rows := rows }

-- No event fails to marshal, see `marshalEvent_toJson`.
def AppendError.error : AppendError → String
  | .eventNil => "event cannot be nil"
  | .marshal => "json"
  | .write msg => msg

inductive NodeAction where
  | processEvent (event : MatchingEngineEvent)
  | processEventWithContext (eventCtx : EventContext)
  | append (call : Nat) (input : WriteInput)
  | advance (goroutine : Nat) (input : DispatchInput)
  /-- All processors have returned without an error. -/
  | flushCheckpoints (call : Nat) (order : List String)
  | saveCheckpoint (call : Nat) (input : WriteInput)
  | finish (call : Nat)
  /-- The process ends at any point and is started again. -/
  | restart (sequencer : Sequencer)

def PipelineState.checkpointOf (s : PipelineState) (g : Goroutine) (eventCtx : EventContext)
    (now : Int) : EventOffsetCheckpoint :=
  eventCtx.checkpoint (s.nameOf g.proc) g.event now

namespace EngineNode

variable (J : Encoding τ) (s : EngineNode τ)

def both (action : PipelineAction) (actions : List CheckpointAction) : Option (EngineNode τ) :=
  match s.pipeline.step action, Run.execute CheckpointSystem.step (fun _ _ => True)
      s.checkpoints actions with
  | some pipeline, some checkpoints =>
    some { s with pipeline := pipeline, checkpoints := checkpoints }
  | _, _ => none

def restarted (sequencer : Sequencer) : EngineNode τ :=
  newEngineNode (newPostgresEventLog s.log.table sequencer) s.pipeline.processors
    s.checkpoints.rows

def step : NodeAction → Option (EngineNode τ)
  | .processEvent event => s.both (.processEvent event) [.processEvent]
  | .processEventWithContext eventCtx =>
    s.both (.processEventWithContext eventCtx)
      (if eventCtx.isValid then [.processEvent]
       else [.processEvent, .fail s.checkpoints.calls.length "event context is invalid"])
  | .append k input =>
    match s.pipeline.calls[k]? with
    | none => none
    | some call =>
      let (log, err) := s.log.appendEvent J input (some call.event)
      let err := err.map AppendError.error
      { s with log := log }.both (.append k err) (err.toList.map (.fail k))
  | .advance j input =>
    match s.pipeline.goroutines[j]? with
    | none => none
    | some g =>
      s.both (.advance j input)
        (match g.phase, g.eventCtx with
         | .kafkaWritten, some eventCtx =>
           [.recordEventProcessed g.call (s.pipeline.checkpointOf g eventCtx input.now)]
         | _, _ => [])
  | .flushCheckpoints k order =>
    match s.pipeline.calls[k]? with
    | some ⟨_, _, [], .dispatching⟩ =>
      if ∀ g ∈ s.pipeline.goroutines, g.call = k → g.phase = .done then
        (s.checkpoints.step (.flushCheckpoints k order)).map fun checkpoints =>
          { s with checkpoints := checkpoints }
      else none
    | _ => none
  | .saveCheckpoint k input =>
    (s.checkpoints.step (.saveCheckpoint k input)).map fun checkpoints =>
      { s with checkpoints := checkpoints }
  | .finish k =>
    match s.pipeline.calls[k]?, s.checkpoints.calls[k]? with
    -- an error of the flush is only logged
    | some ⟨_, _, [], _⟩, some (.returned _) => s.both (.finish k) []
    | some ⟨_, _, err :: _, _⟩, _ => s.both (.finish k) [.fail k err]
    | _, _ => none
  | .restart sequencer => some (s.restarted sequencer)

end EngineNode

/-! ## Runs of a node -/

namespace EngineNode

variable {J : Encoding τ} {s s' : EngineNode τ}

def Running (_ : EngineNode τ) : NodeAction → Prop
  | .restart _ => False
  | _ => True

theorem both_eq_some {action : PipelineAction} {actions : List CheckpointAction}
    (h : s.both action actions = some s') :
    s.pipeline.step action = some s'.pipeline ∧
      Run.execute CheckpointSystem.step (fun _ _ => True) s.checkpoints actions =
        some s'.checkpoints := by
  unfold both at h
  split at h
  next hpipeline hcheckpoints =>
    cases h
    exact ⟨hpipeline, hcheckpoints⟩
  next => cases h

end EngineNode

def CheckpointAction.records : CheckpointAction → Bool
  | .recordEventProcessed _ _ => true
  | _ => false

/-- What happens to the pipeline and the checkpoints in a step: a goroutine records its checkpoint,
or nothing is recorded. -/
inductive NodeMove (s s' : EngineNode τ) : Prop
  | quiet (actions : List CheckpointAction)
      (hpipeline : s'.pipeline = s.pipeline ∨ ∃ action, s.pipeline.step action = some s'.pipeline)
      (hquiet : ∀ action ∈ actions, action.records = false)
      (hcheckpoints : Run.execute CheckpointSystem.step (fun _ _ => True) s.checkpoints actions =
        some s'.checkpoints)
  | record (j : Nat) (g : Goroutine) (eventCtx : EventContext) (input : DispatchInput)
      (hj : s.pipeline.goroutines[j]? = some g) (hphase : g.phase = .kafkaWritten)
      (hpipeline : s.pipeline.step (.advance j input) = some s'.pipeline)
      (hcheckpoints : s.checkpoints.step (.recordEventProcessed g.call
        (s.pipeline.checkpointOf g eventCtx input.now)) = some s'.checkpoints)

namespace EngineNode

variable {J : Encoding τ} {s s' : EngineNode τ}

theorem both_move {action : PipelineAction} {actions : List CheckpointAction}
    (hquiet : ∀ action ∈ actions, action.records = false) {log : PostgresEventLog τ}
    (h : { s with log := log }.both action actions = some s') : NodeMove s s' :=
  .quiet actions (.inr ⟨action, (both_eq_some h).1⟩) hquiet (both_eq_some h).2

theorem checkpoints_move {action : CheckpointAction} (hquiet : action.records = false)
    (h : (s.checkpoints.step action).map (fun checkpoints =>
      { s with checkpoints := checkpoints }) = some s') : NodeMove s s' := by
  obtain ⟨checkpoints, hstep, rfl⟩ := Option.map_eq_some_iff.mp h
  refine .quiet [action] (.inl rfl) (by simpa using hquiet) ?_
  exact Run.execute_singleton.mpr ⟨trivial, hstep⟩

theorem step_move {action : NodeAction} (hrunning : s.Running action)
    (hstep : s.step J action = some s') : NodeMove s s' := by
  cases action with
  | processEvent event =>
    dsimp only [step] at hstep
    exact both_move (by simp [CheckpointAction.records]) hstep
  | processEventWithContext eventCtx =>
    refine both_move ?_ hstep
    split <;> simp [CheckpointAction.records]
  | append k input =>
    dsimp only [step] at hstep
    split at hstep
    next => cases hstep
    next call hk =>
      refine both_move ?_ hstep
      intro action haction
      obtain ⟨err, -, rfl⟩ := List.mem_map.mp haction
      rfl
  | advance j input =>
    dsimp only [step] at hstep
    split at hstep
    next => cases hstep
    next g hj =>
      split at hstep
      next eventCtx hphase hctx =>
        obtain ⟨hpipeline, hcheckpoints⟩ := both_eq_some hstep
        exact .record j g eventCtx input hj hphase hpipeline
          (Run.execute_singleton.mp hcheckpoints).2
      next => exact both_move (by simp) hstep
  | flushCheckpoints k order =>
    dsimp only [step] at hstep
    split at hstep
    next =>
      split at hstep
      · exact checkpoints_move rfl hstep
      · cases hstep
    next => cases hstep
  | saveCheckpoint k input => exact checkpoints_move rfl hstep
  | finish k =>
    dsimp only [step] at hstep
    split at hstep
    · exact both_move (by simp) hstep
    · exact both_move (by simp [CheckpointAction.records]) hstep
    · cases hstep
  | restart sequencer => cases hrunning

end EngineNode

end CexHertz
