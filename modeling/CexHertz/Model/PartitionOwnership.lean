import CexHertz.Lib.FloatText
import CexHertz.Lib.Run

/-!
# The ownership state machine of a partition

`partition_ownership.go`. The guards and actions of `registerTransitions` are two functions of the
edge; `Transition` is one critical section. A coordinator keeps the records `InitiateTransfer` makes
and answers what the input of the step says.
-/

namespace CexHertz

inductive OwnershipState where
  | owned
  | migrationPending
  | frozen
  | flushing
  | transferring
  | standby
  | failed
  | unknown (n : Int)
  deriving DecidableEq, Repr

def OwnershipState.name : OwnershipState → String
  | owned => "Owned"
  | migrationPending => "MigrationPending"
  | frozen => "Frozen"
  | flushing => "Flushing"
  | transferring => "Transferring"
  | standby => "Standby"
  | failed => "Failed"
  | unknown n => "Unknown(" ++ toString n ++ ")"

structure StateTransition where
  fromState : OwnershipState
  toState : OwnershipState
  reason : String
  timestamp : Int
  actor : String
  deriving DecidableEq

structure OwnershipMetadata where
  partitionID : String
  currentOwner : String
  previousOwner : String
  targetOwner : String
  state : OwnershipState
  symbols : List String
  lastProcessedSeq : Int
  stateTransitionTime : Int
  migrationStartTime : Int
  checkpointSeq : Int
  transferID : String
  kafkaOffset : String → Option Int
  version : Int64
  transitionHistory : List StateTransition

structure OwnershipTransfer where
  partitionID : String
  fromOwner : String
  toOwner : String
  checkpointSeq : Int
  deriving DecidableEq

structure TransferCoordinator where
  transfers : String → Option OwnershipTransfer

structure OwnershipStateMachine where
  metadata : OwnershipMetadata
  /-- A `time.Duration` in nanoseconds. -/
  migrationTimeout : Int
  transferCoordinator : Option TransferCoordinator

structure TransitionInput where
  now : Int
  stateTime : Int
  historyTime : Int
  initiateTransfer : Except String String
  isTargetReady : Except String Bool

def newOwnershipStateMachine (partitionID owner : String) (symbols : List String) (now : Int)
    (coordinator : Option TransferCoordinator) : OwnershipStateMachine where
  metadata :=
    { partitionID := partitionID
      currentOwner := owner
      previousOwner := ""
      targetOwner := ""
      state := .owned
      symbols := symbols
      lastProcessedSeq := 0
      stateTransitionTime := now
      migrationStartTime := 0
      checkpointSeq := 0
      transferID := ""
      kafkaOffset := fun _ => none
      version := 1
      transitionHistory := [] }
  migrationTimeout := 30 * 10 ^ 9
  transferCoordinator := coordinator

/-- `int64(d.Seconds())`: seconds and the rest are added as floats. -/
def durationSeconds (d : Int) : Int :=
  FloatText.truncate (Binary64.nearest
    (d.tdiv (10 ^ 9) + Binary64.nearest ((d.tmod (10 ^ 9) : ℚ) / 10 ^ 9)))

namespace OwnershipStateMachine

variable (fsm : OwnershipStateMachine)

/-! ## Transitions -/

/-- The guard of an edge: its verdict and error, `none` if the edge is not registered. -/
def guard (input : TransitionInput) :
    OwnershipState → OwnershipState → Option (Bool × Option String)
  | .owned, .migrationPending =>
    some (if fsm.metadata.targetOwner = "" then (false, some "TargetOwner not set")
      else if fsm.metadata.targetOwner = fsm.metadata.currentOwner then
        (false, some "Cannot migrate to same owner")
      else (true, none))
  | .migrationPending, .frozen =>
    some (if input.now - fsm.metadata.migrationStartTime > durationSeconds fsm.migrationTimeout then
        (false, some "Migration timeout")
      else (true, none))
  | .frozen, .flushing => some (true, none)
  | .flushing, .transferring =>
    -- with or without a coordinator the test is the same
    some (if fsm.metadata.checkpointSeq ≤ fsm.metadata.lastProcessedSeq then (true, none)
      else (false, some "checkpoint not persisted"))
  | .transferring, .standby =>
    some (match fsm.transferCoordinator with
      | none => (true, none)
      | some _ =>
        if fsm.metadata.transferID = "" then (false, some "no transfer record")
        else
          match input.isTargetReady with
          | .error err => (false, some err)
          | .ok ready => (ready, none))
  | .migrationPending, .failed => some (true, none)
  | .frozen, .failed => some (true, none)
  | .flushing, .failed => some (true, none)
  | .transferring, .failed => some (true, none)
  | .failed, .owned => some (true, none)
  | _, _ => none

def action (input : TransitionInput) :
    OwnershipState → OwnershipState → Except String OwnershipStateMachine
  | .owned, .migrationPending =>
    .ok { fsm with metadata := { fsm.metadata with migrationStartTime := input.now } }
  | .flushing, .transferring =>
    match fsm.transferCoordinator with
    | none => .ok fsm
    | some coordinator =>
      match input.initiateTransfer with
      | .error err => .error ("InitiateTransfer failed: " ++ err)
      | .ok transferID =>
        let transfer : OwnershipTransfer :=
          { partitionID := fsm.metadata.partitionID
            fromOwner := fsm.metadata.currentOwner
            toOwner := fsm.metadata.targetOwner
            checkpointSeq := fsm.metadata.checkpointSeq }
        .ok { fsm with
          metadata := { fsm.metadata with transferID := transferID }
          transferCoordinator :=
            some ⟨Function.update coordinator.transfers transferID (some transfer)⟩ }
  | .transferring, .standby =>
    .ok { fsm with
      metadata := { fsm.metadata with
        previousOwner := fsm.metadata.currentOwner
        currentOwner := fsm.metadata.targetOwner
        targetOwner := "" } }
  | .migrationPending, .failed | .frozen, .failed | .flushing, .failed | .transferring, .failed
  | .failed, .owned => .ok { fsm with metadata := { fsm.metadata with targetOwner := "" } }
  | _, _ => .ok fsm

def limitHistory (history : List StateTransition) : List StateTransition :=
  if history.length > 100 then history.drop (history.length - 100) else history

def enter (fromState toState : OwnershipState) (reason actor : String) (input : TransitionInput) :
    OwnershipStateMachine :=
  { fsm with
    metadata := { fsm.metadata with
      state := toState
      stateTransitionTime := input.stateTime
      version := fsm.metadata.version + 1
      transitionHistory := limitHistory (fsm.metadata.transitionHistory ++
        [⟨fromState, toState, reason, input.historyTime, actor⟩]) } }

def transition (toState : OwnershipState) (reason actor : String) (input : TransitionInput) :
    Except String OwnershipStateMachine :=
  let fromState := fsm.metadata.state
  match fsm.guard input fromState toState with
  | none => .error ("Invalid transition: " ++ fromState.name ++ " -> " ++ toState.name)
  | some (allowed, err) =>
    if allowed = false ∨ err ≠ none then
      .error ("Transition guard failed: " ++ err.getD "%!w(<nil>)")
    else
      match fsm.action input fromState toState with
      | .error err => .error ("Transition action failed: " ++ err)
      | .ok fsm' => .ok (fsm'.enter fromState toState reason actor input)

/-! ## The other sections -/

def setTargetOwner (targetOwner : String) : OwnershipStateMachine :=
  { fsm with metadata := { fsm.metadata with targetOwner := targetOwner } }

def updateLastProcessedSeq (seq : Int) : Except String OwnershipStateMachine :=
  if seq < fsm.metadata.lastProcessedSeq then
    .error ("Seq cannot go backward: " ++ toString fsm.metadata.lastProcessedSeq ++ " -> " ++
      toString seq)
  else
    .ok { fsm with
      metadata := { fsm.metadata with
        lastProcessedSeq := seq
        version := fsm.metadata.version + 1 } }

def updateCheckpoint (seq : Int) : Except String OwnershipStateMachine :=
  if seq > fsm.metadata.lastProcessedSeq then
    .error ("Checkpoint seq cannot exceed LastProcessedSeq: " ++ toString seq ++ " > " ++
      toString fsm.metadata.lastProcessedSeq)
  else
    .ok { fsm with
      metadata := { fsm.metadata with
        checkpointSeq := seq
        version := fsm.metadata.version + 1 } }

def updateKafkaOffset (symbol : String) (offset : Int) : Except String OwnershipStateMachine :=
  if offset < 0 then .error ("Invalid Kafka offset: " ++ toString offset)
  else
    .ok { fsm with
      metadata := { fsm.metadata with
        kafkaOffset := Function.update fsm.metadata.kafkaOffset symbol (some offset)
        version := fsm.metadata.version + 1 } }

end OwnershipStateMachine

/-! ## Interleavings -/

/-- A call between its two critical sections: the write of `TargetOwner` is done, the `Transition`
is still to come. -/
inductive OpenCall where
  | startMigration (targetOwner actor : String)
  | rollback (actor : String)
  deriving DecidableEq

/-- One critical section of a public method.  `Freeze`, `Flush`, `Transfer`, `Commit` and `Recover`
are `transition` with their states and reasons; the getters change nothing and are left out. -/
inductive OwnershipAction where
  | beginStartMigration (targetOwner actor : String)
  | beginRollback (actor : String)
  | finish (call : Nat) (input : TransitionInput)
  | transition (toState : OwnershipState) (reason actor : String) (input : TransitionInput)
  | updateLastProcessedSeq (seq : Int)
  | updateCheckpoint (seq : Int)
  | updateKafkaOffset (symbol : String) (offset : Int)
  | setMigrationTimeout (timeout : Int)
  | setTransferCoordinator (coordinator : Option TransferCoordinator)

open OwnershipAction

def OwnershipAction.freeze (actor : String) := transition .frozen "Freeze" actor

def OwnershipAction.flush (actor : String) := transition .flushing "Flush" actor

def OwnershipAction.transfer (actor : String) :=
  transition .transferring "Transfer" actor

def OwnershipAction.commit (actor : String) := transition .standby "Commit" actor

def OwnershipAction.recover (actor : String) := transition .owned "Recover" actor

/-- A machine and the calls in progress on it.  Two history variables: the argument of the
`StartMigration` call whose success opened the current migration, and whether one coordinator has
been set since before the first transition. -/
structure OwnershipSystem where
  fsm : OwnershipStateMachine
  calls : List OpenCall
  openedFor : Option String
  coordinated : Bool

def newOwnershipSystem (partitionID owner : String) (symbols : List String) (now : Int)
    (coordinator : Option TransferCoordinator) : OwnershipSystem where
  fsm := newOwnershipStateMachine partitionID owner symbols now coordinator
  calls := []
  openedFor := none
  coordinated := coordinator.isSome

namespace OwnershipSystem

variable (s : OwnershipSystem)

def attempt (r : Except String OwnershipStateMachine) : OwnershipSystem :=
  match r with
  | .error _ => s
  | .ok fsm => { s with fsm := fsm }

/-- A `Transition`; `opens` is the target of the `StartMigration` call it belongs to, if any. -/
def transition (opens : Option String) (toState : OwnershipState) (reason actor : String)
    (input : TransitionInput) : OwnershipSystem :=
  match s.fsm.transition toState reason actor input with
  | .error _ => s
  | .ok fsm =>
    { s with
      fsm := fsm
      openedFor := if toState = .migrationPending then opens else s.openedFor }

def step : OwnershipAction → Option OwnershipSystem
  | .beginStartMigration targetOwner actor =>
    some { s with
      fsm := s.fsm.setTargetOwner targetOwner
      calls := s.calls ++ [.startMigration targetOwner actor] }
  | .beginRollback actor =>
    some { s with fsm := s.fsm.setTargetOwner "", calls := s.calls ++ [.rollback actor] }
  | .finish k input =>
    match s.calls[k]? with
    | none => none
    | some (.startMigration targetOwner actor) =>
      some { s.transition (some targetOwner) .migrationPending "StartMigration" actor input with
        calls := s.calls.eraseIdx k }
    | some (.rollback actor) =>
      some { s.transition none .failed "Rollback" actor input with
        calls := s.calls.eraseIdx k }
  | .transition toState reason actor input => some (s.transition none toState reason actor input)
  | .updateLastProcessedSeq seq => some (s.attempt (s.fsm.updateLastProcessedSeq seq))
  | .updateCheckpoint seq => some (s.attempt (s.fsm.updateCheckpoint seq))
  | .updateKafkaOffset symbol offset => some (s.attempt (s.fsm.updateKafkaOffset symbol offset))
  | .setMigrationTimeout timeout =>
    some { s with fsm := { s.fsm with migrationTimeout := timeout } }
  | .setTransferCoordinator coordinator =>
    some { s with
      fsm := { s.fsm with transferCoordinator := coordinator }
      coordinated := coordinator.isSome && s.fsm.metadata.transitionHistory.isEmpty }

end OwnershipSystem

end CexHertz
