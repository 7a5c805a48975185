import CexHertz.Model.TransferProtocol
import Mathlib.Data.List.Chain

/-!
# The public operations of a machine, one after the other

An operation that returns an error should leave the metadata alone, and a machine should go through
one migration after another. But `TargetOwner` is written before the transition is judged, and no
edge leaves `Standby`.
-/

namespace CexHertz

open List

inductive OwnershipOperation where
  | startMigration (targetOwner actor : String)
  | freeze (actor : String)
  | flush (actor : String)
  | transfer (actor : String)
  | commit (actor : String)
  | rollback (actor : String)
  | recover (actor : String)
  | transition (toState : OwnershipState) (reason actor : String)
  | updateLastProcessedSeq (seq : Int)
  | updateCheckpoint (seq : Int)
  | updateKafkaOffset (symbol : String) (offset : Int)

namespace OwnershipStateMachine

variable (fsm : OwnershipStateMachine)

def settle (r : Except String OwnershipStateMachine) : Option String × OwnershipStateMachine :=
  match r with
  | .error err => (some err, fsm)
  | .ok fsm' => (none, fsm')

def perform (input : TransitionInput) : OwnershipOperation → Option String × OwnershipStateMachine
  | .startMigration targetOwner actor => fsm.startMigration targetOwner actor input
  | .freeze actor => fsm.settle (fsm.transition .frozen "Freeze" actor input)
  | .flush actor => fsm.settle (fsm.transition .flushing "Flush" actor input)
  | .transfer actor => fsm.settle (fsm.transition .transferring "Transfer" actor input)
  | .commit actor => fsm.settle (fsm.transition .standby "Commit" actor input)
  | .rollback actor => fsm.rollback actor input
  | .recover actor => fsm.settle (fsm.transition .owned "Recover" actor input)
  | .transition toState reason actor => fsm.settle (fsm.transition toState reason actor input)
  | .updateLastProcessedSeq seq => fsm.settle (fsm.updateLastProcessedSeq seq)
  | .updateCheckpoint seq => fsm.settle (fsm.updateCheckpoint seq)
  | .updateKafkaOffset symbol offset => fsm.settle (fsm.updateKafkaOffset symbol offset)

def FailsWithoutEffect (input : TransitionInput) (op : OwnershipOperation) : Prop :=
  ∀ err, (fsm.perform input op).1 = some err → (fsm.perform input op).2.metadata = fsm.metadata

/-- The early write of `TargetOwner` is made good by a transition that is legal, or writes what is
there already. -/
def KeepsTarget : OwnershipOperation → Prop
  | .startMigration targetOwner _ =>
    targetOwner = fsm.metadata.targetOwner ∨
      fsm.metadata.state = .owned ∧ targetOwner ≠ "" ∧ targetOwner ≠ fsm.metadata.currentOwner
  | .rollback _ => fsm.metadata.targetOwner = "" ∨ fsm.metadata.state.inFlight = true
  | _ => True

variable {fsm} {input : TransitionInput}

theorem startMigration_eq (targetOwner actor : String) :
    fsm.startMigration targetOwner actor input = (fsm.setTargetOwner targetOwner).settle
      ((fsm.setTargetOwner targetOwner).transition .migrationPending "StartMigration" actor
        input) := rfl

theorem rollback_eq (actor : String) : fsm.rollback actor input = (fsm.setTargetOwner "").settle
      ((fsm.setTargetOwner "").transition .failed "Rollback" actor input) := rfl

theorem settle_failsWithoutEffect (r : Except String OwnershipStateMachine) (err : String)
    (herr : (fsm.settle r).1 = some err) : (fsm.settle r).2.metadata = fsm.metadata := by
  cases r with
  | error _ => rfl
  | ok _ => cases herr

theorem setTargetOwner_metadata_eq_iff (targetOwner : String) :
    (fsm.setTargetOwner targetOwner).metadata = fsm.metadata ↔
      targetOwner = fsm.metadata.targetOwner := by
  constructor
  · intro h
    exact congrArg OwnershipMetadata.targetOwner h
  · rintro rfl
    rfl

-- Only from `Owned`, and only to a named node other than the owner.
theorem transition_migrationPending_ok_iff (reason actor : String) :
    (∃ fsm', fsm.transition .migrationPending reason actor input = .ok fsm') ↔
      fsm.metadata.state = .owned ∧ fsm.metadata.targetOwner ≠ "" ∧
        fsm.metadata.targetOwner ≠ fsm.metadata.currentOwner := by
  constructor
  · rintro ⟨fsm', h⟩
    obtain ⟨mid, hedge, -⟩ := transition_edge h
    generalize hstate : fsm.metadata.state = state at hedge
    cases hedge with
    | start hset hother => exact ⟨rfl, hset, hother⟩
  · rintro ⟨hstate, hset, hother⟩
    unfold transition
    rw [hstate]
    simp [guard, action, hset, hother]

theorem transition_failed_ok_iff (reason actor : String) :
    (∃ fsm', fsm.transition .failed reason actor input = .ok fsm') ↔
      fsm.metadata.state.inFlight = true := by
  constructor
  · rintro ⟨fsm', h⟩
    obtain ⟨mid, hedge, -⟩ := transition_edge h
    generalize hstate : fsm.metadata.state = state at hedge
    cases hedge with
    | fail hflight => exact hflight
  · intro hflight
    obtain ⟨fsm', h, -⟩ := transition_failed_of_inFlight hflight reason actor input
    exact ⟨fsm', h⟩

theorem early_write_failsWithoutEffect_iff (targetOwner : String)
    (r : Except String OwnershipStateMachine) :
    (∀ err, ((fsm.setTargetOwner targetOwner).settle r).1 = some err →
      ((fsm.setTargetOwner targetOwner).settle r).2.metadata = fsm.metadata) ↔
      targetOwner = fsm.metadata.targetOwner ∨ ∃ fsm', r = .ok fsm' := by
  cases r with
  | error err =>
    constructor
    · intro h
      exact .inl ((setTargetOwner_metadata_eq_iff targetOwner).mp (h err rfl))
    · rintro (hsame | ⟨fsm', h⟩)
      · intro _ _
        exact (setTargetOwner_metadata_eq_iff targetOwner).mpr hsame
      · cases h
  | ok fsm' =>
    refine iff_of_true ?_ (.inr ⟨fsm', rfl⟩)
    intro err herr
    cases herr

/-- For every state and every operation with any arguments, clock readings and coordinator answers:
a failed call has no effect exactly if its early write of `TargetOwner` has none or is followed by a
legal transition. -/
theorem failed_operation_without_effect_iff (fsm : OwnershipStateMachine) (input : TransitionInput)
    (op : OwnershipOperation) : fsm.FailsWithoutEffect input op ↔ fsm.KeepsTarget op := by
  cases op with
  | startMigration targetOwner actor =>
    unfold FailsWithoutEffect
    rw [perform, startMigration_eq, early_write_failsWithoutEffect_iff,
      transition_migrationPending_ok_iff]
    rfl
  | rollback actor =>
    unfold FailsWithoutEffect
    rw [perform, rollback_eq, early_write_failsWithoutEffect_iff, transition_failed_ok_iff, eq_comm]
    rfl
  | freeze | flush | transfer | commit | recover | transition | updateLastProcessedSeq
  | updateCheckpoint | updateKafkaOffset => exact iff_of_true (settle_failsWithoutEffect _) trivial

/-- A second `StartMigration` is refused and redirects the migration under way. -/
theorem refused_startMigration_has_effect :
    ∃ fsm, (newOwnershipStateMachine "p" "A" [] 0 none).perform quietInput
        (.startMigration "B" "x") = (none, fsm) ∧
      (fsm.perform quietInput (.startMigration "C" "x")).1 =
        some "Invalid transition: MigrationPending -> MigrationPending" ∧
      fsm.metadata.targetOwner = "B" ∧
      (fsm.perform quietInput (.startMigration "C" "x")).2.metadata.targetOwner = "C" ∧
      ¬ fsm.FailsWithoutEffect quietInput (.startMigration "C" "x") := by
  refine ⟨_, rfl, rfl, rfl, rfl, fun h => ?_⟩
  have heq := congrArg OwnershipMetadata.targetOwner (h _ rfl)
  exact absurd heq (by decide)

/-! ## One migration after another -/

def accept (fsm : OwnershipStateMachine) (call : OwnershipOperation × TransitionInput) :
    Option OwnershipStateMachine :=
  match fsm.perform call.2 call.1 with
  | (some _, _) => none
  | (none, fsm') => some fsm'

def acceptAll (fsm : OwnershipStateMachine) (calls : List (OwnershipOperation × TransitionInput)) :
    Option OwnershipStateMachine :=
  calls.foldlM accept fsm

structure Stands (fsm : OwnershipStateMachine) (state : OwnershipState)
    (current previous target : String) (started : Int) : Prop where
  state : fsm.metadata.state = state
  current : fsm.metadata.currentOwner = current
  previous : fsm.metadata.previousOwner = previous
  target : fsm.metadata.targetOwner = target
  started : fsm.metadata.migrationStartTime = started
  checkpoint : fsm.metadata.checkpointSeq ≤ fsm.metadata.lastProcessedSeq
  timeout : fsm.migrationTimeout = 30 * 10 ^ 9
  coordinator : fsm.transferCoordinator = none

theorem stands_new (partitionID owner : String) (symbols : List String) (now : Int) :
    (newOwnershipStateMachine partitionID owner symbols now none).Stands .owned owner "" "" 0 :=
  ⟨rfl, rfl, rfl, rfl, rfl, Int.le_refl _, rfl, rfl⟩

theorem durationSeconds_default : durationSeconds (30 * 10 ^ 9) = 30 := by decide +kernel

theorem transition_of_guard {mid : OwnershipStateMachine} {state toState : OwnershipState}
    (hstate : fsm.metadata.state = state)
    (hguard : fsm.guard input state toState = some (true, none))
    (haction : fsm.action input state toState = .ok mid) (reason actor : String) :
    fsm.transition toState reason actor input =
      .ok (mid.enter state toState reason actor input) := by
  unfold transition
  dsimp only
  rw [hstate, hguard, haction]
  simp

theorem accept_of_transition {fsm' : OwnershipStateMachine} {toState : OwnershipState}
    {op : OwnershipOperation} {reason actor : String}
    (hop : ∃ mid : OwnershipStateMachine,
      fsm.perform input op = mid.settle (mid.transition toState reason actor input) ∧
      mid.transition toState reason actor input = .ok fsm') :
    fsm.accept (op, input) = some fsm' := by
  obtain ⟨mid, hperform, hok⟩ := hop
  unfold accept
  rw [hperform, hok]
  rfl

section

variable {state : OwnershipState} {current previous target : String} {started : Int}

theorem Stands.enter (h : fsm.Stands state current previous target started)
    (fromState toState : OwnershipState) (reason actor : String) (input : TransitionInput) :
    (fsm.enter fromState toState reason actor input).Stands toState current previous target
      started :=
  ⟨rfl, h.current, h.previous, h.target, h.started, h.checkpoint, h.timeout, h.coordinator⟩

theorem Stands.setTargetOwner (h : fsm.Stands state current previous target started)
    (owner : String) : (fsm.setTargetOwner owner).Stands state current previous owner started :=
  ⟨h.state, h.current, h.previous, rfl, h.started, h.checkpoint, h.timeout, h.coordinator⟩

theorem Stands.startMigration (h : fsm.Stands .owned current previous target started)
    {owner : String} (hset : owner ≠ "") (hother : owner ≠ current) (actor : String)
    (input : TransitionInput) :
    ∃ fsm', fsm.accept (.startMigration owner actor, input) = some fsm' ∧
      fsm'.Stands .migrationPending current previous owner input.now := by
  have hguard : (fsm.setTargetOwner owner).guard input .owned .migrationPending =
      some (true, none) := by
    show some (if owner = "" then _ else if owner = fsm.metadata.currentOwner then _ else _) = _
    rw [h.current, if_neg hset, if_neg hother]
  have hmid : ({ fsm.setTargetOwner owner with
      metadata := { (fsm.setTargetOwner owner).metadata with
        migrationStartTime := input.now } } : OwnershipStateMachine).Stands .owned current previous
      owner input.now :=
    ⟨h.state, h.current, h.previous, rfl, rfl, h.checkpoint, h.timeout, h.coordinator⟩
  exact ⟨_, accept_of_transition ⟨fsm.setTargetOwner owner, startMigration_eq owner actor,
    transition_of_guard (h.setTargetOwner owner).state hguard rfl _ actor⟩, hmid.enter ..⟩

theorem Stands.freeze (h : fsm.Stands .migrationPending current previous target started)
    (actor : String) (input : TransitionInput) (htime : input.now - started ≤ 30) :
    ∃ fsm', fsm.accept (.freeze actor, input) = some fsm' ∧
      fsm'.Stands .frozen current previous target started := by
  have hguard : fsm.guard input .migrationPending .frozen = some (true, none) := by
    show some (if input.now - fsm.metadata.migrationStartTime >
      durationSeconds fsm.migrationTimeout then _ else _) = _
    rw [h.started, h.timeout, durationSeconds_default, if_neg (by omega)]
  exact ⟨_, accept_of_transition ⟨fsm, rfl, transition_of_guard h.state hguard rfl _ actor⟩,
    h.enter ..⟩

theorem Stands.flush (h : fsm.Stands .frozen current previous target started) (actor : String)
    (input : TransitionInput) :
    ∃ fsm', fsm.accept (.flush actor, input) = some fsm' ∧
      fsm'.Stands .flushing current previous target started :=
  ⟨_, accept_of_transition ⟨fsm, rfl, transition_of_guard h.state rfl rfl _ actor⟩, h.enter ..⟩

theorem Stands.transfer (h : fsm.Stands .flushing current previous target started)
    (actor : String) (input : TransitionInput) :
    ∃ fsm', fsm.accept (.transfer actor, input) = some fsm' ∧
      fsm'.Stands .transferring current previous target started := by
  have hguard : fsm.guard input .flushing .transferring = some (true, none) := by
    show some (if fsm.metadata.checkpointSeq ≤ fsm.metadata.lastProcessedSeq then _ else _) = _
    rw [if_pos h.checkpoint]
  have haction : fsm.action input .flushing .transferring = .ok fsm := by
    unfold action
    rw [h.coordinator]
  exact ⟨_, accept_of_transition ⟨fsm, rfl, transition_of_guard h.state hguard haction _ actor⟩,
    h.enter ..⟩

theorem Stands.commit (h : fsm.Stands .transferring current previous target started)
    (actor : String) (input : TransitionInput) :
    ∃ fsm', fsm.accept (.commit actor, input) = some fsm' ∧
      fsm'.Stands .standby target current "" started := by
  have hguard : fsm.guard input .transferring .standby = some (true, none) := by
    unfold guard
    rw [h.coordinator]
  have hmid : ({ fsm with
      metadata := { fsm.metadata with
        previousOwner := fsm.metadata.currentOwner
        currentOwner := fsm.metadata.targetOwner
        targetOwner := "" } } : OwnershipStateMachine).Stands .transferring target current ""
      started :=
    ⟨h.state, h.target, h.current, rfl, h.started, h.checkpoint, h.timeout, h.coordinator⟩
  exact ⟨_, accept_of_transition ⟨fsm, rfl, transition_of_guard h.state hguard rfl _ actor⟩,
    hmid.enter ..⟩

theorem Stands.rollback (h : fsm.Stands state current previous target started)
    (hflight : state.inFlight = true) (actor : String) (input : TransitionInput) :
    ∃ fsm', fsm.accept (.rollback actor, input) = some fsm' ∧
      fsm'.Stands .failed current previous "" started := by
  have hset := h.setTargetOwner ""
  have hguard : (fsm.setTargetOwner "").guard input state .failed = some (true, none) := by
    cases state with
    | migrationPending | frozen | flushing | transferring => rfl
    | _ => cases hflight
  have haction : (fsm.setTargetOwner "").action input state .failed =
      .ok (fsm.setTargetOwner "") := by
    cases state with
    | migrationPending | frozen | flushing | transferring => rfl
    | _ => cases hflight
  exact ⟨_, accept_of_transition ⟨fsm.setTargetOwner "", rollback_eq actor,
    transition_of_guard hset.state hguard haction _ actor⟩, hset.enter ..⟩

theorem Stands.recover (h : fsm.Stands .failed current previous target started) (actor : String)
    (input : TransitionInput) :
    ∃ fsm', fsm.accept (.recover actor, input) = some fsm' ∧
      fsm'.Stands .owned current previous "" started :=
  ⟨_, accept_of_transition ⟨fsm, rfl, transition_of_guard h.state rfl rfl _ actor⟩,
    (h.setTargetOwner "").enter ..⟩

theorem Stands.standby_startMigration (h : fsm.Stands .standby current previous target started)
    (owner actor : String) : fsm.accept (.startMigration owner actor, input) = none := by
  have hnone : (fsm.setTargetOwner owner).guard input .standby .migrationPending = none := rfl
  unfold accept
  rw [perform, startMigration_eq]
  unfold transition
  dsimp only
  rw [(h.setTargetOwner owner).state, hnone]
  rfl

end

/-! ### Chains of migrations -/

structure AttemptInputs where
  actor : String
  start : TransitionInput
  freeze : TransitionInput
  flush : TransitionInput
  transfer : TransitionInput
  commit : TransitionInput
  rollback : TransitionInput
  recover : TransitionInput

def AttemptInputs.Timely (m : AttemptInputs) : Prop := m.freeze.now - m.start.now ≤ 30

def migrationCalls (owner : String) (m : AttemptInputs) :
    List (OwnershipOperation × TransitionInput) :=
  [(.startMigration owner m.actor, m.start), (.freeze m.actor, m.freeze), (.flush m.actor, m.flush),
    (.transfer m.actor, m.transfer), (.commit m.actor, m.commit)]

/-- An attempt that is given up after `progress` of the steps `Freeze`, `Flush` and `Transfer`. -/
def abandonedCalls (owner : String) (progress : Nat) (m : AttemptInputs) :
    List (OwnershipOperation × TransitionInput) :=
  (.startMigration owner m.actor, m.start) ::
    ([(.freeze m.actor, m.freeze), (.flush m.actor, m.flush),
      (.transfer m.actor, m.transfer)].take progress ++
    [(.rollback m.actor, m.rollback), (.recover m.actor, m.recover)])

structure Hop where
  owner : String
  abandoned : List (Nat × AttemptInputs)
  inputs : AttemptInputs

def Hop.calls (hop : Hop) : List (OwnershipOperation × TransitionInput) :=
  hop.abandoned.flatMap (fun a => abandonedCalls hop.owner a.1 a.2) ++
    migrationCalls hop.owner hop.inputs

def Hop.Timely (hop : Hop) : Prop := hop.inputs.Timely ∧ ∀ a ∈ hop.abandoned, a.2.Timely

section

variable {state : OwnershipState} {current previous target : String} {started : Int}

theorem acceptAll_cons {fsm' : OwnershipStateMachine} {call : OwnershipOperation × TransitionInput}
    (h : fsm.accept call = some fsm') (calls : List (OwnershipOperation × TransitionInput)) :
    fsm.acceptAll (call :: calls) = fsm'.acceptAll calls := by
  unfold acceptAll
  rw [foldlM_cons, h]
  rfl

theorem acceptAll_append {fsm' : OwnershipStateMachine}
    {calls : List (OwnershipOperation × TransitionInput)} (h : fsm.acceptAll calls = some fsm')
    (calls' : List (OwnershipOperation × TransitionInput)) :
    fsm.acceptAll (calls ++ calls') = fsm'.acceptAll calls' := by
  unfold acceptAll at h ⊢
  rw [foldlM_append, h]
  rfl

theorem Stands.migrate (h : fsm.Stands .owned current previous target started) {owner : String}
    (hset : owner ≠ "") (hother : owner ≠ current) {m : AttemptInputs} (htimely : m.Timely) :
    ∃ fsm' started', fsm.acceptAll (migrationCalls owner m) = some fsm' ∧
      fsm'.Stands .standby owner current "" started' := by
  obtain ⟨fsm₁, h₁, hs₁⟩ := h.startMigration hset hother m.actor m.start
  obtain ⟨fsm₂, h₂, hs₂⟩ := hs₁.freeze m.actor m.freeze htimely
  obtain ⟨fsm₃, h₃, hs₃⟩ := hs₂.flush m.actor m.flush
  obtain ⟨fsm₄, h₄, hs₄⟩ := hs₃.transfer m.actor m.transfer
  obtain ⟨fsm₅, h₅, hs₅⟩ := hs₄.commit m.actor m.commit
  refine ⟨fsm₅, _, ?_, hs₅⟩
  unfold migrationCalls
  rw [acceptAll_cons h₁, acceptAll_cons h₂, acceptAll_cons h₃, acceptAll_cons h₄, acceptAll_cons h₅]
  rfl

theorem Stands.giveUp (h : fsm.Stands state current previous target started)
    (hflight : state.inFlight = true) (m : AttemptInputs) :
    ∃ fsm', fsm.acceptAll [(.rollback m.actor, m.rollback), (.recover m.actor, m.recover)] =
        some fsm' ∧ fsm'.Stands .owned current previous "" started := by
  obtain ⟨fsm₁, h₁, hs₁⟩ := h.rollback hflight m.actor m.rollback
  obtain ⟨fsm₂, h₂, hs₂⟩ := hs₁.recover m.actor m.recover
  refine ⟨fsm₂, ?_, hs₂⟩
  rw [acceptAll_cons h₁, acceptAll_cons h₂]
  rfl

-- However far an attempt has come, it is in flight.
theorem Stands.advance (h : fsm.Stands .migrationPending current previous target started)
    (progress : Nat) {m : AttemptInputs} (htime : m.freeze.now - started ≤ 30) :
    ∃ fsm' state', fsm.acceptAll ([(.freeze m.actor, m.freeze), (.flush m.actor, m.flush),
        (.transfer m.actor, m.transfer)].take progress) = some fsm' ∧
      state'.inFlight = true ∧ fsm'.Stands state' current previous target started := by
  obtain ⟨fsm₁, h₁, hs₁⟩ := h.freeze m.actor m.freeze htime
  obtain ⟨fsm₂, h₂, hs₂⟩ := hs₁.flush m.actor m.flush
  obtain ⟨fsm₃, h₃, hs₃⟩ := hs₂.transfer m.actor m.transfer
  match progress with
  | 0 => exact ⟨fsm, _, rfl, rfl, h⟩
  | 1 => exact ⟨fsm₁, _, acceptAll_cons h₁ [], rfl, hs₁⟩
  | 2 => exact ⟨fsm₂, _, (acceptAll_cons h₁ _).trans (acceptAll_cons h₂ []), rfl, hs₂⟩
  | _ + 3 =>
    refine ⟨fsm₃, _, ?_, rfl, hs₃⟩
    simp only [take_succ_cons, take_nil]
    rw [acceptAll_cons h₁, acceptAll_cons h₂, acceptAll_cons h₃]
    rfl

theorem Stands.abandon (h : fsm.Stands .owned current previous target started) {owner : String}
    (hset : owner ≠ "") (hother : owner ≠ current) (progress : Nat) {m : AttemptInputs}
    (htimely : m.Timely) :
    ∃ fsm' started', fsm.acceptAll (abandonedCalls owner progress m) = some fsm' ∧
      fsm'.Stands .owned current previous "" started' := by
  obtain ⟨fsm₁, h₁, hs₁⟩ := h.startMigration hset hother m.actor m.start
  obtain ⟨fsm₂, state, h₂, hflight, hs₂⟩ := hs₁.advance progress htimely
  obtain ⟨fsm₃, h₃, hs₃⟩ := hs₂.giveUp hflight m
  refine ⟨fsm₃, _, ?_, hs₃⟩
  unfold abandonedCalls
  rw [acceptAll_cons h₁, acceptAll_append h₂, h₃]

theorem Stands.abandonAll (h : fsm.Stands .owned current previous target started)
    {owner : String} (hset : owner ≠ "") (hother : owner ≠ current)
    {abandoned : List (Nat × AttemptInputs)} (htimely : ∀ a ∈ abandoned, a.2.Timely) :
    ∃ fsm' target' started',
      fsm.acceptAll (abandoned.flatMap fun a => abandonedCalls owner a.1 a.2) = some fsm' ∧
      fsm'.Stands .owned current previous target' started' := by
  induction abandoned generalizing fsm target started with
  | nil => exact ⟨fsm, target, started, rfl, h⟩
  | cons a rest ih =>
    obtain ⟨fsm₁, started₁, h₁, hs₁⟩ :=
      h.abandon hset hother a.1 (htimely a mem_cons_self)
    obtain ⟨fsm₂, target₂, started₂, h₂, hs₂⟩ :=
      ih hs₁ fun b hb => htimely b (.tail _ hb)
    refine ⟨fsm₂, target₂, started₂, ?_, hs₂⟩
    rw [flatMap_cons, acceptAll_append h₁, h₂]

theorem Stands.hop (h : fsm.Stands .owned current previous target started) {hop : Hop}
    (hset : hop.owner ≠ "") (hother : hop.owner ≠ current) (htimely : hop.Timely) :
    ∃ fsm' started', fsm.acceptAll hop.calls = some fsm' ∧
      fsm'.Stands .standby hop.owner current "" started' := by
  obtain ⟨fsm₁, target₁, started₁, h₁, hs₁⟩ := h.abandonAll hset hother htimely.2
  obtain ⟨fsm₂, started₂, h₂, hs₂⟩ := hs₁.migrate hset hother htimely.1
  refine ⟨fsm₂, started₂, ?_, hs₂⟩
  unfold Hop.calls
  rw [acceptAll_append h₁, h₂]

-- A hop starts with `StartMigration`, whether its first attempt is abandoned or not.
theorem hop_calls_cons (hop : Hop) : ∃ actor input rest,
    hop.calls = (.startMigration hop.owner actor, input) :: rest := by
  unfold Hop.calls
  cases hop.abandoned with
  | nil | cons => exact ⟨_, _, _, rfl⟩

end

def lastOwners (owner : String) (hops : List Hop) : String × String :=
  hops.foldl (fun owners hop => (hop.owner, owners.1)) (owner, "")

/-- All calls of the chain succeed, and the last two owners are the current and the previous one. -/
def MigratesThrough (partitionID owner : String) (symbols : List String) (now : Int)
    (hops : List Hop) : Prop :=
  ∃ fsm, (newOwnershipStateMachine partitionID owner symbols now none).acceptAll
      (hops.flatMap Hop.calls) = some fsm ∧
    (fsm.metadata.currentOwner, fsm.metadata.previousOwner) = lastOwners owner hops

/-- For every chain of owners, each named and different from the one before, with any number of
abandoned attempts on the way and no timeouts: a machine takes the partition through the chain
exactly if the chain has at most one migration. -/
theorem migratesThrough_iff (partitionID owner : String) (symbols : List String) (now : Int)
    (hops : List Hop) (hnamed : ∀ hop ∈ hops, hop.owner ≠ "")
    (hchain : (owner :: hops.map Hop.owner).IsChain (· ≠ ·)) (htimely : ∀ hop ∈ hops, hop.Timely) :
    MigratesThrough partitionID owner symbols now hops ↔ hops.length ≤ 1 := by
  have hstart := stands_new partitionID owner symbols now
  cases hops with
  | nil => exact iff_of_true ⟨_, rfl, rfl⟩ (Nat.zero_le 1)
  | cons hop rest =>
    have hother : hop.owner ≠ owner := by
      rw [map_cons, isChain_cons_cons] at hchain
      exact hchain.1.symm
    obtain ⟨fsm, started, hcalls, hstands⟩ :=
      hstart.hop (hnamed hop mem_cons_self) hother (htimely hop mem_cons_self)
    unfold MigratesThrough
    rw [flatMap_cons, acceptAll_append hcalls]
    cases rest with
    | nil =>
      refine iff_of_true ⟨fsm, rfl, ?_⟩ (Nat.le_refl 1)
      rw [hstands.current, hstands.previous]
      rfl
    | cons next rest =>
      -- the second migration starts in `Standby`
      refine iff_of_false ?_ (by simp)
      rintro ⟨fsm', haccepted, -⟩
      obtain ⟨actor, input, calls, hnext⟩ := hop_calls_cons next
      rw [flatMap_cons, hnext] at haccepted
      unfold acceptAll at haccepted
      rw [cons_append, foldlM_cons, hstands.standby_startMigration] at haccepted
      cases haccepted

def quietAttempt : AttemptInputs :=
  ⟨"x", quietInput, quietInput, quietInput, quietInput, quietInput, quietInput, quietInput⟩

def hopAfterAbandoned (owner : String) : Hop := ⟨owner, [(1, quietAttempt)], quietAttempt⟩

theorem hopAfterAbandoned_timely (owner : String) : (hopAfterAbandoned owner).Timely := by
  have htimely : quietAttempt.Timely := by
    show quietInput.now - quietInput.now ≤ 30
    decide
  refine ⟨htimely, fun a ha => ?_⟩
  rwa [List.mem_singleton.mp ha]

/-- After the migration to `B` nothing leads on to `C`. -/
theorem second_migration_refused :
    (∃ fsm, (newOwnershipStateMachine "p" "A" [] 0 none).acceptAll (hopAfterAbandoned "B").calls =
        some fsm ∧
      (fsm.perform quietInput (.startMigration "C" "x")).1 =
        some "Invalid transition: Standby -> MigrationPending") ∧
    ¬ MigratesThrough "p" "A" [] 0 [hopAfterAbandoned "B", hopAfterAbandoned "C"] := by
  have hfirst : ((newOwnershipStateMachine "p" "A" [] 0 none).acceptAll
      (hopAfterAbandoned "B").calls).any (fun fsm =>
        (fsm.perform quietInput (.startMigration "C" "x")).1 =
          some "Invalid transition: Standby -> MigrationPending") = true := by
    decide +kernel
  have hboth : ((newOwnershipStateMachine "p" "A" [] 0 none).acceptAll
      ([hopAfterAbandoned "B", hopAfterAbandoned "C"].flatMap Hop.calls)).isNone = true := by
    decide +kernel
  obtain ⟨fsm, hfsm, herr⟩ := Run.exists_of_any hfirst
  refine ⟨⟨fsm, hfsm, of_decide_eq_true herr⟩, ?_⟩
  rintro ⟨fsm', haccepted, -⟩
  rw [haccepted] at hboth
  cases hboth

theorem first_migration_goes_through : MigratesThrough "p" "A" [] 0 [hopAfterAbandoned "B"] :=
  (migratesThrough_iff "p" "A" [] 0 [hopAfterAbandoned "B"]
    (by
      intro hop hhop
      rw [List.mem_singleton.mp hhop]
      decide)
    (by
      show ["A", "B"].IsChain (· ≠ ·)
      decide)
    (by
      intro hop hhop
      rw [List.mem_singleton.mp hhop]
      exact hopAfterAbandoned_timely "B")).mpr (Nat.le_refl 1)

end OwnershipStateMachine

end CexHertz
