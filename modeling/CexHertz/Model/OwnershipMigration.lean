import CexHertz.Model.PartitionOwnership

/-!
# Where ownership goes

`StartMigration` and `Rollback` write `TargetOwner` in a critical section of their own, before the
transition decides whether the call is legal. Ownership goes where the accepted migration said as
long as these writes do not disturb a migration under way.
-/

namespace CexHertz

open List OwnershipSystem OpenCall OwnershipStateMachine

def OwnershipState.inFlight : OwnershipState → Bool
  | .migrationPending | .frozen | .flushing | .transferring => true
  | _ => false

namespace OwnershipStateMachine

variable {fsm fsm' mid : OwnershipStateMachine} {toState : OwnershipState} {reason actor : String}
  {input : TransitionInput}

-- Guard, action and bookkeeping, in this order; an error at any point leaves the machine alone.
theorem transition_eq_ok (h : fsm.transition toState reason actor input = .ok fsm') :
    fsm.guard input fsm.metadata.state toState = some (true, none) ∧
    ∃ mid, fsm.action input fsm.metadata.state toState = .ok mid ∧
      fsm' = mid.enter fsm.metadata.state toState reason actor input := by
  unfold transition at h
  dsimp only at h
  split at h
  next => cases h
  next allowed err hguard =>
    split at h
    next => cases h
    next hpass =>
      rw [not_or, not_not, Bool.not_eq_false] at hpass
      obtain ⟨rfl, rfl⟩ := hpass
      refine ⟨hguard, ?_⟩
      split at h
      next => cases h
      next mid haction => exact ⟨mid, haction, by injection h with h; exact h.symm⟩

inductive Edge (fsm : OwnershipStateMachine) (input : TransitionInput) :
    OwnershipState → OwnershipState → OwnershipStateMachine → Prop
  | start (hset : fsm.metadata.targetOwner ≠ "")
      (hother : fsm.metadata.targetOwner ≠ fsm.metadata.currentOwner) :
      Edge fsm input .owned .migrationPending
        { fsm with metadata := { fsm.metadata with migrationStartTime := input.now } }
  | freeze (htime : input.now - fsm.metadata.migrationStartTime ≤
        durationSeconds fsm.migrationTimeout) :
      Edge fsm input .migrationPending .frozen fsm
  | flush : Edge fsm input .frozen .flushing fsm
  | transfer (hcheckpoint : fsm.metadata.checkpointSeq ≤ fsm.metadata.lastProcessedSeq)
      (hnone : fsm.transferCoordinator = none) :
      Edge fsm input .flushing .transferring fsm
  | initiate (hcheckpoint : fsm.metadata.checkpointSeq ≤ fsm.metadata.lastProcessedSeq)
      {coordinator : TransferCoordinator} (hsome : fsm.transferCoordinator = some coordinator)
      {transferID : String} (hid : input.initiateTransfer = .ok transferID)
      {transfer : OwnershipTransfer} (hto : transfer.toOwner = fsm.metadata.targetOwner) :
      Edge fsm input .flushing .transferring
        { fsm with
          metadata := { fsm.metadata with transferID := transferID }
          transferCoordinator :=
            some ⟨Function.update coordinator.transfers transferID (some transfer)⟩ }
  | commit : Edge fsm input .transferring .standby
      { fsm with
        metadata := { fsm.metadata with
          previousOwner := fsm.metadata.currentOwner
          currentOwner := fsm.metadata.targetOwner
          targetOwner := "" } }
  | fail {fromState : OwnershipState} (hflight : fromState.inFlight = true) :
      Edge fsm input fromState .failed (fsm.setTargetOwner "")
  | recover : Edge fsm input .failed .owned (fsm.setTargetOwner "")

-- Every registered edge, with the guard that let it through.
theorem edge_of_guard {fromState : OwnershipState}
    (hguard : fsm.guard input fromState toState = some (true, none))
    (haction : fsm.action input fromState toState = .ok mid) :
    Edge fsm input fromState toState mid := by
  unfold guard at hguard
  split at hguard
  -- the edges in the order in which they are registered
  · cases haction
    rw [Option.some.injEq] at hguard
    split at hguard
    next => simp at hguard
    next hset =>
      split at hguard
      next => simp at hguard
      next hother => exact .start hset hother
  · cases haction
    rw [Option.some.injEq] at hguard
    split at hguard
    next => simp at hguard
    next htime => exact .freeze (not_lt.mp htime)
  · cases haction
    exact .flush
  · rw [Option.some.injEq] at hguard
    split at hguard
    next hcheckpoint =>
      unfold action at haction
      dsimp only at haction
      split at haction
      next hnone =>
        cases haction
        exact .transfer hcheckpoint hnone
      next coordinator hsome =>
        split at haction
        next => cases haction
        next transferID hid =>
          cases haction
          exact .initiate hcheckpoint hsome hid rfl
    next => simp at hguard
  · cases haction
    exact .commit
  · cases haction
    exact .fail rfl
  · cases haction
    exact .fail rfl
  · cases haction
    exact .fail rfl
  · cases haction
    exact .fail rfl
  · cases haction
    exact .recover
  · cases hguard

theorem transition_edge (h : fsm.transition toState reason actor input = .ok fsm') :
    ∃ mid, Edge fsm input fsm.metadata.state toState mid ∧
      fsm' = mid.enter fsm.metadata.state toState reason actor input := by
  obtain ⟨hguard, mid, haction, heq⟩ := transition_eq_ok h
  exact ⟨mid, edge_of_guard hguard haction, heq⟩

theorem transition_failed_of_inFlight (hflight : fsm.metadata.state.inFlight = true)
    (reason actor : String) (input : TransitionInput) :
    ∃ fsm', fsm.transition .failed reason actor input = .ok fsm' ∧
      fsm'.metadata.state = .failed := by
  unfold transition
  cases hstate : fsm.metadata.state with
  | migrationPending | frozen | flushing | transferring => exact ⟨_, rfl, rfl⟩
  | _ =>
    rw [hstate] at hflight
    cases hflight

structure SameMigration (fsm fsm' : OwnershipStateMachine) : Prop where
  state : fsm'.metadata.state = fsm.metadata.state
  currentOwner : fsm'.metadata.currentOwner = fsm.metadata.currentOwner
  targetOwner : fsm'.metadata.targetOwner = fsm.metadata.targetOwner
  transferID : fsm'.metadata.transferID = fsm.metadata.transferID
  history : fsm'.metadata.transitionHistory = fsm.metadata.transitionHistory
  coordinator : fsm'.transferCoordinator = fsm.transferCoordinator

inductive Progressed (fsm : OwnershipStateMachine) : OwnershipStateMachine → Prop
  | mk (lastProcessedSeq checkpointSeq : Int) (kafkaOffset : String → Option Int)
      (version : Int64) :
      Progressed fsm { fsm with
        metadata := { fsm.metadata with
          lastProcessedSeq := lastProcessedSeq
          checkpointSeq := checkpointSeq
          kafkaOffset := kafkaOffset
          version := version } }

theorem Progressed.refl (fsm : OwnershipStateMachine) : fsm.Progressed fsm := .mk _ _ _ _

theorem Progressed.sameMigration (h : fsm.Progressed fsm') : fsm.SameMigration fsm' := by
  cases h
  exact ⟨rfl, rfl, rfl, rfl, rfl, rfl⟩

theorem updateLastProcessedSeq_eq_ok {seq : Int} (h : fsm.updateLastProcessedSeq seq = .ok fsm') :
    fsm.metadata.lastProcessedSeq ≤ seq ∧
    fsm' = { fsm with
      metadata := { fsm.metadata with
        lastProcessedSeq := seq
        version := fsm.metadata.version + 1 } } := by
  unfold updateLastProcessedSeq at h
  split at h
  · cases h
  next hle =>
    cases h
    exact ⟨Int.not_lt.mp hle, rfl⟩

theorem updateCheckpoint_eq_ok {seq : Int} (h : fsm.updateCheckpoint seq = .ok fsm') :
    seq ≤ fsm.metadata.lastProcessedSeq ∧
    fsm' = { fsm with
      metadata := { fsm.metadata with
        checkpointSeq := seq
        version := fsm.metadata.version + 1 } } := by
  unfold updateCheckpoint at h
  split at h
  · cases h
  next hle =>
    cases h
    exact ⟨Int.not_lt.mp hle, rfl⟩

theorem updateKafkaOffset_eq_ok {symbol : String} {offset : Int}
    (h : fsm.updateKafkaOffset symbol offset = .ok fsm') :
    0 ≤ offset ∧
    fsm' = { fsm with
      metadata := { fsm.metadata with
        kafkaOffset := Function.update fsm.metadata.kafkaOffset symbol (some offset)
        version := fsm.metadata.version + 1 } } := by
  unfold updateKafkaOffset at h
  split at h
  · cases h
  next hle =>
    cases h
    exact ⟨Int.not_lt.mp hle, rfl⟩

-- The cap drops the oldest transitions, so the newest one is always there.
theorem limitHistory_ne_nil (history : List StateTransition) (t : StateTransition) :
    limitHistory (history ++ [t]) ≠ [] := by
  unfold limitHistory
  split
  · intro h
    have hlen := congrArg List.length h
    simp only [length_drop, length_append, length_singleton, length_nil] at hlen
    omega
  · simp

end OwnershipStateMachine

/-! ## Critical sections -/

structure TransitionCall where
  opens : Option String
  toState : OwnershipState
  reason : String
  actor : String
  input : TransitionInput

def OwnershipAction.transitionCall (calls : List OpenCall) : OwnershipAction → Option TransitionCall
  | .finish k input =>
    match calls[k]? with
    | none => none
    | some (.startMigration targetOwner actor) =>
      some ⟨some targetOwner, .migrationPending, "StartMigration", actor, input⟩
    | some (.rollback actor) => some ⟨none, .failed, "Rollback", actor, input⟩
  | .transition toState reason actor input => some ⟨none, toState, reason, actor, input⟩
  | _ => none

-- The second sections lead to `MigrationPending` and to `Failed`.
theorem OwnershipAction.eq_of_transitionCall_standby {calls : List OpenCall}
    {action : OwnershipAction} {call : TransitionCall}
    (hcall : action.transitionCall calls = some call) (hto : call.toState = .standby) :
    ∃ reason actor input, action = .transition .standby reason actor input := by
  cases action with
  | transition toState reason actor input =>
    cases hcall
    exact ⟨reason, actor, input, by rw [← hto]⟩
  | finish k input =>
    rw [transitionCall] at hcall
    split at hcall
    all_goals cases hcall
    all_goals cases hto
  | _ => cases hcall

/-- What a critical section does to the machine: it runs a transition, or an update, or writes one
of the fields that are set from outside. -/
inductive SectionMove (s : OwnershipSystem) (action : OwnershipAction) :
    OwnershipStateMachine → Prop
  | transition {call : TransitionCall} (hcall : action.transitionCall s.calls = some call) :
      SectionMove s action
        (s.transition call.opens call.toState call.reason call.actor call.input).fsm
  | progress {fsm' : OwnershipStateMachine} (hcall : action.transitionCall s.calls = none)
      (h : s.fsm.Progressed fsm') : SectionMove s action fsm'
  | targetOwner (hcall : action.transitionCall s.calls = none) (targetOwner : String) :
      SectionMove s action (s.fsm.setTargetOwner targetOwner)
  | migrationTimeout (hcall : action.transitionCall s.calls = none) (timeout : Int) :
      SectionMove s action { s.fsm with migrationTimeout := timeout }
  | transferCoordinator {coordinator : Option TransferCoordinator}
      (haction : action = .setTransferCoordinator coordinator) :
      SectionMove s action { s.fsm with transferCoordinator := coordinator }

namespace OwnershipSystem

variable {s s' : OwnershipSystem} {action : OwnershipAction}

-- A refused update leaves the machine as it is.
theorem attempt_cases (s : OwnershipSystem) (r : Except String OwnershipStateMachine) :
    (s.attempt r).fsm = s.fsm ∨ r = .ok (s.attempt r).fsm := by
  cases r with
  | error err => exact .inl rfl
  | ok fsm' => exact .inr rfl

theorem attempt_progressed {r : Except String OwnershipStateMachine}
    (hr : ∀ fsm', r = .ok fsm' → s.fsm.Progressed fsm') :
    s.fsm.Progressed (s.attempt r).fsm := by
  rcases s.attempt_cases r with hsame | hok
  · rw [hsame]
    exact .refl _
  · exact hr _ hok

theorem attempt_updateLastProcessedSeq (seq : Int) :
    s.fsm.Progressed (s.attempt (s.fsm.updateLastProcessedSeq seq)).fsm :=
  attempt_progressed fun _ hok => by
    rw [(updateLastProcessedSeq_eq_ok hok).2]
    exact .mk _ _ _ _

theorem attempt_updateCheckpoint (seq : Int) :
    s.fsm.Progressed (s.attempt (s.fsm.updateCheckpoint seq)).fsm :=
  attempt_progressed fun _ hok => by
    rw [(updateCheckpoint_eq_ok hok).2]
    exact .mk _ _ _ _

theorem attempt_updateKafkaOffset (symbol : String) (offset : Int) :
    s.fsm.Progressed (s.attempt (s.fsm.updateKafkaOffset symbol offset)).fsm :=
  attempt_progressed fun _ hok => by
    rw [(updateKafkaOffset_eq_ok hok).2]
    exact .mk _ _ _ _

theorem step_move (hstep : s.step action = some s') : SectionMove s action s'.fsm := by
  cases action with
  | beginStartMigration target actor =>
    cases hstep
    exact .targetOwner rfl target
  | beginRollback actor =>
    cases hstep
    exact .targetOwner rfl ""
  | finish k input =>
    rw [step] at hstep
    split at hstep
    next => cases hstep
    next target actor hk =>
      cases hstep
      have hcall : (OwnershipAction.finish k input).transitionCall s.calls =
          some ⟨some target, .migrationPending, "StartMigration", actor, input⟩ := by
        rw [OwnershipAction.transitionCall, hk]
      exact .transition hcall
    next actor hk =>
      cases hstep
      have hcall : (OwnershipAction.finish k input).transitionCall s.calls =
          some ⟨none, .failed, "Rollback", actor, input⟩ := by
        rw [OwnershipAction.transitionCall, hk]
      exact .transition hcall
  | transition toState reason actor input =>
    cases hstep
    have hcall : (OwnershipAction.transition toState reason actor input).transitionCall s.calls =
        some ⟨none, toState, reason, actor, input⟩ := rfl
    exact .transition hcall
  | updateLastProcessedSeq seq =>
    cases hstep
    exact .progress rfl (attempt_updateLastProcessedSeq seq)
  | updateCheckpoint seq =>
    cases hstep
    exact .progress rfl (attempt_updateCheckpoint seq)
  | updateKafkaOffset symbol offset =>
    cases hstep
    exact .progress rfl (attempt_updateKafkaOffset symbol offset)
  | setMigrationTimeout timeout =>
    cases hstep
    exact .migrationTimeout rfl timeout
  | setTransferCoordinator coordinator =>
    cases hstep
    exact .transferCoordinator rfl

end OwnershipSystem

/-! ## Undisturbed migrations -/

def OpenCall.isRollback : OpenCall → Bool
  | .rollback _ => true
  | .startMigration _ _ => false

def OwnershipSystem.rollingBack (s : OwnershipSystem) : Bool := s.calls.any isRollback

/-- What a step must not do to a migration under way: `StartMigration` must not write another
target into it, nor be accepted with a target another call wrote; `MigrationPending` is entered by
`StartMigration` only; and nothing is committed while a `Rollback` is between its sections. -/
def Undisturbed (s : OwnershipSystem) : OwnershipAction → Prop
  | .beginStartMigration targetOwner _ =>
    s.fsm.metadata.state.inFlight = true → s.openedFor = some targetOwner
  | .finish k _ =>
    match s.calls[k]? with
    | some (.startMigration targetOwner _) =>
      s.fsm.metadata.state = .owned → s.fsm.metadata.targetOwner = targetOwner
    | _ => True
  | .transition toState _ _ _ =>
    (toState = .migrationPending → s.fsm.metadata.state ≠ .owned) ∧
    (toState = .standby → s.rollingBack = false)
  | _ => True

/-- A `Commit` from `s` to `s'` that hands the partition to the accepted, recorded target. -/
structure CommitOk (s s' : OwnershipSystem) : Prop where
  nonempty : s'.fsm.metadata.currentOwner ≠ ""
  moved : s'.fsm.metadata.currentOwner ≠ s.fsm.metadata.currentOwner
  accepted : s.openedFor = some s'.fsm.metadata.currentOwner
  recorded : s.coordinated = true → ∃ coordinator transfer,
    s.fsm.transferCoordinator = some coordinator ∧
    coordinator.transfers s.fsm.metadata.transferID = some transfer ∧
    transfer.toOwner = s'.fsm.metadata.currentOwner

def Commits (s s' : OwnershipSystem) : Prop :=
  s.fsm.metadata.state ≠ .standby ∧ s'.fsm.metadata.state = .standby

instance (s s' : OwnershipSystem) : Decidable (Commits s s') := inferInstanceAs (Decidable (_ ∧ _))

structure MigrationOk (s : OwnershipSystem) : Prop where
  opened : s.fsm.metadata.state.inFlight = true → ∃ target, s.openedFor = some target ∧
    target ≠ "" ∧ target ≠ s.fsm.metadata.currentOwner
  target : s.fsm.metadata.state.inFlight = true → s.rollingBack = false →
    s.openedFor = some s.fsm.metadata.targetOwner
  recorded : s.fsm.metadata.state = .transferring → s.rollingBack = false →
    s.coordinated = true → ∃ coordinator transfer, s.fsm.transferCoordinator = some coordinator ∧
      coordinator.transfers s.fsm.metadata.transferID = some transfer ∧
      s.openedFor = some transfer.toOwner
  fresh : s.fsm.metadata.transitionHistory = [] → s.fsm.metadata.state = .owned
  coordinator : s.coordinated = true → s.fsm.transferCoordinator ≠ none

namespace MigrationOk

variable {s s' : OwnershipSystem}

theorem new (partitionID owner : String) (symbols : List String) (now : Int)
    (coordinator : Option TransferCoordinator) :
    MigrationOk (newOwnershipSystem partitionID owner symbols now coordinator) where
  opened := nofun
  target := nofun
  recorded := nofun
  fresh := fun _ => rfl
  coordinator := by
    intro h heq
    subst heq
    cases h

theorem of_not_inFlight (hflight : s.fsm.metadata.state.inFlight = false)
    (hfresh : s.fsm.metadata.transitionHistory = [] → s.fsm.metadata.state = .owned)
    (hcoordinator : s.coordinated = true → s.fsm.transferCoordinator ≠ none) : MigrationOk s where
  opened := fun h => by rw [hflight] at h; cases h
  target := fun h => by rw [hflight] at h; cases h
  recorded := fun h => by rw [h] at hflight; cases hflight
  fresh := hfresh
  coordinator := hcoordinator

theorem transition (h : MigrationOk s) {opens : Option String} {toState : OwnershipState}
    {reason actor : String} {input : TransitionInput}
    (hopens : toState = .migrationPending → s.fsm.metadata.state = .owned →
      opens = some s.fsm.metadata.targetOwner) :
    MigrationOk (s.transition opens toState reason actor input) := by
  unfold OwnershipSystem.transition
  split
  next => exact h
  next fsm' hok =>
    obtain ⟨mid, hedge, rfl⟩ := transition_edge hok
    have hfresh : ∀ m : OwnershipStateMachine,
        (m.enter s.fsm.metadata.state toState reason actor input).metadata.transitionHistory = [] →
        toState = .owned :=
      fun m hnil => absurd hnil (limitHistory_ne_nil _ _)
    generalize hfrom : s.fsm.metadata.state = fromState at hedge hfresh ⊢
    have hflight : fromState.inFlight = true → s.fsm.metadata.state.inFlight = true := by
      rw [hfrom]
      exact id
    cases hedge with
    | start hset hother =>
      have hopen := hopens rfl hfrom
      exact ⟨fun _ => ⟨_, hopen, hset, hother⟩, fun _ _ => hopen, nofun, hfresh _, h.coordinator⟩
    | freeze | flush =>
      exact ⟨fun _ => h.opened (hflight rfl), fun _ => h.target (hflight rfl), nofun, hfresh _,
        h.coordinator⟩
    | transfer _ hnone =>
      exact ⟨fun _ => h.opened (hflight rfl), fun _ => h.target (hflight rfl),
        fun _ _ hcoord => absurd hnone (h.coordinator hcoord), hfresh _, h.coordinator⟩
    | initiate _ hsome _ hto =>
      refine ⟨fun _ => h.opened (hflight rfl), fun _ => h.target (hflight rfl),
        fun _ hroll _ => ⟨_, _, rfl, Function.update_self _ _ _, ?_⟩, hfresh _,
        fun _ hnone => by cases hnone⟩
      rw [hto]
      exact h.target (hflight rfl) hroll
    | commit | fail | recover => exact of_not_inFlight rfl (hfresh _) h.coordinator

theorem attempt (h : MigrationOk s) {r : Except String OwnershipStateMachine}
    (hr : s.fsm.Progressed (s.attempt r).fsm) : MigrationOk (s.attempt r) := by
  obtain ⟨hstate, howner, htarget, hid, hhistory, hcoordinator⟩ := hr.sameMigration
  have hrest : (s.attempt r).calls = s.calls ∧ (s.attempt r).openedFor = s.openedFor ∧
      (s.attempt r).coordinated = s.coordinated := by
    unfold OwnershipSystem.attempt
    split <;> exact ⟨rfl, rfl, rfl⟩
  obtain ⟨hcalls, hopened, hcoordinated⟩ := hrest
  refine ⟨?_, ?_, ?_, ?_, ?_⟩
  · rw [hstate, howner, hopened]
    exact h.opened
  · rw [hstate, htarget, hopened, rollingBack, hcalls]
    exact h.target
  · rw [hstate, hid, hcoordinator, hopened, hcoordinated, rollingBack, hcalls]
    exact h.recorded
  · rw [hstate, hhistory]
    exact h.fresh
  · rw [hcoordinator, hcoordinated]
    exact h.coordinator

/-- Dropping a finished call: what was said about a system without pending rollbacks survives if
the call was none. -/
theorem drop_call (h : MigrationOk s) {k : Nat}
    (hcall : s.rollingBack = true → s.fsm.metadata.state.inFlight = true →
      (s.calls.eraseIdx k).any isRollback = true) :
    MigrationOk { s with calls := s.calls.eraseIdx k } := by
  have hroll : s.fsm.metadata.state.inFlight = true →
      (s.calls.eraseIdx k).any isRollback = false → s.rollingBack = false := by
    intro hflight hnone
    by_contra hne
    rw [hcall (Bool.not_eq_false _ ▸ hne) hflight] at hnone
    cases hnone
  refine ⟨h.opened, fun hf hr => h.target hf (hroll hf hr), fun hs hr => ?_, h.fresh, h.coordinator⟩
  exact h.recorded hs (hroll (by rw [hs]; rfl) hr)

-- A finished `StartMigration` leaves the pending rollbacks pending.
theorem any_eraseIdx {l : List OpenCall} {k : Nat} {call : OpenCall} (hk : l[k]? = some call)
    (hcall : call.isRollback = false) (h : l.any isRollback = true) :
    (l.eraseIdx k).any isRollback = true := by
  obtain ⟨hlt, rfl⟩ := List.getElem?_eq_some_iff.mp hk
  rw [← take_append_drop k l, drop_eq_getElem_cons hlt, any_append, any_cons,
    hcall, Bool.false_or] at h
  rwa [eraseIdx_eq_take_drop_succ, any_append]

theorem rollback_not_inFlight (s : OwnershipSystem) (reason actor : String)
    (input : TransitionInput) :
    (s.transition none .failed reason actor input).fsm.metadata.state.inFlight = false := by
  unfold OwnershipSystem.transition
  split
  next e herr =>
    by_contra hflight
    rw [Bool.not_eq_false] at hflight
    obtain ⟨fsm', hfsm', -⟩ :=
      transition_failed_of_inFlight hflight reason actor input
    rw [herr] at hfsm'
    cases hfsm'
  next fsm' hfsm' =>
    obtain ⟨mid, -, rfl⟩ := transition_edge hfsm'
    rfl

@[simp] theorem transition_calls (s : OwnershipSystem) (opens : Option String)
    (toState : OwnershipState) (reason actor : String) (input : TransitionInput) :
    (s.transition opens toState reason actor input).calls = s.calls := by
  unfold OwnershipSystem.transition
  split <;> rfl

theorem step (h : MigrationOk s) {action : OwnershipAction} (hallowed : Undisturbed s action)
    (hstep : s.step action = some s') : MigrationOk s' := by
  cases action with
  | beginStartMigration target actor =>
    cases hstep
    have hroll : (s.calls ++ [startMigration target actor]).any isRollback = s.rollingBack := by
      rw [any_append]
      exact Bool.or_false _
    refine ⟨h.opened, fun hf _ => hallowed hf, fun hs hr => ?_, h.fresh, h.coordinator⟩
    exact h.recorded hs (hroll ▸ hr)
  | beginRollback actor =>
    cases hstep
    have hroll : (s.calls ++ [rollback actor]).any isRollback = true := by
      rw [any_append]
      exact Bool.or_true _
    exact ⟨h.opened, fun _ hr => absurd (hroll.symm.trans hr) (by decide),
      fun _ hr => absurd (hroll.symm.trans hr) (by decide), h.fresh, h.coordinator⟩
  | finish k input =>
    rw [OwnershipSystem.step] at hstep
    split at hstep
    next => cases hstep
    next target actor hk =>
      cases hstep
      have hopens : s.fsm.metadata.state = .owned → s.fsm.metadata.targetOwner = target := by
        simpa only [Undisturbed, hk] using hallowed
      have hnext : MigrationOk
          (s.transition (some target) .migrationPending "StartMigration" actor input) :=
        h.transition fun _ howned => congrArg some (hopens howned).symm
      have hdrop := hnext.drop_call (k := k) fun hroll _ => by
        rw [rollingBack, transition_calls] at hroll
        rw [transition_calls]
        exact any_eraseIdx hk rfl hroll
      rwa [transition_calls] at hdrop
    next actor hk =>
      cases hstep
      have hnext : MigrationOk (s.transition none .failed "Rollback" actor input) :=
        h.transition nofun
      have hdrop := hnext.drop_call (k := k) fun _ hflight =>
        absurd (hflight.symm.trans (rollback_not_inFlight s "Rollback" actor input)) (by decide)
      rwa [transition_calls] at hdrop
  | transition toState reason actor input =>
    cases hstep
    exact h.transition fun hto howned => absurd howned (hallowed.1 hto)
  | updateLastProcessedSeq seq =>
    cases hstep
    exact h.attempt (attempt_updateLastProcessedSeq seq)
  | updateCheckpoint seq =>
    cases hstep
    exact h.attempt (attempt_updateCheckpoint seq)
  | updateKafkaOffset symbol offset =>
    cases hstep
    exact h.attempt (attempt_updateKafkaOffset symbol offset)
  | setMigrationTimeout timeout =>
    cases hstep
    exact ⟨h.opened, h.target, h.recorded, h.fresh, h.coordinator⟩
  | setTransferCoordinator coordinator =>
    cases hstep
    refine ⟨h.opened, h.target, fun hs _ hcoord => ?_, h.fresh, fun hcoord hnone => ?_⟩
    · -- a coordinator set after the first transition does not count
      rw [Bool.and_eq_true, List.isEmpty_iff] at hcoord
      have howned := h.fresh hcoord.2
      rw [howned] at hs
      cases hs
    · rw [Bool.and_eq_true] at hcoord
      change coordinator = none at hnone
      rw [hnone] at hcoord
      cases hcoord.1

end MigrationOk

theorem transition_eq_or_edge (s : OwnershipSystem) (opens : Option String)
    (toState : OwnershipState) (reason actor : String) (input : TransitionInput) :
    (s.transition opens toState reason actor input).fsm = s.fsm ∨
    ∃ mid, OwnershipStateMachine.Edge s.fsm input s.fsm.metadata.state toState mid ∧
      (s.transition opens toState reason actor input).fsm =
        mid.enter s.fsm.metadata.state toState reason actor input := by
  unfold OwnershipSystem.transition
  split
  next => exact .inl rfl
  next fsm' hok => exact .inr (transition_edge hok)

theorem commits_transition {s : OwnershipSystem} {opens : Option String} {toState : OwnershipState}
    {reason actor : String} {input : TransitionInput}
    (h : Commits s (s.transition opens toState reason actor input)) :
    toState = .standby ∧ s.fsm.metadata.state = .transferring ∧
    (s.transition opens toState reason actor input).fsm.metadata.currentOwner =
      s.fsm.metadata.targetOwner := by
  obtain ⟨hnot, hstandby⟩ := h
  rcases transition_eq_or_edge s opens toState reason actor input with heq | ⟨mid, hedge, heq⟩
  · rw [heq] at hstandby
    exact absurd hstandby hnot
  · rw [heq] at hstandby ⊢
    have hto : toState = .standby := hstandby
    subst hto
    generalize hfrom : s.fsm.metadata.state = fromState at hedge
    cases hedge
    exact ⟨rfl, rfl, rfl⟩

theorem commit_of_step {s s' : OwnershipSystem} {action : OwnershipAction}
    (hstep : s.step action = some s') (hcommit : Commits s s') :
    (∃ reason actor input, action = .transition .standby reason actor input) ∧
    s.fsm.metadata.state = .transferring ∧
    s'.fsm.metadata.currentOwner = s.fsm.metadata.targetOwner := by
  have hchanged : s'.fsm.metadata.state ≠ s.fsm.metadata.state :=
    fun heq => hcommit.1 (heq ▸ hcommit.2)
  have hmove := step_move hstep
  generalize hfsm : s'.fsm = fsm' at hmove hchanged ⊢
  cases hmove with
  | transition hcall =>
    obtain ⟨hto, hfrom, howner⟩ := commits_transition ⟨hcommit.1, hfsm ▸ hcommit.2⟩
    exact ⟨OwnershipAction.eq_of_transitionCall_standby hcall hto, hfrom, howner⟩
  | progress _ hprogress => exact absurd hprogress.sameMigration.state hchanged
  | targetOwner | migrationTimeout | transferCoordinator => exact absurd rfl hchanged

/-- In every run whose steps leave migrations undisturbed, every successful `Commit` hands the
partition to the target of the accepted `StartMigration`, which is also the recorded one. -/
theorem commit_goes_to_accepted_target (partitionID owner : String) (symbols : List String)
    (now : Int) (coordinator : Option TransferCoordinator) (s s' : OwnershipSystem)
    (action : OwnershipAction)
    (hrun : Run.Reaches step Undisturbed
      (newOwnershipSystem partitionID owner symbols now coordinator) s)
    (hallowed : Undisturbed s action) (hstep : s.step action = some s') (hcommit : Commits s s') :
    CommitOk s s' := by
  have h : MigrationOk s :=
    hrun.invariant (MigrationOk.new partitionID owner symbols now coordinator)
      fun _ _ _ hs ha hstep => hs.step ha hstep
  obtain ⟨⟨reason, actor, input, rfl⟩, hstate, howner⟩ := commit_of_step hstep hcommit
  have hroll : s.rollingBack = false := hallowed.2 rfl
  have hflight : s.fsm.metadata.state.inFlight = true := by rw [hstate]; rfl
  have htarget := h.target hflight hroll
  obtain ⟨target, hopened, hnonempty, hmoved⟩ := h.opened hflight
  have heq : target = s.fsm.metadata.targetOwner := by
    rw [hopened] at htarget
    exact Option.some.inj htarget
  subst heq
  refine ⟨by rw [howner]; exact hnonempty, by rw [howner]; exact hmoved, by rw [howner, hopened],
    fun hcoord => ?_⟩
  obtain ⟨c, transfer, hc, htransfer, hto⟩ := h.recorded hstate hroll hcoord
  refine ⟨c, transfer, hc, htransfer, ?_⟩
  rw [howner]
  rw [hopened] at hto
  exact (Option.some.inj hto).symm

/-! ## Two migrations -/

instance (s : OwnershipSystem) (action : OwnershipAction) : Decidable (Undisturbed s action) :=
  match action with
  | .beginStartMigration _ _ => inferInstanceAs (Decidable (_ → _))
  | .finish k _ =>
    match h : s.calls[k]? with
    | some (.startMigration targetOwner _) =>
      decidable_of_iff
        (s.fsm.metadata.state = .owned → s.fsm.metadata.targetOwner = targetOwner)
        (by simp only [Undisturbed, h])
    | some (.rollback _) => isTrue (by simp only [Undisturbed, h])
    | none => isTrue (by simp only [Undisturbed, h])
  | .transition _ _ _ _ => inferInstanceAs (Decidable (_ ∧ _))
  | .beginRollback _ | .updateLastProcessedSeq _ | .updateCheckpoint _
  | .updateKafkaOffset _ _ | .setMigrationTimeout _ | .setTransferCoordinator _ => isTrue trivial

def quietInput : TransitionInput := ⟨0, 0, 0, .error "", .error ""⟩

/-- The coordinator records the transfer, and the target is ready. -/
def recordedInput : TransitionInput := ⟨0, 0, 0, .ok "transfer-1", .ok true⟩

def migrateWith (input : TransitionInput) : List OwnershipAction :=
  [.beginStartMigration "B" "admin", .finish 0 input, .freeze "A" input, .flush "A" input,
   .transfer "A" input]

def migrateToB : List OwnershipAction := migrateWith quietInput

def partitionOfA : OwnershipSystem := newOwnershipSystem "p" "A" ["BTC/USDT"] 0 none

theorem migrateToB_commits : ∃ s s', Run.Reaches step Undisturbed
        (newOwnershipSystem "p" "A" ["BTC/USDT"] 0 (some ⟨fun _ => none⟩)) s ∧
      s.step (.commit "A" recordedInput) = some s' ∧ Commits s s' ∧ s.coordinated = true ∧
      CommitOk s s' := by
  refine Run.exists_reaches_step (migrateWith recordedInput) (.commit "A" recordedInput)
    (P := fun s s' => Undisturbed s (.commit "A" recordedInput) ∧ Commits s s' ∧
      s.coordinated = true) (by decide +kernel)
    fun s s' hreach hstep ⟨hallowed, hcommits, hcoordinated⟩ => ?_
  exact ⟨hstep, hcommits, hcoordinated, commit_goes_to_accepted_target "p" "A" ["BTC/USDT"] 0 _
    s s' _ hreach hallowed hstep hcommits⟩

/-- A `StartMigration("C")` that will be rejected writes its target first; the commit of the
migration to B then makes C the owner. -/
theorem rejected_startMigration_redirects_commit :
    ∃ s s', Run.Reaches step (fun _ _ => True) partitionOfA s ∧
      s.step (.commit "A" quietInput) = some s' ∧ Commits s s' ∧
      s.openedFor = some "B" ∧ s'.fsm.metadata.currentOwner = "C" ∧ ¬ CommitOk s s' := by
  refine Run.exists_reaches_step (migrateToB ++ [.beginStartMigration "C" "admin"])
    (.commit "A" quietInput)
    (P := fun s s' => Commits s s' ∧ s.openedFor = some "B" ∧ s'.fsm.metadata.currentOwner = "C")
    (by decide +kernel) fun s s' _ hstep ⟨hcommits, hopened, howner⟩ => ?_
  refine ⟨hstep, hcommits, hopened, howner, fun h => ?_⟩
  have haccepted := h.accepted
  rw [hopened, howner] at haccepted
  exact absurd haccepted (by decide)

end CexHertz
