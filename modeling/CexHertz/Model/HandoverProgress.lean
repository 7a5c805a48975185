import CexHertz.Model.OwnershipMigration

/-!
# What has been processed at a handover

The guard before `Transferring` asks that the checkpoint is not ahead of the last processed number.
This holds anyway, so a checkpoint that is behind gets through, and both numbers may move
afterwards.
-/

namespace CexHertz

open OwnershipSystem OwnershipStateMachine

namespace OwnershipStateMachine

variable {fsm fsm' mid : OwnershipStateMachine}

structure SameProgress (fsm fsm' : OwnershipStateMachine) : Prop where
  lastProcessedSeq : fsm'.metadata.lastProcessedSeq = fsm.metadata.lastProcessedSeq
  checkpointSeq : fsm'.metadata.checkpointSeq = fsm.metadata.checkpointSeq

theorem SameProgress.refl (fsm : OwnershipStateMachine) : fsm.SameProgress fsm := ⟨rfl, rfl⟩

theorem Edge.sameProgress {input : TransitionInput} {fromState toState : OwnershipState}
    (h : Edge fsm input fromState toState mid) : fsm.SameProgress mid := by
  cases h <;> exact ⟨rfl, rfl⟩

def Covered (fsm : OwnershipStateMachine) : Prop :=
  fsm.metadata.checkpointSeq = fsm.metadata.lastProcessedSeq

def HandedOver (fsm : OwnershipStateMachine) : Prop :=
  fsm.metadata.state = .transferring ∨ fsm.metadata.state = .standby

instance (fsm : OwnershipStateMachine) : Decidable fsm.Covered :=
  inferInstanceAs (Decidable (_ = _))

instance (fsm : OwnershipStateMachine) : Decidable fsm.HandedOver :=
  inferInstanceAs (Decidable (_ ∨ _))

end OwnershipStateMachine

open OwnershipStateMachine (SameProgress)

inductive ProgressStep (s s' : OwnershipSystem) : OwnershipAction → Prop
  | process {seq : Int} (hle : s.fsm.metadata.lastProcessedSeq ≤ seq)
      (hseq : s'.fsm.metadata.lastProcessedSeq = seq)
      (hcheckpoint : s'.fsm.metadata.checkpointSeq = s.fsm.metadata.checkpointSeq)
      (hstate : s'.fsm.metadata.state = s.fsm.metadata.state) :
      ProgressStep s s' (.updateLastProcessedSeq seq)
  | checkpoint {seq : Int} (hle : seq ≤ s.fsm.metadata.lastProcessedSeq)
      (hseq : s'.fsm.metadata.checkpointSeq = seq)
      (hprocessed : s'.fsm.metadata.lastProcessedSeq = s.fsm.metadata.lastProcessedSeq)
      (hstate : s'.fsm.metadata.state = s.fsm.metadata.state) :
      ProgressStep s s' (.updateCheckpoint seq)
  | transfer {action : OwnershipAction} (hsame : s.fsm.SameProgress s'.fsm)
      {reason actor : String} {input : TransitionInput}
      (haction : action = .transition .transferring reason actor input)
      (hfrom : s.fsm.metadata.state = .flushing)
      (hto : s'.fsm.metadata.state = .transferring) : ProgressStep s s' action
  | other {action : OwnershipAction} (hsame : s.fsm.SameProgress s'.fsm)
      (hhanded : s'.fsm.HandedOver → s.fsm.HandedOver) : ProgressStep s s' action

section

variable {s s' : OwnershipSystem} {action : OwnershipAction}

theorem ProgressStep.of_same (h : s'.fsm = s.fsm) : ProgressStep s s' action := by
  refine .other ?_ ?_
  · rw [h]
    exact .refl _
  · rw [h]
    exact id

-- Nothing but `Transfer` leads into the two states from outside.
theorem progressStep_transition (opens : Option String) (toState : OwnershipState)
    (reason actor : String) (input : TransitionInput)
    (hfsm : s'.fsm = (s.transition opens toState reason actor input).fsm)
    (haction : toState = .transferring → action = .transition .transferring reason actor input) :
    ProgressStep s s' action := by
  rcases transition_eq_or_edge s opens toState reason actor input with heq | ⟨mid, hedge, heq⟩
  · exact .of_same (hfsm.trans heq)
  · rw [heq] at hfsm
    have hsame : s.fsm.SameProgress s'.fsm := by
      rw [hfsm]
      exact ⟨hedge.sameProgress.lastProcessedSeq, hedge.sameProgress.checkpointSeq⟩
    have hstate : s'.fsm.metadata.state = toState := by
      rw [hfsm]
      rfl
    have hhanded : s'.fsm.HandedOver → toState = .transferring ∨ toState = .standby := by
      unfold OwnershipStateMachine.HandedOver
      rw [hstate]
      exact id
    generalize hfrom : s.fsm.metadata.state = fromState at hedge
    cases hedge with
    | transfer | initiate => exact .transfer hsame (haction rfl) hfrom hstate
    | commit => exact .other hsame fun _ => .inl hfrom
    | start | freeze | flush | fail | recover =>
      exact .other hsame fun h => by rcases hhanded h with h | h <;> cases h

theorem OwnershipSystem.step_progress (hstep : s.step action = some s') :
    ProgressStep s s' action := by
  cases action with
  | updateLastProcessedSeq seq =>
    cases hstep
    rcases s.attempt_cases (s.fsm.updateLastProcessedSeq seq) with hsame | hok
    · exact .of_same hsame
    · obtain ⟨hle, heq⟩ := updateLastProcessedSeq_eq_ok hok
      refine .process hle ?_ ?_ ?_ <;> rw [heq]
  | updateCheckpoint seq =>
    cases hstep
    rcases s.attempt_cases (s.fsm.updateCheckpoint seq) with hsame | hok
    · exact .of_same hsame
    · obtain ⟨hle, heq⟩ := updateCheckpoint_eq_ok hok
      refine .checkpoint hle ?_ ?_ ?_ <;> rw [heq]
  | updateKafkaOffset symbol offset =>
    cases hstep
    rcases s.attempt_cases (s.fsm.updateKafkaOffset symbol offset) with hsame | hok
    · exact .of_same hsame
    · have heq := (updateKafkaOffset_eq_ok hok).2
      refine .other ?_ ?_
      · rw [heq]
        exact ⟨rfl, rfl⟩
      · rw [heq]
        exact id
  | transition toState reason actor input =>
    cases hstep
    exact progressStep_transition none toState reason actor input rfl fun hto => by rw [hto]
  | finish k input =>
    rw [step] at hstep
    split at hstep
    next => cases hstep
    next target actor hk =>
      cases hstep
      exact progressStep_transition (some target) .migrationPending "StartMigration" actor input
        rfl fun hto => by cases hto
    next actor hk =>
      cases hstep
      exact progressStep_transition none .failed "Rollback" actor input rfl fun hto => by cases hto
  | beginStartMigration | beginRollback | setMigrationTimeout | setTransferCoordinator =>
    cases hstep
    exact .other ⟨rfl, rfl⟩ id

/-- `Transfer` waits for the checkpoint, and from then on neither number is moved. -/
def Prepared (s : OwnershipSystem) : OwnershipAction → Prop
  | .transition toState _ _ _ =>
    toState = .transferring → s.fsm.metadata.state = .flushing → s.fsm.Covered
  | .updateLastProcessedSeq seq => s.fsm.HandedOver → seq ≤ s.fsm.metadata.lastProcessedSeq
  | .updateCheckpoint seq => s.fsm.HandedOver → s.fsm.metadata.lastProcessedSeq ≤ seq
  | _ => True

/-- A step that leaves nothing behind: the new state is covered if it is handed over, and between
`Transfer` and its end both numbers stay. -/
structure NothingLeftBehind (s s' : OwnershipSystem) : Prop where
  covered : s'.fsm.HandedOver → s'.fsm.Covered
  fixed : s.fsm.metadata.state = .transferring → s.fsm.SameProgress s'.fsm

theorem nothingLeftBehind_of_prepared (h : s.fsm.HandedOver → s.fsm.Covered)
    (hprepared : Prepared s action) (hstep : s.step action = some s') : NothingLeftBehind s s' := by
  unfold OwnershipStateMachine.Covered at h
  have hkept : s'.fsm.metadata.state = s.fsm.metadata.state →
      (s.fsm.HandedOver → s.fsm.SameProgress s'.fsm) → NothingLeftBehind s s' := by
    intro hstate hsame
    refine ⟨fun hhanded => ?_, fun htransferring => hsame (.inl htransferring)⟩
    unfold OwnershipStateMachine.HandedOver at hhanded
    rw [hstate] at hhanded
    obtain ⟨hprocessed, hcheckpoint⟩ := hsame hhanded
    rw [OwnershipStateMachine.Covered, hprocessed, hcheckpoint]
    exact h hhanded
  cases step_progress hstep with
  | process hle hseq hcheckpoint hstate =>
    -- a number that is not ahead of the last one changes nothing
    refine hkept hstate fun hhanded => ⟨?_, hcheckpoint⟩
    have := hprepared hhanded
    omega
  | checkpoint hle hseq hprocessed hstate =>
    refine hkept hstate fun hhanded => ⟨hprocessed, ?_⟩
    have := hprepared hhanded
    have := h hhanded
    omega
  | transfer hsame haction hfrom hto =>
    subst haction
    refine ⟨fun _ => ?_, fun _ => hsame⟩
    rw [OwnershipStateMachine.Covered, hsame.checkpointSeq, hsame.lastProcessedSeq]
    exact hprepared rfl hfrom
  | other hsame hhanded =>
    refine ⟨fun h' => ?_, fun _ => hsame⟩
    rw [OwnershipStateMachine.Covered, hsame.checkpointSeq, hsame.lastProcessedSeq]
    exact h (hhanded h')

end

/-- In every run in which `Transfer` waits for the checkpoint and the numbers are not moved after
it, everything processed is covered at the handover and stays so. -/
theorem nothing_left_behind_at_handover (partitionID owner : String) (symbols : List String)
    (now : Int) (coordinator : Option TransferCoordinator) (s s' : OwnershipSystem)
    (action : OwnershipAction)
    (hrun : Run.Reaches step Prepared
      (newOwnershipSystem partitionID owner symbols now coordinator) s)
    (hprepared : Prepared s action) (hstep : s.step action = some s') :
    (s.fsm.HandedOver → s.fsm.Covered) ∧ NothingLeftBehind s s' := by
  have h : s.fsm.HandedOver → s.fsm.Covered :=
    hrun.invariant (I := fun s => s.fsm.HandedOver → s.fsm.Covered) (fun _ => rfl)
      fun _ _ _ hs hallowed hstep => (nothingLeftBehind_of_prepared hs hallowed hstep).covered
  exact ⟨h, nothingLeftBehind_of_prepared h hprepared hstep⟩

/-! ## A handover that leaves ten events behind -/

instance (s : OwnershipSystem) (action : OwnershipAction) : Decidable (Prepared s action) :=
  match action with
  | .transition _ _ _ _ => inferInstanceAs (Decidable (_ → _ → _))
  | .updateLastProcessedSeq _ => inferInstanceAs (Decidable (_ → _))
  | .updateCheckpoint _ => inferInstanceAs (Decidable (_ → _))
  | .beginStartMigration _ _ | .beginRollback _ | .finish _ _ | .updateKafkaOffset _ _
  | .setMigrationTimeout _ | .setTransferCoordinator _ => isTrue trivial

/-- Ten events are processed and checkpointed before the migration. -/
theorem checkpointed_handover_covered : ∃ s s', Run.Reaches step Prepared partitionOfA s ∧
      s.step (.commit "A" quietInput) = some s' ∧ s.fsm.metadata.checkpointSeq = 10 ∧
      Commits s s' ∧ s.fsm.Covered ∧ NothingLeftBehind s s' := by
  refine Run.exists_reaches_step
    (.updateLastProcessedSeq 10 :: .updateCheckpoint 10 :: migrateToB) (.commit "A" quietInput)
    (P := fun s s' => s.fsm.metadata.checkpointSeq = 10 ∧ s.fsm.HandedOver ∧
      Prepared s (.commit "A" quietInput) ∧ Commits s s') (by decide +kernel)
    fun s s' hreach hstep ⟨hseq, hhanded, hprepared, hcommits⟩ => ?_
  have h := nothing_left_behind_at_handover "p" "A" ["BTC/USDT"] 0 none s s' _ hreach hprepared
    hstep
  exact ⟨hstep, hseq, hcommits, h.1 hhanded, h.2⟩

/-- Ten events are processed, none is checkpointed, and `Transfer` succeeds; and after a covered
`Transfer` an eleventh event is processed. -/
theorem processed_events_left_behind : (∃ s, Run.Reaches step (fun _ _ => True) partitionOfA s ∧
      s.fsm.metadata.state = .transferring ∧ s.fsm.metadata.lastProcessedSeq = 10 ∧
      s.fsm.metadata.checkpointSeq = 0) ∧
    (∃ s s', Run.Reaches step (fun _ _ => True) partitionOfA s ∧
      s.fsm.metadata.state = .transferring ∧ s.fsm.Covered ∧
      s.step (.updateLastProcessedSeq 11) = some s' ∧ ¬ NothingLeftBehind s s') := by
  constructor
  · exact Run.exists_reaches (.updateLastProcessedSeq 10 :: migrateToB) (by decide +kernel)
      fun _ _ h => h
  · exact Run.exists_reaches_step
      (.updateLastProcessedSeq 10 :: .updateCheckpoint 10 :: migrateToB)
      (.updateLastProcessedSeq 11)
      (P := fun s s' => s.fsm.metadata.state = .transferring ∧ s.fsm.Covered ∧
        s'.fsm.HandedOver ∧ ¬ s'.fsm.Covered) (by decide +kernel)
      fun s s' _ hstep ⟨hstate, hcovered, hhanded, hnot⟩ =>
        ⟨hstate, hcovered, hstep, fun h => hnot (h.covered hhanded)⟩

end CexHertz
