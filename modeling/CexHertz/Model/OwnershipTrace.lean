import CexHertz.Model.OwnershipMigration

/-!
# The way to an ownership change

The full sequence of successful transitions. An owner changes in a `Commit` and nowhere else, and
the four transitions before it are those of one migration.
-/

namespace CexHertz

open OwnershipSystem

namespace OwnershipStateMachine

structure SameOwner (fsm fsm' : OwnershipStateMachine) : Prop where
  state : fsm'.metadata.state = fsm.metadata.state
  currentOwner : fsm'.metadata.currentOwner = fsm.metadata.currentOwner
  previousOwner : fsm'.metadata.previousOwner = fsm.metadata.previousOwner
  transferID : fsm'.metadata.transferID = fsm.metadata.transferID

end OwnershipStateMachine

theorem SectionMove.sameOwner {s : OwnershipSystem} {action : OwnershipAction}
    {fsm' : OwnershipStateMachine} (h : SectionMove s action fsm')
    (hcall : action.transitionCall s.calls = none) : s.fsm.SameOwner fsm' := by
  cases h with
  | transition hsome =>
    rw [hcall] at hsome
    cases hsome
  | progress _ hprogress =>
    cases hprogress
    exact ⟨rfl, rfl, rfl, rfl⟩
  | targetOwner | migrationTimeout | transferCoordinator => exact ⟨rfl, rfl, rfl, rfl⟩

theorem SectionMove.fsm_eq {s : OwnershipSystem} {action : OwnershipAction} {call : TransitionCall}
    {fsm' : OwnershipStateMachine} (h : SectionMove s action fsm')
    (hcall : action.transitionCall s.calls = some call) :
    fsm' = (s.transition call.opens call.toState call.reason call.actor call.input).fsm := by
  cases h with
  | transition hsome =>
    rw [hcall] at hsome
    cases hsome
    rfl
  | progress hnone | targetOwner hnone | migrationTimeout hnone =>
    rw [hcall] at hnone
    cases hnone
  | transferCoordinator haction =>
    rw [haction] at hcall
    cases hcall

/-! ## Histories -/

/-- A system with its history.  `rolledBack`: a `Rollback` has returned, or a transition to `Failed`
been made, since a migration was last opened.  `abandoned`: a `Rollback` has begun since a
`StartMigration` call was last accepted. -/
structure TracedSystem where
  system : OwnershipSystem
  transitions : List (OwnershipState × OwnershipState)
  rolledBack : Bool
  abandoned : Bool

def newTracedSystem (partitionID owner : String) (symbols : List String) (now : Int)
    (coordinator : Option TransferCoordinator) : TracedSystem :=
  ⟨newOwnershipSystem partitionID owner symbols now coordinator, [], false, false⟩

def OwnershipSystem.madeTransition (s : OwnershipSystem) (action : OwnershipAction) :
    Option (OwnershipState × OwnershipState) :=
  match action.transitionCall s.calls with
  | none => none
  | some call =>
    match s.fsm.transition call.toState call.reason call.actor call.input with
    | .error _ => none
    | .ok _ => some (s.fsm.metadata.state, call.toState)

def OwnershipSystem.returnsRollback (s : OwnershipSystem) : OwnershipAction → Bool
  | .finish k _ => s.calls[k]?.any OpenCall.isRollback
  | _ => false

def OwnershipAction.beginsRollback : OwnershipAction → Bool
  | .beginRollback _ => true
  | _ => false

def OwnershipAction.finishesCall : OwnershipAction → Bool
  | .finish _ _ => true
  | _ => false

def TracedSystem.step (t : TracedSystem) (action : OwnershipAction) : Option TracedSystem :=
  match t.system.step action with
  | none => none
  | some system =>
    let made := t.system.madeTransition action
    let opened := decide (made.map Prod.snd = some .migrationPending)
    let failed := decide (made.map Prod.snd = some .failed)
    some
      { system := system
        transitions := t.transitions ++ made.toList
        rolledBack := !opened && (t.rolledBack || t.system.returnsRollback action || failed)
        abandoned := !(opened && action.finishesCall) && (t.abandoned || action.beginsRollback) }

/-! ## Along a run -/

def OwnershipState.route : OwnershipState → List (OwnershipState × OwnershipState)
  | .migrationPending => [(.owned, .migrationPending)]
  | .frozen => [(.owned, .migrationPending), (.migrationPending, .frozen)]
  | .flushing =>
    [(.owned, .migrationPending), (.migrationPending, .frozen), (.frozen, .flushing)]
  | .transferring =>
    [(.owned, .migrationPending), (.migrationPending, .frozen), (.frozen, .flushing),
     (.flushing, .transferring)]
  | _ => []

structure TraceOk (t : TracedSystem) : Prop where
  route : t.system.fsm.metadata.state.route <:+ t.transitions
  rolledBack : t.rolledBack = true → t.system.fsm.metadata.state.inFlight = false

section

variable {t t' : TracedSystem} {action : OwnershipAction}

theorem TracedSystem.step_eq_some (h : t.step action = some t') :
    t.system.step action = some t'.system ∧
    t'.transitions = t.transitions ++ (t.system.madeTransition action).toList ∧
    (t'.rolledBack = true → (t.system.madeTransition action).map Prod.snd ≠
      some .migrationPending ∧ (t.rolledBack = true ∨ t.system.returnsRollback action = true ∨
        (t.system.madeTransition action).map Prod.snd = some .failed)) := by
  unfold TracedSystem.step at h
  split at h
  next => cases h
  next system hsystem =>
    cases h
    refine ⟨hsystem, rfl, fun hrolled => ?_⟩
    simp only [Bool.and_eq_true, Bool.not_eq_true', decide_eq_false_iff_not, Bool.or_eq_true,
      decide_eq_true_eq, or_assoc] at hrolled
    exact hrolled

theorem OwnershipSystem.step_sameOwner_or_edge {s s' : OwnershipSystem}
    (hstep : s.step action = some s') :
    (s.madeTransition action = none ∧ s.fsm.SameOwner s'.fsm) ∨
    ∃ opens toState reason actor input mid,
      action.transitionCall s.calls = some ⟨opens, toState, reason, actor, input⟩ ∧
      s.madeTransition action = some (s.fsm.metadata.state, toState) ∧
      OwnershipStateMachine.Edge s.fsm input s.fsm.metadata.state toState mid ∧
      s'.fsm = mid.enter s.fsm.metadata.state toState reason actor input := by
  cases hcall : action.transitionCall s.calls with
  | none =>
    refine .inl ⟨?_, (step_move hstep).sameOwner hcall⟩
    rw [madeTransition, hcall]
  | some call =>
    have hfsm := (step_move hstep).fsm_eq hcall
    unfold madeTransition
    rw [hcall]
    dsimp only
    unfold transition at hfsm
    cases hmade : s.fsm.transition call.toState call.reason call.actor call.input with
    | error e =>
      rw [hmade] at hfsm
      refine .inl ⟨rfl, ?_⟩
      rw [hfsm]
      exact ⟨rfl, rfl, rfl, rfl⟩
    | ok fsm' =>
      rw [hmade] at hfsm
      obtain ⟨mid, hedge, heq⟩ := OwnershipStateMachine.transition_edge hmade
      exact .inr ⟨_, _, _, _, _, mid, rfl, rfl, hedge, hfsm.trans heq⟩

-- The second section of a `Rollback` has no migration under way behind it.
theorem OwnershipSystem.returnsRollback_not_inFlight {s s' : OwnershipSystem}
    (hstep : s.step action = some s') (hreturns : s.returnsRollback action = true) :
    s'.fsm.metadata.state.inFlight = false := by
  cases action with
  | finish k input =>
    rw [returnsRollback] at hreturns
    rw [step] at hstep
    split at hstep
    next => cases hstep
    next hk =>
      rw [hk] at hreturns
      cases hreturns
    next actor hk =>
      cases hstep
      exact MigrationOk.rollback_not_inFlight s "Rollback" actor input
  | _ => cases hreturns

theorem route_append {input : TransitionInput} {fsm mid : OwnershipStateMachine}
    {fromState toState : OwnershipState}
    (h : OwnershipStateMachine.Edge fsm input fromState toState mid)
    {transitions : List (OwnershipState × OwnershipState)}
    (hroute : fromState.route <:+ transitions) :
    toState.route <:+ transitions ++ [(fromState, toState)] := by
  -- a step of the migration makes the route longer, every other edge ends it
  cases h with
  | start => exact List.suffix_append _ _
  | freeze | flush | transfer | initiate => exact List.suffix_append_self_iff.mpr hroute
  | commit | fail | recover => exact List.nil_suffix

theorem OwnershipStateMachine.Edge.inFlight {input : TransitionInput}
    {fsm mid : OwnershipStateMachine} {fromState toState : OwnershipState}
    (h : Edge fsm input fromState toState mid) (hto : toState ≠ .migrationPending)
    (hfrom : fromState.inFlight = false) : toState.inFlight = false := by
  cases h with
  | start => exact absurd rfl hto
  | freeze | flush | transfer | initiate => cases hfrom
  | commit | fail | recover => rfl

theorem traceOk_new (partitionID owner : String) (symbols : List String) (now : Int)
    (coordinator : Option TransferCoordinator) :
    TraceOk (newTracedSystem partitionID owner symbols now coordinator) :=
  ⟨List.nil_suffix, nofun⟩

theorem TraceOk.step (h : TraceOk t) (hstep : t.step action = some t') : TraceOk t' := by
  obtain ⟨hsystem, htransitions, hrolled⟩ := TracedSystem.step_eq_some hstep
  rcases step_sameOwner_or_edge hsystem with
    ⟨hnone, hsame⟩ | ⟨-, toState, reason, actor, input, mid, -, hmade, hedge, hfsm⟩
  · rw [hnone, Option.toList_none, List.append_nil] at htransitions
    refine ⟨by rw [hsame.state, htransitions]; exact h.route, fun hroll => ?_⟩
    obtain ⟨-, hroll | hroll | hroll⟩ := hrolled hroll
    · rw [hsame.state]
      exact h.rolledBack hroll
    · exact returnsRollback_not_inFlight hsystem hroll
    · rw [hnone] at hroll
      cases hroll
  · have hstate : t'.system.fsm.metadata.state = toState := by
      rw [hfsm]
      rfl
    rw [hmade] at htransitions hrolled
    rw [Option.toList_some] at htransitions
    refine ⟨by rw [hstate, htransitions]; exact route_append hedge h.route, fun hroll => ?_⟩
    obtain ⟨hopened, hroll | hroll | hroll⟩ := hrolled hroll
    · -- rolled back before: the edge starts outside a migration and opens none
      rw [hstate]
      exact hedge.inFlight (fun hto => hopened (congrArg some hto)) (h.rolledBack hroll)
    · exact returnsRollback_not_inFlight hsystem hroll
    · rw [hstate, show toState = .failed from Option.some.inj hroll]
      rfl

structure FullMigration (t t' : TracedSystem) : Prop where
  previousOwner : t'.system.fsm.metadata.previousOwner = t.system.fsm.metadata.currentOwner
  targetOwner : t'.system.fsm.metadata.targetOwner = ""
  recorded : t'.transitions = t.transitions ++ [(.transferring, .standby)]
  preceded : [(.owned, .migrationPending), (.migrationPending, .frozen), (.frozen, .flushing),
    (.flushing, .transferring)] <:+ t.transitions

theorem TraceOk.fullMigration (h : TraceOk t) (hstep : t.step action = some t')
    (hcommit : Commits t.system t'.system) : FullMigration t t' := by
  obtain ⟨hsystem, htransitions, -⟩ := TracedSystem.step_eq_some hstep
  rcases step_sameOwner_or_edge hsystem with
    ⟨-, hsame⟩ | ⟨-, toState, reason, actor, input, mid, -, hmade, hedge, hfsm⟩
  · exact absurd (hsame.state ▸ hcommit.2) hcommit.1
  · have hroute := h.route
    rw [hmade, Option.toList_some] at htransitions
    have hto : toState = .standby := by
      have hstandby := hcommit.2
      rw [hfsm] at hstandby
      exact hstandby
    subst hto
    generalize t.system.fsm.metadata.state = fromState at *
    cases hedge
    exact ⟨by rw [hfsm]; rfl, by rw [hfsm]; rfl, htransitions, hroute⟩

-- No edge but the last one of a migration writes the owner.
theorem commits_of_owner_ne (hstep : t.step action = some t')
    (hne : t'.system.fsm.metadata.currentOwner ≠ t.system.fsm.metadata.currentOwner) :
    t.system.fsm.metadata.state = .transferring ∧ Commits t.system t'.system := by
  obtain ⟨hsystem, -, -⟩ := TracedSystem.step_eq_some hstep
  rcases step_sameOwner_or_edge hsystem with
    ⟨-, hsame⟩ | ⟨-, toState, reason, actor, input, mid, -, -, hedge, hfsm⟩
  · exact absurd hsame.currentOwner hne
  · unfold Commits
    rw [hfsm] at hne ⊢
    generalize t.system.fsm.metadata.state = fromState at *
    cases hedge with
    | commit => exact ⟨rfl, nofun, rfl⟩
    | _ => exact absurd rfl hne

end

/-- In every run an owner changes only in a successful `Commit`, every successful `Commit` ends a
whole migration, and after a `Rollback` no owner changes before a migration is opened again. -/
theorem owner_changes_only_by_full_migration (partitionID owner : String) (symbols : List String)
    (now : Int) (coordinator : Option TransferCoordinator) (t t' : TracedSystem)
    (action : OwnershipAction)
    (hrun : Run.Reaches TracedSystem.step (fun _ _ => True)
      (newTracedSystem partitionID owner symbols now coordinator) t)
    (hstep : t.step action = some t') :
    (t'.system.fsm.metadata.currentOwner ≠ t.system.fsm.metadata.currentOwner →
      Commits t.system t'.system) ∧
    (Commits t.system t'.system → FullMigration t t') ∧
    (t.rolledBack = true →
      t'.system.fsm.metadata.currentOwner = t.system.fsm.metadata.currentOwner) := by
  have h : TraceOk t := hrun.invariant (traceOk_new partitionID owner symbols now coordinator)
    fun _ _ _ hs _ hstep => hs.step hstep
  refine ⟨fun hne => (commits_of_owner_ne hstep hne).2, h.fullMigration hstep, fun hroll => ?_⟩
  by_contra hne
  have hflight := h.rolledBack hroll
  rw [(commits_of_owner_ne hstep hne).1] at hflight
  cases hflight

/-! ## Rollbacks that are got around -/

def tracedPartitionOfA : TracedSystem := newTracedSystem "p" "A" ["BTC/USDT"] 0 none

/-- The migration to B is committed, the only change of owner in the run. -/
theorem migrateToB_full :
    ∃ t t', Run.Reaches TracedSystem.step (fun _ _ => True) tracedPartitionOfA t ∧
      t.step (.commit "A" quietInput) = some t' ∧
      t'.system.fsm.metadata.currentOwner = "B" ∧ FullMigration t t' := by
  refine Run.exists_reaches_step migrateToB (.commit "A" quietInput)
    (P := fun t t' => Commits t.system t'.system ∧ t'.system.fsm.metadata.currentOwner = "B")
    (by decide +kernel) fun t t' hreach hstep ⟨hcommits, howner⟩ => ?_
  exact ⟨hstep, howner, (owner_changes_only_by_full_migration "p" "A" ["BTC/USDT"] 0
    none t t' _ hreach hstep).2.1 hcommits⟩

/-- The way from a `StartMigration("C")` that has written its target: `Transition` is called
directly, so that the call itself is rejected. -/
def migrateToCDirectly : List OwnershipAction :=
  [.beginStartMigration "C" "admin", .transition .migrationPending "manual" "admin" quietInput,
   .finish 0 quietInput, .freeze "A" quietInput, .flush "A" quietInput, .transfer "A" quietInput]

/-- A rolled-back migration to B is followed by a change of owner to C although no `StartMigration`
has been accepted since; and a `Rollback` that has begun does not keep a `Commit` away. -/
theorem owner_changes_after_rollback :
    (∃ t t', Run.Reaches TracedSystem.step (fun _ _ => True) tracedPartitionOfA t ∧
      t.step (.commit "A" quietInput) = some t' ∧ t.abandoned = true ∧
      (.failed, .owned) ∈ t.transitions ∧ t.system.fsm.metadata.currentOwner = "A" ∧
      t'.system.fsm.metadata.currentOwner = "C") ∧
    (∃ t t', Run.Reaches TracedSystem.step (fun _ _ => True) tracedPartitionOfA t ∧
      t.step (.commit "A" quietInput) = some t' ∧ t.abandoned = true ∧
      t.system.fsm.metadata.currentOwner = "A" ∧ t'.system.fsm.metadata.currentOwner = "") := by
  constructor
  · exact Run.exists_reaches_step
      (migrateToB ++ [.beginRollback "A", .finish 0 quietInput, .recover "A" quietInput] ++
        migrateToCDirectly) (.commit "A" quietInput) (by decide +kernel)
      fun _ _ _ hstep h => ⟨hstep, h⟩
  · exact Run.exists_reaches_step (migrateToB ++ [.beginRollback "A"]) (.commit "A" quietInput)
      (by decide +kernel) fun _ _ _ hstep h => ⟨hstep, h⟩

end CexHertz
