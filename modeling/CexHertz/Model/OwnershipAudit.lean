import CexHertz.Model.HandoverProgress
import CexHertz.Model.OwnershipTrace

/-!
# The audit trail of the ownership state machine

All transitions that succeeded in a run, of which `TransitionHistory` is the end, and the counters
that the machine keeps beside them.
-/

namespace CexHertz

/-- What the metadata say about a past of these transitions and this many successful updates. -/
structure Audited (m : OwnershipMetadata) (made : List StateTransition) (updates : Nat) : Prop where
  history : m.transitionHistory = made.drop (made.length - 100)
  chained : made.IsChain fun t t' => t.toState = t'.fromState
  first : ∀ t ∈ made.head?, t.fromState = .owned
  last : m.state = (made.getLast?.map StateTransition.toState).getD .owned
  version : m.version = .ofNat (1 + made.length + updates)
  checkpoint : m.checkpointSeq ≤ m.lastProcessedSeq
  offsets : ∀ symbol, ∀ offset ∈ m.kafkaOffset symbol, 0 ≤ offset

/-! ## Transitions and updates -/

section

variable {m : OwnershipMetadata} {made : List StateTransition} {updates : Nat}

open OwnershipStateMachine List OwnershipSystem

-- Cutting to the last hundred at every step is cutting once.
theorem limitHistory_drop (made : List StateTransition) (t : StateTransition) :
    limitHistory (made.drop (made.length - 100) ++ [t]) =
      (made ++ [t]).drop ((made ++ [t]).length - 100) := by
  have hkept : made.drop (made.length - 100) ++ [t] = (made ++ [t]).drop (made.length - 100) :=
    (drop_append_of_le_length (Nat.sub_le _ _)).symm
  unfold limitHistory
  rw [hkept, length_drop, length_append, length_singleton]
  split
  next hlong =>
    have hlen : made.length - 100 + (made.length + 1 - (made.length - 100) - 100) =
        made.length + 1 - 100 := by omega
    rw [drop_drop, hlen]
  next hshort =>
    have hlen : made.length - 100 = made.length + 1 - 100 := by omega
    rw [hlen]

theorem OwnershipStateMachine.Edge.metadata {fsm mid : OwnershipStateMachine}
    {input : TransitionInput} {fromState toState : OwnershipState}
    (h : Edge fsm input fromState toState mid) :
    ∃ currentOwner previousOwner targetOwner migrationStartTime transferID,
      mid.metadata = { fsm.metadata with
        currentOwner := currentOwner
        previousOwner := previousOwner
        targetOwner := targetOwner
        migrationStartTime := migrationStartTime
        transferID := transferID } := by
  cases h <;> exact ⟨_, _, _, _, _, rfl⟩

theorem Audited.edge {fsm mid : OwnershipStateMachine} {input : TransitionInput}
    {fromState toState : OwnershipState} (h : Audited fsm.metadata made updates)
    (hedge : Edge fsm input fromState toState mid) : Audited mid.metadata made updates := by
  obtain ⟨_, _, _, _, _, heq⟩ := hedge.metadata
  rw [heq]
  exact ⟨h.history, h.chained, h.first, h.last, h.version, h.checkpoint, h.offsets⟩

theorem Audited.transition (h : Audited m made updates) (t : StateTransition)
    (hfrom : t.fromState = m.state) (time : Int) :
    Audited { m with
      state := t.toState
      stateTransitionTime := time
      version := m.version + 1
      transitionHistory := limitHistory (m.transitionHistory ++ [t]) } (made ++ [t]) updates where
  history := by rw [h.history, limitHistory_drop]
  chained := by
    refine List.isChain_append.mpr ⟨h.chained, .singleton _, fun a ha b hb => ?_⟩
    have hlast := h.last
    rw [ha, Option.map_some, Option.getD_some] at hlast
    rw [← Option.some.inj hb, hfrom, hlast]
  first := by
    intro a ha
    cases made with
    | nil =>
      rw [← Option.some.inj ha, hfrom]
      exact h.last
    | cons b made => exact h.first a ha
  last := by rw [List.getLast?_concat]; rfl
  version := by
    rw [length_append, length_singleton, ← Nat.add_assoc, Nat.add_right_comm, Int64.ofNat_add,
      ← h.version]
    rfl
  checkpoint := h.checkpoint
  offsets := h.offsets

theorem Audited.update (h : Audited m made updates) {lastProcessedSeq checkpointSeq : Int}
    {kafkaOffset : String → Option Int} (hcheckpoint : checkpointSeq ≤ lastProcessedSeq)
    (hoffsets : ∀ symbol, ∀ offset ∈ kafkaOffset symbol, 0 ≤ offset) :
    Audited { m with
      lastProcessedSeq := lastProcessedSeq
      checkpointSeq := checkpointSeq
      kafkaOffset := kafkaOffset
      version := m.version + 1 } made (updates + 1) where
  history := h.history
  chained := h.chained
  first := h.first
  last := h.last
  version := by
    rw [← Nat.add_assoc, Int64.ofNat_add, ← h.version]
    rfl
  checkpoint := hcheckpoint
  offsets := hoffsets

/-! ## Runs -/

/-- The transition of a section, as it is written to the history, if it succeeds. -/
def OwnershipSystem.recorded (s : OwnershipSystem) (action : OwnershipAction) :
    Option StateTransition :=
  match action.transitionCall s.calls with
  | none => none
  | some call =>
    match s.fsm.transition call.toState call.reason call.actor call.input with
    | .error _ => none
    | .ok _ => some
      ⟨s.fsm.metadata.state, call.toState, call.reason, call.input.historyTime, call.actor⟩

/-- Successful updates of `LastProcessedSeq`, `CheckpointSeq` or a Kafka offset: one or none. -/
def OwnershipSystem.updated (s : OwnershipSystem) : OwnershipAction → Nat
  | .updateLastProcessedSeq seq => (s.fsm.updateLastProcessedSeq seq).isOk.toNat
  | .updateCheckpoint seq => (s.fsm.updateCheckpoint seq).isOk.toNat
  | .updateKafkaOffset symbol offset => (s.fsm.updateKafkaOffset symbol offset).isOk.toNat
  | _ => 0

structure AuditedSystem where
  system : OwnershipSystem
  made : List StateTransition
  updates : Nat

def newAuditedSystem (partitionID owner : String) (symbols : List String) (now : Int)
    (coordinator : Option TransferCoordinator) : AuditedSystem :=
  ⟨newOwnershipSystem partitionID owner symbols now coordinator, [], 0⟩

def AuditedSystem.step (t : AuditedSystem) (action : OwnershipAction) : Option AuditedSystem :=
  (t.system.step action).map fun system =>
    ⟨system, t.made ++ (t.system.recorded action).toList, t.updates + t.system.updated action⟩

variable {s s' : OwnershipSystem} {action : OwnershipAction}

theorem Audited.transitionCall (h : Audited s.fsm.metadata made updates) {call : TransitionCall}
    (hcall : action.transitionCall s.calls = some call)
    (hfsm : s'.fsm = (s.transition call.opens call.toState call.reason call.actor call.input).fsm) :
    Audited s'.fsm.metadata (made ++ (s.recorded action).toList) updates := by
  unfold recorded
  unfold OwnershipSystem.transition at hfsm
  rw [hcall, hfsm]
  dsimp only
  cases hmade : s.fsm.transition call.toState call.reason call.actor call.input with
  | error err =>
    rwa [Option.toList_none, append_nil]
  | ok fsm' =>
    obtain ⟨mid, hedge, rfl⟩ := transition_edge hmade
    have hmid := h.edge hedge
    obtain ⟨_, _, _, _, _, heq⟩ := hedge.metadata
    exact hmid.transition
      ⟨s.fsm.metadata.state, call.toState, call.reason, call.input.historyTime, call.actor⟩
      (by rw [heq]) _

theorem Audited.attempt (h : Audited s.fsm.metadata made updates)
    {r : Except String OwnershipStateMachine}
    (hr : ∀ fsm', r = .ok fsm' → Audited fsm'.metadata made (updates + 1)) :
    Audited (s.attempt r).fsm.metadata made (updates + r.isOk.toNat) := by
  cases r with
  | error err => exact h
  | ok fsm' => exact hr fsm' rfl

theorem Audited.step (h : Audited s.fsm.metadata made updates) (hstep : s.step action = some s') :
    Audited s'.fsm.metadata (made ++ (s.recorded action).toList) (updates + s.updated action) := by
  cases hcall : action.transitionCall s.calls with
  | some call =>
    have hzero : s.updated action = 0 := by
      cases action with
      | finish | transition => rfl
      | _ => cases hcall
    rw [hzero]
    exact h.transitionCall hcall ((step_move hstep).fsm_eq hcall)
  | none =>
    have hnone : s.recorded action = none := by rw [recorded, hcall]
    rw [hnone, Option.toList_none, append_nil]
    cases action with
    | updateLastProcessedSeq seq =>
      cases hstep
      refine h.attempt fun fsm' hok => ?_
      obtain ⟨hle, rfl⟩ := updateLastProcessedSeq_eq_ok hok
      exact h.update (h.checkpoint.trans hle) h.offsets
    | updateCheckpoint seq =>
      cases hstep
      refine h.attempt fun fsm' hok => ?_
      obtain ⟨hle, rfl⟩ := updateCheckpoint_eq_ok hok
      exact h.update hle h.offsets
    | updateKafkaOffset symbol offset =>
      cases hstep
      refine h.attempt fun fsm' hok => ?_
      obtain ⟨hle, rfl⟩ := updateKafkaOffset_eq_ok hok
      refine h.update h.checkpoint ?_
      exact (Function.forall_update_iff s.fsm.metadata.kafkaOffset
        (p := fun _ o => ∀ n ∈ o, 0 ≤ n)).mpr
        ⟨fun n hn => Option.some.inj hn ▸ hle, fun symbol _ => h.offsets symbol⟩
    | finish k input =>
      rw [step] at hstep
      rw [OwnershipAction.transitionCall] at hcall
      split at hcall
      next hk => rw [hk] at hstep; cases hstep
      all_goals cases hcall
    | transition => cases hcall
    | _ =>
      cases hstep
      exact ⟨h.history, h.chained, h.first, h.last, h.version, h.checkpoint, h.offsets⟩

end

/-- In every run of the machine, under any interleaving of its methods: the history is the end of
the list of successful transitions, which is a chain from `Owned` to the current state, and the
counters have counted what happened. -/
theorem audit_trail (partitionID owner : String) (symbols : List String) (now : Int)
    (coordinator : Option TransferCoordinator) (t : AuditedSystem)
    (hrun : Run.Reaches AuditedSystem.step (fun _ _ => True)
      (newAuditedSystem partitionID owner symbols now coordinator) t) :
    Audited t.system.fsm.metadata t.made t.updates ∧
    ∀ action t', t.step action = some t' →
      t.system.fsm.metadata.lastProcessedSeq ≤ t'.system.fsm.metadata.lastProcessedSeq := by
  constructor
  · refine hrun.invariant (I := fun t => Audited t.system.fsm.metadata t.made t.updates)
      ⟨rfl, .nil, nofun, rfl, rfl, Int.le_refl 0, nofun⟩ fun t action t' h _ hstep => ?_
    obtain ⟨system, hsystem, rfl⟩ := Option.map_eq_some_iff.mp hstep
    exact h.step hsystem
  · intro action t' hstep
    obtain ⟨system, hsystem, rfl⟩ := Option.map_eq_some_iff.mp hstep
    cases OwnershipSystem.step_progress hsystem with
    | process hle hseq => exact hle.trans_eq hseq.symm
    | checkpoint _ _ hprocessed => exact hprocessed.ge
    | transfer hsame | other hsame => exact hsame.lastProcessedSeq.ge

/-- A migration with a checkpoint and an offset on the way, and a refused update. -/
theorem audit_trail_of_migration : ∃ t, Run.Reaches AuditedSystem.step (fun _ _ => True)
        (newAuditedSystem "p" "A" ["BTC/USDT"] 0 none) t ∧
      t.system.fsm.metadata.version = 8 ∧ t.updates = 3 ∧ t.made.length = 4 ∧
      Audited t.system.fsm.metadata t.made t.updates := by
  refine Run.exists_reaches (.updateLastProcessedSeq 10 :: .updateCheckpoint 10 ::
      .updateKafkaOffset "BTC/USDT" 5 :: .updateLastProcessedSeq 9 :: migrateToB)
    (P := fun t => t.system.fsm.metadata.version = 8 ∧ t.updates = 3 ∧ t.made.length = 4)
    (by decide +kernel) fun t hreach ⟨hversion, hupdates, hmade⟩ => ?_
  exact ⟨hversion, hupdates, hmade, (audit_trail "p" "A" ["BTC/USDT"] 0 none t hreach).1⟩

end CexHertz
