import CexHertz.Model.TransferProtocol

/-!
# The invariants of a transfer

Two of the three conditions of `ValidateTransferInvariants` are kept in every run. The third asks
for a Kafka offset in `Flushing` and `Transferring`, and nothing on the way there asks whether one
has been recorded.
-/

namespace CexHertz

open List OwnershipStateMachine ProtocolSystem

structure MonitoredProtocol where
  system : ProtocolSystem
  kafkaSymbols : List String

def newMonitoredProtocol (partitionID owner : String) (symbols : List String) (now : Int)
    (coordinator : Option TransferCoordinator) : MonitoredProtocol :=
  ⟨newProtocolSystem partitionID owner symbols now coordinator, []⟩

def TransferProtocol.validateTransferInvariants (tp : TransferProtocol)
    (kafkaSymbols : List String) : Option String :=
  match tp.fsm with
  | none => some notInitialized
  | some fsm =>
    let metadata := fsm.metadata
    if metadata.checkpointSeq > metadata.lastProcessedSeq then
      some ("invariant violation: CheckpointSeq (" ++ toString metadata.checkpointSeq ++
        ") > LastProcessedSeq (" ++ toString metadata.lastProcessedSeq ++ ")")
    else if (metadata.state = .transferring ∨ metadata.state = .flushing) ∧
        kafkaSymbols.length = 0 then
      some "invariant violation: KafkaOffset empty during transfer"
    else if (metadata.state = .migrationPending ∨ metadata.state = .frozen ∨
        metadata.state = .flushing ∨ metadata.state = .transferring) ∧
        metadata.targetOwner = "" then
      some ("invariant violation: no TargetOwner during transfer in state " ++
        metadata.state.name)
    else none

inductive ProtocolCall where
  | message (msg : TransferMessage) (input : TransitionInput)
  | updateLastProcessedSeq (seq : Int)
  | updateCheckpoint (seq : Int)
  | updateKafkaOffset (symbol : String) (offset : Int)

namespace MonitoredProtocol

variable (s : MonitoredProtocol)

def validate : Option String := s.system.protocol.validateTransferInvariants s.kafkaSymbols

def updated (r : Except String OwnershipStateMachine) (kafkaSymbols : List String) :
    MonitoredProtocol :=
  match r with
  | .error _ => s
  | .ok fsm => ⟨{ s.system with fsm := fsm }, kafkaSymbols⟩

def handle : ProtocolCall → MonitoredProtocol
  | .message msg input => ⟨(s.system.step (msg, input)).getD s.system, s.kafkaSymbols⟩
  | .updateLastProcessedSeq seq =>
    s.updated (s.system.fsm.updateLastProcessedSeq seq) s.kafkaSymbols
  | .updateCheckpoint seq => s.updated (s.system.fsm.updateCheckpoint seq) s.kafkaSymbols
  | .updateKafkaOffset symbol offset =>
    s.updated (s.system.fsm.updateKafkaOffset symbol offset) (s.kafkaSymbols.insert symbol)

def run (calls : List ProtocolCall) : MonitoredProtocol := calls.foldl handle s

def FlushesWithOffset : ProtocolCall → Prop
  | .message (.completeFlushing _) _ =>
    s.system.fsm.metadata.state = .frozen → s.kafkaSymbols ≠ []
  | _ => True

end MonitoredProtocol

/-! ## What a message does to the machine -/

/-- A message leaves the machine in its state, where it writes a target only outside a migration, or
takes it over an edge. -/
inductive MessageMove (fsm : OwnershipStateMachine) : TransferMessage → OwnershipStateMachine → Prop
  | stay {msg : TransferMessage} (targetOwner : String)
      (htarget : targetOwner = fsm.metadata.targetOwner ∨ fsm.metadata.state.inFlight = false) :
      MessageMove fsm msg (fsm.setTargetOwner targetOwner)
  | move {msg : TransferMessage} (targetOwner : String) (toState : OwnershipState)
      (mid : OwnershipStateMachine) (input : TransitionInput) (reason actor : String)
      (hedge : OwnershipStateMachine.Edge (fsm.setTargetOwner targetOwner) input
        fsm.metadata.state toState mid)
      (htarget : targetOwner = fsm.metadata.targetOwner ∨ toState = .migrationPending ∨
        toState = .failed)
      (hflush : toState = .flushing → ∃ sourceOwner, msg = .completeFlushing sourceOwner) :
      MessageMove fsm msg (mid.enter fsm.metadata.state toState reason actor input)

namespace ProtocolSystem

variable {s s' : ProtocolSystem} {msg : TransferMessage} {input : TransitionInput}

theorem attempted_transition_move {fsm : OwnershipStateMachine} {toState : OwnershipState}
    {reason actor : String} (hok : s.fsm.transition toState reason actor input = .ok fsm)
    (hflush : toState = .flushing → ∃ sourceOwner, msg = .completeFlushing sourceOwner) :
    MessageMove s.fsm msg (s.become fsm).fsm := by
  obtain ⟨mid, hedge, rfl⟩ := transition_edge hok
  exact .move s.fsm.metadata.targetOwner _ _ _ reason actor hedge (.inl rfl) hflush

theorem startTransfer_move {req : TransferRequest}
    (hstep : s.step (.startTransfer req, input) = some s') :
    MessageMove s.fsm (.startTransfer req) s'.fsm := by
  unfold step TransferProtocol.startTransfer protocol startMigration at hstep
  dsimp only at hstep
  by_cases howned : s.fsm.metadata.state = .owned
  · rw [if_neg (not_not.mpr howned)] at hstep
    cases hstart : (s.fsm.setTargetOwner req.targetOwner).transition .migrationPending
        "StartMigration" "protocol" input with
    | error err =>
      rw [hstart] at hstep
      cases hstep
      exact .stay req.targetOwner (.inr (by rw [howned]; rfl))
    | ok fsm =>
      rw [hstart] at hstep
      cases hstep
      obtain ⟨mid, hedge, rfl⟩ := transition_edge hstart
      exact .move req.targetOwner _ _ _ _ _ hedge (.inr (.inl rfl)) nofun
  · rw [if_pos howned] at hstep
    cases hstep
    exact .stay s.fsm.metadata.targetOwner (.inl rfl)

theorem rollbackTransfer_move {reason : String}
    (hstep : s.step (.rollbackTransfer reason, input) = some s') :
    MessageMove s.fsm (.rollbackTransfer reason) s'.fsm := by
  cases hstep
  show MessageMove s.fsm _ (s.fsm.rollback reason input).2
  -- a migration under way is always rolled back
  have hended := s.fsm.rollback_not_inFlight reason input
  unfold rollback at hended ⊢
  dsimp only at hended ⊢
  split
  next err herr =>
    rw [herr] at hended
    exact .stay "" (.inr hended)
  next fsm hok =>
    obtain ⟨mid, hedge, rfl⟩ := transition_edge hok
    exact .move "" _ _ _ _ _ hedge (.inr (.inr rfl)) nofun

theorem step_messageMove (hstep : s.step (msg, input) = some s') :
    MessageMove s.fsm msg s'.fsm := by
  have hsignal : ∀ fromState toState, msg.edge = some (fromState, toState) →
      (toState = .flushing → ∃ sourceOwner, msg = .completeFlushing sourceOwner) →
      MessageMove s.fsm msg s'.fsm := by
    intro fromState toState hedge hflush
    obtain ⟨verb, context, reason, hall⟩ := s.step_of_edge input hedge
    obtain ⟨actor, heq⟩ := hall msg hedge
    rw [heq] at hstep
    cases hgated : s.protocol.gated verb context fromState toState reason actor input with
    | error err =>
      rw [hgated] at hstep
      cases hstep
      exact .stay s.fsm.metadata.targetOwner (.inl rfl)
    | ok fsm =>
      rw [hgated] at hstep
      cases hstep
      exact attempted_transition_move (gated_eq_ok hgated).2 hflush
  cases msg with
  | startTransfer req => exact startTransfer_move hstep
  | freezeSignal sig => exact hsignal _ _ rfl nofun
  | completeFlushing sourceOwner => exact hsignal _ _ rfl fun _ => ⟨sourceOwner, rfl⟩
  | transferSignal | commitTransfer => exact hsignal _ _ rfl nofun
  | rollbackTransfer reason => exact rollbackTransfer_move hstep
  | recover actor =>
    cases hstep
    cases hok : s.fsm.transition .owned "Recover" actor input with
    | error err => exact .stay s.fsm.metadata.targetOwner (.inl rfl)
    | ok fsm => exact attempted_transition_move hok nofun

end ProtocolSystem

/-! ## Two invariants that hold, and one that depends on the run -/

/-- The first and the third condition; and `kafkaSymbols` are the keys of the map. -/
structure MonitoredOk (s : MonitoredProtocol) : Prop where
  checkpoint : s.system.fsm.metadata.checkpointSeq ≤ s.system.fsm.metadata.lastProcessedSeq
  target : s.system.fsm.metadata.state.inFlight = true → s.system.fsm.metadata.targetOwner ≠ ""
  keys : ∀ symbol, s.system.fsm.metadata.kafkaOffset symbol ≠ none ↔ symbol ∈ s.kafkaSymbols

def MonitoredProtocol.OffsetsThere (s : MonitoredProtocol) : Prop :=
  s.system.fsm.metadata.state = .flushing ∨ s.system.fsm.metadata.state = .transferring →
    s.kafkaSymbols ≠ []

theorem MessageMove.marks {fsm fsm' : OwnershipStateMachine} {msg : TransferMessage}
    (h : MessageMove fsm msg fsm') :
    fsm'.metadata.checkpointSeq = fsm.metadata.checkpointSeq ∧
    fsm'.metadata.lastProcessedSeq = fsm.metadata.lastProcessedSeq ∧
    fsm'.metadata.kafkaOffset = fsm.metadata.kafkaOffset := by
  cases h with
  | stay => exact ⟨rfl, rfl, rfl⟩
  | move targetOwner toState mid input reason actor hedge =>
    generalize fsm.metadata.state = fromState at hedge
    cases hedge <;> exact ⟨rfl, rfl, rfl⟩

theorem MessageMove.target {fsm fsm' : OwnershipStateMachine} {msg : TransferMessage}
    (h : MessageMove fsm msg fsm')
    (hset : fsm.metadata.state.inFlight = true → fsm.metadata.targetOwner ≠ "")
    (hflight : fsm'.metadata.state.inFlight = true) : fsm'.metadata.targetOwner ≠ "" := by
  cases h with
  | stay targetOwner htarget =>
    have hflight : fsm.metadata.state.inFlight = true := hflight
    rcases htarget with rfl | hended
    · exact hset hflight
    · rw [hended] at hflight
      cases hflight
  | move targetOwner toState mid input reason actor hedge htarget hflush =>
    have hflight : toState.inFlight = true := hflight
    show mid.metadata.targetOwner ≠ ""
    generalize fsm.metadata.state = fromState at hset hedge
    -- the edges within a migration keep a target that was there before
    have hkept : fromState.inFlight = true → toState ≠ .migrationPending → toState ≠ .failed →
        targetOwner ≠ "" := by
      intro hbefore hstart hfailed
      rcases htarget with rfl | hto | hto
      · exact hset hbefore
      · exact absurd hto hstart
      · exact absurd hto hfailed
    cases hedge with
    | start hnamed => exact hnamed
    | freeze | flush | transfer | initiate => exact hkept rfl nofun nofun
    | commit | fail | recover => cases hflight

/-- `Flushing` is entered from `Frozen` by `CompleteFlushing`, `Transferring` from `Flushing`. -/
theorem MessageMove.flushed {fsm fsm' : OwnershipStateMachine} {msg : TransferMessage}
    (h : MessageMove fsm msg fsm')
    (hstate : fsm'.metadata.state = .flushing ∨ fsm'.metadata.state = .transferring) :
    (fsm.metadata.state = .flushing ∨ fsm.metadata.state = .transferring) ∨
      fsm.metadata.state = .frozen ∧ ∃ sourceOwner, msg = .completeFlushing sourceOwner := by
  cases h with
  | stay => exact .inl hstate
  | move targetOwner toState mid input reason actor hedge htarget hflush =>
    have hstate := hstate
    generalize fsm.metadata.state = fromState at hedge ⊢
    cases hedge with
    | flush => exact .inr ⟨rfl, hflush rfl⟩
    | transfer | initiate => exact .inl (.inl rfl)
    | start | freeze | commit | fail | recover => rcases hstate with h | h <;> cases h

namespace MonitoredProtocol

variable {s : MonitoredProtocol}

theorem step_isSome (s : ProtocolSystem) (msg : TransferMessage) (input : TransitionInput) :
    ∃ s', s.step (msg, input) = some s' := by
  cases msg with
  | startTransfer req =>
    unfold step
    dsimp only
    split
    · exact ⟨_, rfl⟩
    · exact ⟨_, rfl⟩
  | _ => exact ⟨_, rfl⟩

theorem handle_message (s : MonitoredProtocol) (msg : TransferMessage) (input : TransitionInput) :
    ∃ system, s.handle (.message msg input) = ⟨system, s.kafkaSymbols⟩ ∧
      MessageMove s.system.fsm msg system.fsm := by
  obtain ⟨system, hstep⟩ := step_isSome s.system msg input
  refine ⟨system, ?_, step_messageMove hstep⟩
  show (⟨(s.system.step (msg, input)).getD s.system, s.kafkaSymbols⟩ : MonitoredProtocol) = _
  rw [hstep, Option.getD_some]

theorem handle_update {r : Except String OwnershipStateMachine} {kafkaSymbols : List String}
    (hr : ∀ fsm, r = .ok fsm → s.system.fsm.Progressed fsm)
    (hkeys : kafkaSymbols = [] → s.kafkaSymbols = []) :
    (s.updated r kafkaSymbols).system.fsm.metadata.state = s.system.fsm.metadata.state ∧
    ((s.updated r kafkaSymbols).kafkaSymbols = [] → s.kafkaSymbols = []) := by
  cases r with
  | error err => exact ⟨rfl, id⟩
  | ok fsm => exact ⟨(hr fsm rfl).sameMigration.state, hkeys⟩

end MonitoredProtocol

namespace MonitoredOk

variable {s : MonitoredProtocol}

theorem new (partitionID owner : String) (symbols : List String) (now : Int)
    (coordinator : Option TransferCoordinator) :
    MonitoredOk (newMonitoredProtocol partitionID owner symbols now coordinator) where
  checkpoint := Int.le_refl _
  target := fun hflight => by cases hflight
  keys := fun _ => iff_of_false (fun h => h rfl) not_mem_nil

theorem validate_eq_none_iff (h : MonitoredOk s) : s.validate = none ↔ s.OffsetsThere := by
  have hcheckpoint := h.checkpoint
  unfold MonitoredProtocol.validate TransferProtocol.validateTransferInvariants
    protocol MonitoredProtocol.OffsetsThere
  dsimp only
  rw [if_neg (by omega)]
  split
  next hempty =>
    refine iff_of_false (fun h => by cases h) fun h => ?_
    exact h hempty.1.symm (length_eq_zero_iff.mp hempty.2)
  next hthere =>
    rw [if_neg]
    · refine iff_of_true rfl fun hstate hnil => hthere ⟨hstate.symm, ?_⟩
      exact length_eq_zero_iff.mpr hnil
    · rintro ⟨hstate, hnone⟩
      refine h.target ?_ hnone
      rcases hstate with hstate | hstate | hstate | hstate <;> rw [hstate] <;> rfl

theorem updated (h : MonitoredOk s) {r : Except String OwnershipStateMachine}
    {kafkaSymbols : List String}
    (hr : ∀ fsm, r = .ok fsm → MonitoredOk ⟨{ s.system with fsm := fsm }, kafkaSymbols⟩) :
    MonitoredOk (s.updated r kafkaSymbols) := by
  cases r with
  | error err => exact h
  | ok fsm => exact hr fsm rfl

theorem handle (h : MonitoredOk s) (call : ProtocolCall) : MonitoredOk (s.handle call) := by
  cases call with
  | message msg input =>
    obtain ⟨system, heq, hmove⟩ := s.handle_message msg input
    obtain ⟨hcheckpoint, hlast, hkafka⟩ := hmove.marks
    rw [heq]
    refine ⟨?_, hmove.target h.target, fun symbol => ?_⟩
    · show system.fsm.metadata.checkpointSeq ≤ system.fsm.metadata.lastProcessedSeq
      rw [hcheckpoint, hlast]
      exact h.checkpoint
    · show system.fsm.metadata.kafkaOffset symbol ≠ none ↔ _
      rw [hkafka]
      exact h.keys symbol
  | updateLastProcessedSeq seq =>
    refine h.updated fun fsm hok => ?_
    obtain ⟨hle, rfl⟩ := updateLastProcessedSeq_eq_ok hok
    exact ⟨h.checkpoint.trans hle, h.target, h.keys⟩
  | updateCheckpoint seq =>
    refine h.updated fun fsm hok => ?_
    obtain ⟨hle, rfl⟩ := updateCheckpoint_eq_ok hok
    exact ⟨hle, h.target, h.keys⟩
  | updateKafkaOffset symbol offset =>
    refine h.updated fun fsm hok => ?_
    rw [(updateKafkaOffset_eq_ok hok).2]
    refine ⟨h.checkpoint, h.target, fun symbol' => ?_⟩
    show Function.update s.system.fsm.metadata.kafkaOffset symbol (some offset) symbol' ≠ none ↔
      symbol' ∈ s.kafkaSymbols.insert symbol
    rw [mem_insert_iff]
    by_cases heq : symbol' = symbol
    · subst heq
      rw [Function.update_self]
      exact iff_of_true (fun h => by cases h) (.inl rfl)
    · rw [Function.update_of_ne heq, or_iff_right heq]
      exact h.keys symbol'

theorem run (h : MonitoredOk s) (calls : List ProtocolCall) : MonitoredOk (s.run calls) := by
  induction calls generalizing s with
  | nil => exact h
  | cons call rest ih => exact ih (h.handle call)

end MonitoredOk

namespace MonitoredProtocol

variable {s : MonitoredProtocol}

theorem OffsetsThere.handle (h : s.OffsetsThere) {call : ProtocolCall}
    (hcall : s.FlushesWithOffset call) : (s.handle call).OffsetsThere := by
  -- an update keeps the state, and what is recorded stays recorded
  have hupdate : ∀ {r : Except String OwnershipStateMachine} {kafkaSymbols : List String},
      (∀ fsm, r = .ok fsm → s.system.fsm.Progressed fsm) →
      (kafkaSymbols = [] → s.kafkaSymbols = []) → (s.updated r kafkaSymbols).OffsetsThere := by
    intro r kafkaSymbols hr hkeys hstate hnil
    obtain ⟨hsame, hkept⟩ := handle_update hr hkeys
    rw [hsame] at hstate
    exact h hstate (hkept hnil)
  cases call with
  | message msg input =>
    obtain ⟨system, heq, hmove⟩ := s.handle_message msg input
    rw [heq]
    intro hstate
    rcases hmove.flushed hstate with hbefore | ⟨hfrozen, sourceOwner, rfl⟩
    · exact h hbefore
    · exact hcall hfrozen
  | updateLastProcessedSeq seq =>
    refine hupdate (fun fsm hok => ?_) id
    rw [(updateLastProcessedSeq_eq_ok hok).2]
    exact .mk ..
  | updateCheckpoint seq =>
    refine hupdate (fun fsm hok => ?_) id
    rw [(updateCheckpoint_eq_ok hok).2]
    exact .mk ..
  | updateKafkaOffset symbol offset =>
    refine hupdate (fun fsm hok => ?_) fun hnil => ?_
    · rw [(updateKafkaOffset_eq_ok hok).2]
      exact .mk ..
    · exact absurd (mem_insert_self : symbol ∈ s.kafkaSymbols.insert symbol) (by
        rw [hnil]
        exact not_mem_nil)

theorem flush_state (hfrozen : s.system.fsm.metadata.state = .frozen) (sourceOwner : String)
    (input : TransitionInput) :
    (s.handle (.message (.completeFlushing sourceOwner) input)).system.fsm.metadata.state =
      .flushing := by
  have hgated : s.system.protocol.gated "flush" "failed to flush: " .frozen .flushing "Flush"
      sourceOwner input =
      .ok (s.system.fsm.enter .frozen .flushing "Flush" sourceOwner input) := by
    unfold TransferProtocol.gated protocol transition
    dsimp only
    rw [hfrozen]
    rfl
  show (s.system.attempted ((s.system.protocol.completeFlushing sourceOwner input input.now).map
    Prod.snd)).fsm.metadata.state = _
  rw [completeFlushing_eq, hgated]
  rfl

end MonitoredProtocol

/-- For every machine and every sequence of calls, accepted or refused: the check passes after every
call exactly if every flush that is accepted finds a Kafka offset recorded. -/
theorem invariants_hold_iff (partitionID owner : String) (symbols : List String) (now : Int)
    (coordinator : Option TransferCoordinator) (calls : List ProtocolCall) :
    (∀ pre, pre <+: calls →
      ((newMonitoredProtocol partitionID owner symbols now coordinator).run pre).validate = none) ↔
    ∀ pre call, pre ++ [call] <+: calls →
      ((newMonitoredProtocol partitionID owner symbols now coordinator).run
        pre).FlushesWithOffset call := by
  have hok : ∀ pre, MonitoredOk
      ((newMonitoredProtocol partitionID owner symbols now coordinator).run pre) :=
    (MonitoredOk.new partitionID owner symbols now coordinator).run
  have hstart : (newMonitoredProtocol partitionID owner symbols now coordinator).OffsetsThere := by
    rintro (hstate | hstate) <;> cases hstate
  generalize newMonitoredProtocol partitionID owner symbols now coordinator = s at hok hstart ⊢
  have hconcat : ∀ pre call, s.run (pre ++ [call]) = (s.run pre).handle call := fun pre call =>
    foldl_append
  constructor
  · intro hvalid pre call hpre
    cases call with
    | message msg input =>
      cases msg with
      | completeFlushing sourceOwner =>
        intro hfrozen
        have hafter := (hok _).validate_eq_none_iff.mp (hvalid _ hpre)
        rw [hconcat] at hafter
        exact hafter (.inl (MonitoredProtocol.flush_state hfrozen sourceOwner input))
      | _ => trivial
    | _ => trivial
  · intro hflushes pre hpre
    rw [(hok pre).validate_eq_none_iff]
    -- along the run the offsets are there from the flush on
    induction pre using List.reverseRecOn with
    | nil => exact hstart
    | append_singleton pre call ih =>
      rw [hconcat]
      exact (ih ((prefix_append pre [call]).trans hpre)).handle (hflushes pre call hpre)

/-! ## A transfer without offsets -/

def messagesToB : List ProtocolCall :=
  [.message (.startTransfer requestToB) quietInput, .message (.freezeSignal freezeOfA) quietInput,
    .message (.completeFlushing "A") quietInput, .message (.transferSignal signalToB) quietInput]

/-- Nothing is refused on the way to `Flushing`, where the check fails. -/
theorem flushed_without_offset :
    let s := (newMonitoredProtocol "p" "A" ["BTC/USDT"] 0 none).run (messagesToB.take 3)
    s.system.fsm.metadata.state = .flushing ∧
      s.validate = some "invariant violation: KafkaOffset empty during transfer" := by
  decide +kernel

end CexHertz
