import CexHertz.Model.OwnershipMigration

/-!
# The messages of a transfer

`transfer_protocol.go`. The handlers look at the state of the machine only: a message acts on the
transfer under way when it arrives, whichever it was sent for. Messages are handled one at a time.
-/

namespace CexHertz

open OwnershipStateMachine

structure TransferRequest where
  partitionID : String
  sourceOwner : String
  targetOwner : String
  timeoutMs : Int
  maxRetries : Int
  requestTime : Int
  requestID : String
  deriving DecidableEq

structure TransferResponse where
  accepted : Bool
  reason : String
  checkpointSeq : Int
  responseTime : Int
  requestID : String
  deriving DecidableEq

structure FreezeSignal where
  partitionID : String
  freezeTimestamp : Int
  freezeTime : Int
  sourceOwner : String

structure FlushAck where
  partitionID : String
  lastProcessedSeq : Int
  checkpointSeq : Int
  kafkaOffsets : String → Option Int
  sourceOwner : String
  flushTime : Int
  requestID : String

structure TransferSignal where
  partitionID : String
  sourceOwner : String
  targetOwner : String
  startFromSeq : Int
  startFromCheckpoint : Int
  kafkaOffsets : String → Option Int
  transferTime : Int
  requestID : String

namespace OwnershipStateMachine

variable (fsm : OwnershipStateMachine)

/-- `StartMigration` without another call between its sections: the error and the machine. -/
def startMigration (targetOwner actor : String) (input : TransitionInput) :
    Option String × OwnershipStateMachine :=
  let fsm := fsm.setTargetOwner targetOwner
  match fsm.transition .migrationPending "StartMigration" actor input with
  | .error err => (some err, fsm)
  | .ok fsm' => (none, fsm')

def rollback (actor : String) (input : TransitionInput) : Option String × OwnershipStateMachine :=
  let fsm := fsm.setTargetOwner ""
  match fsm.transition .failed "Rollback" actor input with
  | .error err => (some err, fsm)
  | .ok fsm' => (none, fsm')

end OwnershipStateMachine

structure TransferProtocol where
  fsm : Option OwnershipStateMachine

def notInitialized : String := "state machine not initialized"

namespace TransferProtocol

variable (tp : TransferProtocol)

def startTransfer (req : TransferRequest) (input : TransitionInput) (responseTime : Int) :
    Except String (TransferResponse × OwnershipStateMachine) :=
  match tp.fsm with
  | none => .error notInitialized
  | some fsm =>
    if fsm.metadata.state ≠ .owned then
      .ok (⟨false, "source not in Owned state, current state: " ++ fsm.metadata.state.name, -1,
          responseTime, req.requestID⟩, fsm)
    else
      match fsm.startMigration req.targetOwner "protocol" input with
      | (some err, fsm) =>
        .ok
          (⟨false, "failed to start migration: " ++ err, -1, responseTime, req.requestID⟩, fsm)
      | (none, fsm) =>
        .ok (⟨true, "", fsm.metadata.checkpointSeq, responseTime, req.requestID⟩, fsm)

/-- The shape of the four handlers that follow a transition: a test of the state, and the transition
with its error under `context`. -/
def gated (verb context : String) (expected toState : OwnershipState) (reason actor : String)
    (input : TransitionInput) : Except String OwnershipStateMachine :=
  match tp.fsm with
  | none => .error notInitialized
  | some fsm =>
    if fsm.metadata.state ≠ expected then
      .error ("cannot " ++ verb ++ ": not in " ++ expected.name ++ " state, current: " ++
        fsm.metadata.state.name)
    else
      match fsm.transition toState reason actor input with
      | .error err => .error (context ++ err)
      | .ok fsm' => .ok fsm'

def applyFreezeSignal (sig : FreezeSignal) (input : TransitionInput) :
    Except String OwnershipStateMachine :=
  tp.gated "freeze" "" .migrationPending .frozen "Freeze" sig.sourceOwner input

def completeFlushing (sourceOwner : String) (input : TransitionInput) (flushTime : Int) :
    Except String (FlushAck × OwnershipStateMachine) :=
  match tp.gated "flush" "failed to flush: " .frozen .flushing "Flush" sourceOwner input with
  | .error err => .error err
  | .ok fsm =>
    -- the request id stays empty
    .ok (
      { partitionID := fsm.metadata.partitionID
        lastProcessedSeq := fsm.metadata.lastProcessedSeq
        checkpointSeq := fsm.metadata.checkpointSeq
        kafkaOffsets := fsm.metadata.kafkaOffset
        sourceOwner := sourceOwner
        flushTime := flushTime
        requestID := "" }, fsm)

def applyTransferSignal (sig : TransferSignal) (input : TransitionInput) :
    Except String OwnershipStateMachine :=
  tp.gated "transfer" "failed to transfer: " .flushing .transferring "Transfer" sig.sourceOwner
    input

def commitTransfer (targetOwner : String) (input : TransitionInput) :
    Except String OwnershipStateMachine :=
  tp.gated "commit" "" .transferring .standby "Commit" targetOwner input

def rollbackTransfer (reason : String) (input : TransitionInput) :
    Except String (Option String × OwnershipStateMachine) :=
  match tp.fsm with
  | none => .error notInitialized
  | some fsm => .ok (fsm.rollback reason input)

end TransferProtocol

/-! ## Messages in the order of arrival -/

inductive TransferMessage where
  | startTransfer (req : TransferRequest)
  | freezeSignal (sig : FreezeSignal)
  | completeFlushing (sourceOwner : String)
  | transferSignal (sig : TransferSignal)
  | commitTransfer (targetOwner : String)
  | rollbackTransfer (reason : String)
  | recover (actor : String)

/-- A protocol, and the request whose acceptance opened the attempt in progress. -/
structure ProtocolSystem where
  fsm : OwnershipStateMachine
  attempt : Option TransferRequest

open ProtocolSystem

def newProtocolSystem (partitionID owner : String) (symbols : List String) (now : Int)
    (coordinator : Option TransferCoordinator) : ProtocolSystem :=
  ⟨newOwnershipStateMachine partitionID owner symbols now coordinator, none⟩

namespace ProtocolSystem

variable (s : ProtocolSystem)

def protocol : TransferProtocol := ⟨some s.fsm⟩

def become (fsm : OwnershipStateMachine) : ProtocolSystem :=
  ⟨fsm, if fsm.metadata.state.inFlight then s.attempt else none⟩

def attempted (r : Except String OwnershipStateMachine) : ProtocolSystem :=
  match r with
  | .error _ => s
  | .ok fsm => s.become fsm

/-- Handle a message; the clock readings of the replies are those of the transition. -/
def step (label : TransferMessage × TransitionInput) : Option ProtocolSystem :=
  let input := label.2
  match label.1 with
  | .startTransfer req =>
    match s.protocol.startTransfer req input input.now with
    | .error _ => some s
    | .ok (response, fsm) =>
      some ⟨fsm, if response.accepted then some req else s.attempt⟩
  | .freezeSignal sig => some (s.attempted (s.protocol.applyFreezeSignal sig input))
  | .completeFlushing sourceOwner =>
    some (s.attempted ((s.protocol.completeFlushing sourceOwner input input.now).map Prod.snd))
  | .transferSignal sig => some (s.attempted (s.protocol.applyTransferSignal sig input))
  | .commitTransfer targetOwner =>
    some (s.attempted (s.protocol.commitTransfer targetOwner input))
  | .rollbackTransfer reason =>
    some (s.attempted ((s.protocol.rollbackTransfer reason input).map Prod.snd))
  | .recover actor => some (s.attempted (s.fsm.transition .owned "Recover" actor input))

end ProtocolSystem

/-! ## What a message can do -/

def TransferMessage.edge : TransferMessage → Option (OwnershipState × OwnershipState)
  | .freezeSignal _ => some (.migrationPending, .frozen)
  | .completeFlushing _ => some (.frozen, .flushing)
  | .transferSignal _ => some (.flushing, .transferring)
  | .commitTransfer _ => some (.transferring, .standby)
  | _ => none

namespace OwnershipStateMachine

variable {fsm fsm' : OwnershipStateMachine} {fromState toState : OwnershipState} {reason : String}
  {input : TransitionInput}

def withoutActors (fsm : OwnershipStateMachine) : OwnershipStateMachine :=
  { fsm with
    metadata := { fsm.metadata with
      transitionHistory := fsm.metadata.transitionHistory.map fun t => { t with actor := "" } } }

theorem map_limitHistory (history : List StateTransition) (f : StateTransition → StateTransition) :
    (limitHistory history).map f = limitHistory (history.map f) := by
  unfold limitHistory
  rw [List.length_map]
  split
  · rw [List.map_drop]
  · rfl

theorem enter_withoutActors (fsm : OwnershipStateMachine) (actor actor' : String) :
    (fsm.enter fromState toState reason actor input).withoutActors =
      (fsm.enter fromState toState reason actor' input).withoutActors := by
  unfold withoutActors enter
  simp only [map_limitHistory, List.map_append, List.map_cons, List.map_nil]

theorem transition_withoutActors (fsm : OwnershipStateMachine) (toState : OwnershipState)
    (reason actor actor' : String) (input : TransitionInput) :
    (fsm.transition toState reason actor input).map withoutActors =
      (fsm.transition toState reason actor' input).map withoutActors := by
  unfold transition
  dsimp only
  split
  next => rfl
  next =>
    split
    next => rfl
    next =>
      split
      next => rfl
      next mid _ => exact congrArg Except.ok (mid.enter_withoutActors actor actor')

theorem rollback_not_inFlight (fsm : OwnershipStateMachine) (actor : String)
    (input : TransitionInput) : (fsm.rollback actor input).2.metadata.state.inFlight = false := by
  unfold rollback
  dsimp only
  split
  next err herr =>
    by_contra hflight
    rw [Bool.not_eq_false] at hflight
    obtain ⟨fsm', hfsm', -⟩ := transition_failed_of_inFlight hflight "Rollback" actor input
    rw [herr] at hfsm'
    cases hfsm'
  next fsm' hfsm' =>
    obtain ⟨mid, -, rfl⟩ := transition_edge hfsm'
    rfl

end OwnershipStateMachine

namespace ProtocolSystem

variable (s : ProtocolSystem) {input : TransitionInput} {fromState toState : OwnershipState}

theorem completeFlushing_eq (tp : TransferProtocol) (sourceOwner : String) (input : TransitionInput)
    (flushTime : Int) :
    (tp.completeFlushing sourceOwner input flushTime).map Prod.snd =
      tp.gated "flush" "failed to flush: " .frozen .flushing "Flush" sourceOwner input := by
  unfold TransferProtocol.completeFlushing
  split
  next err heq => exact heq.symm
  next fsm heq => exact heq.symm

theorem step_of_edge (input : TransitionInput) {msg : TransferMessage}
    (hedge : msg.edge = some (fromState, toState)) :
    ∃ verb context reason, ∀ msg : TransferMessage, msg.edge = some (fromState, toState) →
      ∃ actor, s.step (msg, input) = some (s.attempted
          (s.protocol.gated verb context fromState toState reason actor input)) := by
  cases msg with
  | freezeSignal sig =>
    cases hedge
    refine ⟨"freeze", "", "Freeze", fun msg h => ?_⟩
    cases msg with
    | freezeSignal sig => exact ⟨_, rfl⟩
    | _ => cases h
  | completeFlushing sourceOwner =>
    cases hedge
    refine ⟨"flush", "failed to flush: ", "Flush", fun msg h => ?_⟩
    cases msg with
    | completeFlushing sourceOwner =>
      exact ⟨sourceOwner, congrArg (fun r => some (s.attempted r)) (completeFlushing_eq ..)⟩
    | _ => cases h
  | transferSignal sig =>
    cases hedge
    refine ⟨"transfer", "failed to transfer: ", "Transfer", fun msg h => ?_⟩
    cases msg with
    | transferSignal sig => exact ⟨_, rfl⟩
    | _ => cases h
  | commitTransfer targetOwner =>
    cases hedge
    refine ⟨"commit", "", "Commit", fun msg h => ?_⟩
    cases msg with
    | commitTransfer targetOwner => exact ⟨_, rfl⟩
    | _ => cases h
  | startTransfer | rollbackTransfer | recover => cases hedge

variable {s}

theorem gated_eq_ok {verb context reason actor : String} {fsm' : OwnershipStateMachine}
    (h : s.protocol.gated verb context fromState toState reason actor input = .ok fsm') :
    s.fsm.metadata.state = fromState ∧ s.fsm.transition toState reason actor input = .ok fsm' := by
  unfold TransferProtocol.gated protocol at h
  dsimp only at h
  split at h
  next => cases h
  next hstate =>
    split at h
    next => cases h
    next fsm heq =>
      cases h
      exact ⟨not_not.mp hstate, heq⟩

theorem attempted_withoutActors {r r' : Except String OwnershipStateMachine}
    (h : r.map withoutActors = r'.map withoutActors) :
    (s.attempted r).fsm.withoutActors = (s.attempted r').fsm.withoutActors ∧
    (s.attempted r).attempt = (s.attempted r').attempt := by
  cases r with
  | error err =>
    cases r' with
    | error err' => exact ⟨rfl, rfl⟩
    | ok fsm' => cases h
  | ok fsm =>
    cases r' with
    | error err' => cases h
    | ok fsm' =>
      have heq : fsm.withoutActors = fsm'.withoutActors := Except.ok.inj h
      refine ⟨heq, ?_⟩
      have hstate : fsm.metadata.state = fsm'.metadata.state :=
        congrArg (fun m => m.metadata.state) heq
      exact if_congr (by rw [hstate]) rfl rfl

theorem gated_withoutActors (verb context reason actor actor' : String) :
    (s.protocol.gated verb context fromState toState reason actor input).map
        withoutActors =
      (s.protocol.gated verb context fromState toState reason actor' input).map
        withoutActors := by
  unfold TransferProtocol.gated protocol
  dsimp only
  split
  next => rfl
  next =>
    have h := s.fsm.transition_withoutActors toState reason actor actor' input
    generalize s.fsm.transition toState reason actor input = r,
      s.fsm.transition toState reason actor' input = r' at h
    cases r with
    | error err =>
      cases r' with
      | error err' =>
        cases h
        rfl
      | ok fsm' => cases h
    | ok fsm =>
      cases r' with
      | error err' => cases h
      | ok fsm' => exact h

end ProtocolSystem

structure ProtocolOk (s : ProtocolSystem) : Prop where
  attempt : ∀ req, s.attempt = some req →
    s.fsm.metadata.state.inFlight = true ∧ s.fsm.metadata.targetOwner = req.targetOwner
  opened : s.fsm.metadata.state.inFlight = true → s.attempt ≠ none

namespace ProtocolOk

variable {s s' : ProtocolSystem}

theorem new (partitionID owner : String) (symbols : List String) (now : Int)
    (coordinator : Option TransferCoordinator) :
    ProtocolOk (newProtocolSystem partitionID owner symbols now coordinator) :=
  ⟨nofun, nofun⟩

theorem of_not_inFlight (hflight : s.fsm.metadata.state.inFlight = false)
    (hnone : s.attempt = none) : ProtocolOk s where
  attempt := fun req hreq => by
    rw [hnone] at hreq
    cases hreq
  opened := fun htrue => by
    rw [hflight] at htrue
    cases htrue

theorem attempt_eq_none (h : ProtocolOk s) (hflight : s.fsm.metadata.state.inFlight = false) :
    s.attempt = none := by
  cases hattempt : s.attempt with
  | none => rfl
  | some req =>
    rw [(h.attempt req hattempt).1] at hflight
    cases hflight

theorem become (h : ProtocolOk s) {fsm : OwnershipStateMachine}
    (hnext : fsm.metadata.state.inFlight = true → s.fsm.metadata.state.inFlight = true ∧
      fsm.metadata.targetOwner = s.fsm.metadata.targetOwner) : ProtocolOk (s.become fsm) := by
  cases hflight : fsm.metadata.state.inFlight with
  | false =>
    refine of_not_inFlight hflight ?_
    unfold ProtocolSystem.become
    rw [hflight]
    rfl
  | true =>
    obtain ⟨hbefore, htarget⟩ := hnext hflight
    unfold ProtocolSystem.become
    rw [hflight]
    refine ⟨fun req hreq => ⟨hflight, ?_⟩, fun _ => h.opened hbefore⟩
    rw [htarget]
    exact (h.attempt req hreq).2

theorem attempted (h : ProtocolOk s) {r : Except String OwnershipStateMachine}
    (hr : ∀ fsm, r = .ok fsm → fsm.metadata.state.inFlight = true →
      s.fsm.metadata.state.inFlight = true ∧
        fsm.metadata.targetOwner = s.fsm.metadata.targetOwner) : ProtocolOk (s.attempted r) := by
  cases r with
  | error err => exact h
  | ok fsm => exact h.become (hr fsm rfl)

theorem transition_inFlight {fsm fsm' : OwnershipStateMachine} {toState : OwnershipState}
    {reason actor : String} {input : TransitionInput} (hto : toState ≠ .migrationPending)
    (h : fsm.transition toState reason actor input = .ok fsm')
    (hflight : fsm'.metadata.state.inFlight = true) :
    fsm.metadata.state.inFlight = true ∧ fsm'.metadata.targetOwner = fsm.metadata.targetOwner := by
  obtain ⟨mid, hedge, rfl⟩ := transition_edge h
  have hflight : toState.inFlight = true := hflight
  generalize fsm.metadata.state = fromState at *
  cases hedge with
  | start => exact absurd rfl hto
  | freeze | flush | transfer | initiate => exact ⟨rfl, rfl⟩
  | commit | fail | recover => cases hflight

theorem startTransfer (h : ProtocolOk s) {req : TransferRequest} {input : TransitionInput}
    (hstep : s.step (.startTransfer req, input) = some s') : ProtocolOk s' := by
  unfold step TransferProtocol.startTransfer protocol
    startMigration at hstep
  dsimp only at hstep
  by_cases howned : s.fsm.metadata.state = .owned
  · have hnone : s.attempt = none := h.attempt_eq_none (by rw [howned]; rfl)
    rw [if_neg (not_not.mpr howned)] at hstep
    cases hstart : (s.fsm.setTargetOwner req.targetOwner).transition .migrationPending
        "StartMigration" "protocol" input with
    | error err =>
      -- the target is written all the same, but no migration is under way
      rw [hstart] at hstep
      cases hstep
      refine of_not_inFlight ?_ hnone
      change s.fsm.metadata.state.inFlight = false
      rw [howned]
      rfl
    | ok fsm' =>
      rw [hstart] at hstep
      cases hstep
      obtain ⟨mid, hedge, rfl⟩ := transition_edge hstart
      refine ⟨fun req' hreq => ⟨rfl, ?_⟩, fun _ => nofun⟩
      cases hreq
      generalize (s.fsm.setTargetOwner req.targetOwner).metadata.state = fromState at hedge
      cases hedge
      rfl
  · rw [if_pos howned] at hstep
    cases hstep
    exact h

theorem step (h : ProtocolOk s) {label : TransferMessage × TransitionInput}
    (hstep : s.step label = some s') : ProtocolOk s' := by
  obtain ⟨msg, input⟩ := label
  have hsignal : ∀ fromState toState, msg.edge = some (fromState, toState) →
      toState ≠ .migrationPending → ProtocolOk s' := by
    intro fromState toState hedge hto
    obtain ⟨verb, context, reason, hall⟩ := s.step_of_edge input hedge
    obtain ⟨actor, heq⟩ := hall msg hedge
    rw [heq] at hstep
    cases hstep
    exact h.attempted fun fsm hok hflight =>
      transition_inFlight hto (gated_eq_ok hok).2 hflight
  cases msg with
  | startTransfer req => exact h.startTransfer hstep
  | freezeSignal | completeFlushing | transferSignal | commitTransfer => exact hsignal _ _ rfl nofun
  | rollbackTransfer reason =>
    cases hstep
    refine h.attempted fun fsm hok hflight => ?_
    cases hok
    rw [rollback_not_inFlight] at hflight
    cases hflight
  | recover actor =>
    cases hstep
    refine h.attempted fun fsm hok hflight => transition_inFlight ?_ hok hflight
    nofun

end ProtocolOk

structure Advances (s s' : ProtocolSystem) (req : TransferRequest)
    (fromState toState : OwnershipState) : Prop where
  attempt : s.attempt = some req
  before : s.fsm.metadata.state = fromState
  after : s'.fsm.metadata.state = toState
  underWay : toState ≠ .standby → s'.attempt = some req ∧
    s'.fsm.metadata.currentOwner = s.fsm.metadata.currentOwner ∧
    s'.fsm.metadata.targetOwner = req.targetOwner
  committed : toState = .standby → s'.fsm.metadata.previousOwner = s.fsm.metadata.currentOwner ∧
    s'.fsm.metadata.currentOwner = req.targetOwner

theorem ProtocolOk.advances {s s' : ProtocolSystem} (h : ProtocolOk s) {msg : TransferMessage}
    {input : TransitionInput} {fromState toState : OwnershipState}
    (hedge : msg.edge = some (fromState, toState)) (hstep : s.step (msg, input) = some s') :
    s' = s ∨ ∃ req, Advances s s' req fromState toState := by
  obtain ⟨verb, context, reason, hall⟩ := s.step_of_edge input hedge
  obtain ⟨actor, heq⟩ := hall msg hedge
  rw [heq] at hstep
  cases hgated : s.protocol.gated verb context fromState toState reason actor input with
  | error err =>
    rw [hgated] at hstep
    cases hstep
    exact .inl rfl
  | ok fsm' =>
    rw [hgated] at hstep
    cases hstep
    obtain ⟨hfrom, hok⟩ := gated_eq_ok hgated
    obtain ⟨mid, hmove, rfl⟩ := transition_edge hok
    have hflight : s.fsm.metadata.state.inFlight = true := by
      rw [hfrom]
      cases msg <;> cases hedge <;> rfl
    obtain ⟨req, hreq⟩ := Option.ne_none_iff_exists'.mp (h.opened hflight)
    have htarget := (h.attempt req hreq).2
    refine .inr ⟨req, ?_⟩
    rw [hfrom] at hmove
    cases hmove with
    | freeze | flush | transfer | initiate =>
      exact ⟨hreq, hfrom, rfl, fun _ => ⟨hreq, rfl, htarget⟩, nofun⟩
    | commit => exact ⟨hreq, hfrom, rfl, fun hne => absurd rfl hne, fun _ => ⟨rfl, htarget⟩⟩
    -- the other edges are not those of a message
    | start => cases msg <;> cases hedge
    | fail => cases msg <;> cases hedge
    | recover => cases msg <;> cases hedge

/-- Every message for a step of a transfer is without effect, or it takes the attempt in progress
over that step.  What else the message says is recorded as the actor and changes nothing; a commit
makes the target of the attempt in progress the owner. -/
theorem message_advances_attempt_in_progress (partitionID owner : String) (symbols : List String)
    (now : Int) (coordinator : Option TransferCoordinator) (s s' : ProtocolSystem)
    (msg : TransferMessage) (input : TransitionInput) (fromState toState : OwnershipState)
    (hrun : Run.Reaches step (fun _ _ => True)
      (newProtocolSystem partitionID owner symbols now coordinator) s)
    (hedge : msg.edge = some (fromState, toState)) (hstep : s.step (msg, input) = some s') :
    (s' = s ∨ ∃ req, Advances s s' req fromState toState) ∧
    ∀ msg' s'', msg'.edge = msg.edge → s.step (msg', input) = some s'' →
      s''.fsm.withoutActors = s'.fsm.withoutActors ∧ s''.attempt = s'.attempt := by
  have h : ProtocolOk s := hrun.invariant (ProtocolOk.new partitionID owner symbols now coordinator)
    fun _ _ _ hs _ hstep => hs.step hstep
  refine ⟨h.advances hedge hstep, fun msg' s'' hsame hstep' => ?_⟩
  obtain ⟨verb, context, reason, hall⟩ := s.step_of_edge input hedge
  obtain ⟨actor, heq⟩ := hall msg hedge
  obtain ⟨actor', heq'⟩ := hall msg' (hsame.trans hedge)
  rw [heq] at hstep
  rw [heq'] at hstep'
  cases hstep
  cases hstep'
  exact attempted_withoutActors (gated_withoutActors ..)

/-! ## Messages of an earlier attempt -/

def requestToB : TransferRequest := ⟨"p", "A", "B", 30000, 3, 0, "req-1"⟩

def requestToC : TransferRequest := ⟨"p", "A", "C", 30000, 3, 0, "req-2"⟩

def freezeOfA : FreezeSignal := ⟨"p", 0, 0, "A"⟩

def signalToB : TransferSignal := ⟨"p", "A", "B", 0, 0, fun _ => none, 0, "req-1"⟩

/-- A transfer to `B` is rolled back; the transfer to `C` has got as far as `Flushing`. -/
def secondAttempt : List (TransferMessage × TransitionInput) :=
  [.startTransfer requestToB, .rollbackTransfer "timeout", .recover "A", .startTransfer requestToC,
    .freezeSignal freezeOfA, .completeFlushing "A"].map fun msg => (msg, quietInput)

/-- The commit for `B` arrives in the transfer to `C`. -/
theorem secondAttempt_commits_for_C : ∃ s s' req, Run.Reaches step (fun _ _ => True)
        (newProtocolSystem "p" "A" ["BTC/USDT"] 0 none) s ∧
      s.step (.commitTransfer "B", quietInput) = some s' ∧ s'.fsm.metadata.currentOwner = "C" ∧
      Advances s s' req .transferring .standby := by
  obtain ⟨s, s', hreach, hstep, hbefore, hafter⟩ : ∃ s s', Run.Reaches step
      (fun _ _ => True) (newProtocolSystem "p" "A" ["BTC/USDT"] 0 none) s ∧
      s.step (.commitTransfer "B", quietInput) = some s' ∧ s.fsm.metadata.currentOwner = "A" ∧
      s'.fsm.metadata.currentOwner = "C" :=
    Run.exists_reaches_step (secondAttempt ++ [(.transferSignal signalToB, quietInput)])
      (.commitTransfer "B", quietInput) (by decide +kernel) fun _ _ _ hstep h => ⟨hstep, h⟩
  have h := message_advances_attempt_in_progress "p" "A" ["BTC/USDT"] 0 none s s'
    (.commitTransfer "B") quietInput _ _ hreach rfl hstep
  rcases h.1 with rfl | ⟨req, hadvances⟩
  · rw [hbefore] at hafter
    exact absurd hafter (by decide)
  · exact ⟨s, s', req, hreach, hstep, hafter, hadvances⟩

/-- The signal and the commit for `B` are accepted in the transfer to `C`. -/
theorem stale_messages_accepted : (∃ s s', Run.Reaches step (fun _ _ => True)
        (newProtocolSystem "p" "A" ["BTC/USDT"] 0 none) s ∧ s.attempt = some requestToC ∧
      s.step (.transferSignal signalToB, quietInput) = some s' ∧
      signalToB.requestID ≠ requestToC.requestID ∧
      signalToB.targetOwner ≠ requestToC.targetOwner ∧
      s'.fsm.metadata.state ≠ s.fsm.metadata.state) ∧
    (∃ s s', Run.Reaches step (fun _ _ => True)
        (newProtocolSystem "p" "A" ["BTC/USDT"] 0 none) s ∧
      s.fsm.metadata.targetOwner = "C" ∧
      s.step (.commitTransfer "B", quietInput) = some s' ∧ s'.fsm.metadata.state = .standby) := by
  constructor
  · exact Run.exists_reaches_step secondAttempt (.transferSignal signalToB, quietInput)
      (P := fun s s' => s.attempt = some requestToC ∧
        s'.fsm.metadata.state ≠ s.fsm.metadata.state) (by decide +kernel)
      fun _ _ _ hstep ⟨hattempt, hne⟩ => ⟨hattempt, hstep, by decide, by decide, hne⟩
  · exact Run.exists_reaches_step (secondAttempt ++ [(.transferSignal signalToB, quietInput)])
      (.commitTransfer "B", quietInput)
      (P := fun s s' => s.fsm.metadata.targetOwner = "C" ∧ s'.fsm.metadata.state = .standby)
      (by decide +kernel) fun _ _ _ hstep ⟨htarget, hstandby⟩ => ⟨htarget, hstep, hstandby⟩

end CexHertz
