import CexHertz.Lib.Table
import CexHertz.Model.OwnershipTrace
import Mathlib.Data.List.TakeWhile

/-!
# Transfers recorded in a database

`db_transfer_coordinator.go` with the ownership machine of one partition and a target node that
marks transfers as completed. Neither `Rollback` nor `Recover` looks at a record, so source and
target agree only if the mark comes while its transfer is under way and a marked transfer is not
rolled back.
-/

namespace CexHertz

open List TransitionCall

inductive TransferStatus where
  | pending
  | inProgress
  | completed
  | failed
  deriving DecidableEq

structure TransferRow extends OwnershipTransfer where
  id : Nat
  status : TransferStatus
  attempts : Int
  lastError : String
  deriving DecidableEq

/-- `fmt.Sscanf` with `%d` into an unsigned integer; what follows the digits is not looked at. -/
def scanUint (text : String) : Except String Nat :=
  match FloatText.skipSpace text.toList with
  | none => .error "unexpected newline"
  | some [] => .error "EOF"
  | some cs =>
    let digits := cs.takeWhile Char.isDigit
    if digits = [] then .error "expected integer"
    else
      let id := Nat.ofDigitChars 10 digits 0
      if id < 2 ^ 64 then .ok id
      else
        .error ("strconv.ParseUint: parsing \"" ++ String.ofList digits ++
          "\": value out of range")

structure DBTransferCoordinator where
  rows : List TransferRow

namespace DBTransferCoordinator

variable (c : DBTransferCoordinator)

/-- The database chooses the id; `fault` is its error, if any. -/
def initiateTransfer (partitionID fromOwner toOwner : String) (checkpointSeq : Int) (id : Nat)
    (fault : Option String) : Except String String × DBTransferCoordinator :=
  match fault with
  | some err => (.error err, c)
  | none =>
    (.ok (toString id), ⟨c.rows ++
        [{ partitionID := partitionID
           fromOwner := fromOwner
           toOwner := toOwner
           checkpointSeq := checkpointSeq
           id := id
           status := .pending
           attempts := 0
           lastError := "" }]⟩)

def getTransfer (transferID : String) (fault : Option String) : Except String (Nat × TransferRow) :=
  match scanUint transferID with
  | .error err => .error err
  | .ok id =>
    match fault with
    | some err => .error err
    | none =>
      match Table.first TransferRow.id id c.rows with
      | none => .error "record not found"
      | some found => .ok found

def isTargetReady (transferID : String) (fault : Option String) : Except String Bool :=
  match c.getTransfer transferID fault with
  | .error err => .error err
  | .ok (_, tr) => .ok (decide (tr.status = .completed))

/-- The query and the `Save` are one step, at the time of the `Save`: nothing else writes to a
record in between. -/
def markTransferCompleted (transferID : String) (readFault saveFault : Option String) :
    Except String DBTransferCoordinator :=
  match c.getTransfer transferID readFault with
  | .error err => .error err
  | .ok (place, tr) =>
    match saveFault with
    | some err => .error err
    | none => .ok ⟨c.rows.set place { tr with status := .completed }⟩

end DBTransferCoordinator

open DBTransferCoordinator

/-! ## Source, target and database -/

structure DatabaseInput where
  newID : Nat
  createFault : Option String
  readFault : Option String

/-- `rolledBack`: the ids of the records whose attempt ended with `Rollback`. -/
structure TransferSystem where
  source : OwnershipSystem
  coordinator : DBTransferCoordinator
  rolledBack : List Nat

open TransferSystem

def newTransferSystem (partitionID owner : String) (symbols : List String) (now : Int) :
    TransferSystem where
  source := newOwnershipSystem partitionID owner symbols now (some ⟨fun _ => none⟩)
  coordinator := ⟨[]⟩
  rolledBack := []

inductive TransferAction where
  | source (action : OwnershipAction) (input : DatabaseInput)
  | markTransferCompleted (transferID : String) (readFault saveFault : Option String)

def OwnershipAction.answered (initiateTransfer : Except String String)
    (isTargetReady : Except String Bool) : OwnershipAction → OwnershipAction
  | .finish k input =>
    .finish k
      { input with initiateTransfer := initiateTransfer, isTargetReady := isTargetReady }
  | .transition toState reason actor input =>
    .transition toState reason actor
      { input with initiateTransfer := initiateTransfer, isTargetReady := isTargetReady }
  | action => action

def OwnershipAction.setsCoordinator : OwnershipAction → Bool
  | .setTransferCoordinator _ => true
  | _ => false

/-- The section gets past the guard before `Transferring`, so its action calls the coordinator. -/
def OwnershipSystem.initiates (s : OwnershipSystem) (action : OwnershipAction) : Prop :=
  s.fsm.metadata.state = .flushing ∧
  (action.transitionCall s.calls).map toState = some .transferring ∧
  s.fsm.metadata.checkpointSeq ≤ s.fsm.metadata.lastProcessedSeq

instance (s : OwnershipSystem) (action : OwnershipAction) : Decidable (s.initiates action) :=
  inferInstanceAs (Decidable (_ ∧ _))

namespace TransferSystem

variable (s : TransferSystem)

def initiate (input : DatabaseInput) : Except String String × DBTransferCoordinator :=
  s.coordinator.initiateTransfer s.source.fsm.metadata.partitionID
    s.source.fsm.metadata.currentOwner s.source.fsm.metadata.targetOwner
    s.source.fsm.metadata.checkpointSeq input.newID input.createFault

def rolledBackAfter (source : OwnershipSystem) : List Nat :=
  if s.source.fsm.metadata.state = .transferring ∧ source.fsm.metadata.state = .failed then
    (scanUint s.source.fsm.metadata.transferID).toOption.toList ++ s.rolledBack
  else s.rolledBack

def run (action : OwnershipAction) (input : DatabaseInput)
    (initiated : Except String String × DBTransferCoordinator) : Option TransferSystem :=
  let ready := s.coordinator.isTargetReady s.source.fsm.metadata.transferID input.readFault
  match s.source.step (action.answered initiated.1 ready) with
  | none => none
  | some source => some ⟨source, initiated.2, s.rolledBackAfter source⟩

def step : TransferAction → Option TransferSystem
  | .source action input =>
    if action.setsCoordinator then none
    else if s.source.initiates action then
      -- a primary key is given once and fits the field it is read into
      if input.newID < 2 ^ 64 ∧ input.newID ∉ s.coordinator.rows.map TransferRow.id then
        s.run action input (s.initiate input)
      else none
    else s.run action input (.error "", s.coordinator)
  | .markTransferCompleted transferID readFault saveFault =>
    match s.coordinator.markTransferCompleted transferID readFault saveFault with
    | .error _ => some s
    | .ok coordinator => some { s with coordinator := coordinator }

theorem initiate_cases (input : DatabaseInput) :
    (∃ err, s.initiate input = (.error err, s.coordinator)) ∨
    ∃ row : TransferRow, s.initiate input = (.ok (toString row.id), ⟨s.coordinator.rows ++ [row]⟩) ∧
      row.id = input.newID ∧ row.status = .pending := by
  unfold initiate initiateTransfer
  split
  next err _ => exact .inl ⟨err, rfl⟩
  next => exact .inr ⟨⟨_, _, .pending, 0, ""⟩, rfl, rfl, rfl⟩

end TransferSystem

/-! ## Texts of ids -/

theorem skipSpace_toDigits (n : Nat) :
    FloatText.skipSpace (Nat.toDigits 10 n) = some (Nat.toDigits 10 n) := by
  cases hdigits : Nat.toDigits 10 n with
  | nil => rfl
  | cons c cs =>
    have hdigit : c.isDigit = true :=
      Nat.isDigit_of_mem_toDigits (by decide) (by decide) (hdigits ▸ mem_cons_self)
    have hrange : 48 ≤ c.toNat ∧ c.toNat ≤ 57 := Char.isDigit_iff_toNat.mp hdigit
    rw [FloatText.skipSpace, if_neg, if_neg]
    · unfold FloatText.isSpace
      simp only [Bool.or_eq_true, Bool.and_eq_true, decide_eq_true_eq]
      omega
    · rintro rfl
      cases hdigit

theorem scanUint_toString {n : Nat} (hn : n < 2 ^ 64) : scanUint (toString n) = .ok n := by
  have htake : (Nat.toDigits 10 n).takeWhile Char.isDigit = Nat.toDigits 10 n :=
    List.takeWhile_eq_self_iff.mpr fun c hc =>
      Nat.isDigit_of_mem_toDigits (by decide) (by decide) hc
  unfold scanUint
  rw [Nat.toString_eq_repr, Nat.toList_repr, skipSpace_toDigits]
  cases hdigits : Nat.toDigits 10 n with
  | nil => exact absurd hdigits Nat.toDigits_ne_nil
  | cons c cs =>
    dsimp only
    rw [← hdigits, htake, if_neg Nat.toDigits_ne_nil, Nat.ofDigitChars_ten_toDigits, if_pos hn]

/-! ## Agreement -/

/-- A mark on a record that is not marked yet comes while its transfer is under way, and a transfer
whose record is marked is not rolled back. -/
def Acknowledged (s : TransferSystem) : TransferAction → Prop
  | .source action _ =>
    s.source.fsm.metadata.state = .transferring →
    (action.transitionCall s.source.calls).map toState = some .failed →
    s.coordinator.isTargetReady s.source.fsm.metadata.transferID none ≠ .ok true
  | .markTransferCompleted transferID _ _ =>
    s.coordinator.isTargetReady transferID none = .ok true ∨
    s.source.fsm.metadata.state = .transferring ∧ s.source.fsm.metadata.transferID = transferID

structure TransfersOk (s : TransferSystem) : Prop where
  unique : Table.Unique TransferRow.id s.coordinator.rows
  completed : ∀ row ∈ s.coordinator.rows, row.status = .completed →
    s.source.fsm.metadata.state = .standby ∨ s.source.fsm.metadata.state = .transferring ∧
      scanUint s.source.fsm.metadata.transferID = .ok row.id
  rolledBack : ∀ row ∈ s.coordinator.rows, row.id ∈ s.rolledBack → row.status ≠ .completed
  current : s.source.fsm.metadata.state = .transferring → ∃ row ∈ s.coordinator.rows,
    scanUint s.source.fsm.metadata.transferID = .ok row.id ∧ row.id ∉ s.rolledBack
  known : ∀ id ∈ s.rolledBack, id ∈ s.coordinator.rows.map TransferRow.id
  coordinated : s.source.fsm.transferCoordinator ≠ none

namespace DBTransferCoordinator

variable {c c' : DBTransferCoordinator} {transferID : String}

theorem getTransfer_eq_ok {fault : Option String} {place : Nat} {tr : TransferRow}
    (h : c.getTransfer transferID fault = .ok (place, tr)) :
    scanUint transferID = .ok tr.id ∧
      Table.first TransferRow.id tr.id c.rows = some (place, tr) := by
  unfold getTransfer at h
  split at h
  next => cases h
  next id hid =>
    split at h
    next => cases h
    next =>
      split at h
      next => cases h
      next found hfound =>
        cases h
        obtain ⟨-, -, -, -, hkey, -⟩ := Table.first_eq_some hfound
        rw [hkey]
        exact ⟨hid, hfound⟩

-- Ids are unique, so the record that the query finds is the one with the id.
theorem isTargetReady_of_mem (hunique : Table.Unique TransferRow.id c.rows) {row : TransferRow}
    (hrow : row ∈ c.rows) (hid : scanUint transferID = .ok row.id) :
    c.isTargetReady transferID none = .ok (decide (row.status = .completed)) := by
  have hfound := hunique.row_of_mem hrow
  obtain ⟨⟨place, found⟩, hfirst, rfl⟩ := Option.map_eq_some_iff.mp hfound
  unfold isTargetReady getTransfer
  rw [hid]
  dsimp only
  rw [hfirst]

theorem markTransferCompleted_eq_ok {readFault saveFault : Option String}
    (h : c.markTransferCompleted transferID readFault saveFault = .ok c') :
    ∃ tr ∈ c.rows, scanUint transferID = .ok tr.id ∧
      Table.Put TransferRow.id { tr with status := .completed } c.rows c'.rows := by
  unfold markTransferCompleted at h
  split at h
  next => cases h
  next place tr hget =>
    split at h
    next => cases h
    next =>
      cases h
      obtain ⟨hid, hfirst⟩ := getTransfer_eq_ok hget
      obtain ⟨pre, post, hrows, -, -, -⟩ := Table.first_eq_some hfirst
      refine ⟨tr, ?_, hid, Table.put_set hfirst rfl⟩
      rw [hrows]
      exact mem_append_right _ mem_cons_self

end DBTransferCoordinator

theorem OwnershipAction.transitionCall_answered (action : OwnershipAction) (calls : List OpenCall)
    (initiateTransfer : Except String String) (isTargetReady : Except String Bool) :
    (action.answered initiateTransfer isTargetReady).transitionCall calls =
      (action.transitionCall calls).map fun call =>
        { call with
          input := { call.input with
            initiateTransfer := initiateTransfer
            isTargetReady := isTargetReady } } := by
  cases action with
  | finish k input =>
    unfold answered transitionCall
    dsimp only
    split <;> rfl
  | _ => rfl

-- Where a section leads does not depend on the answers.
theorem OwnershipAction.toState_answered (action : OwnershipAction) (calls : List OpenCall)
    (initiateTransfer : Except String String) (isTargetReady : Except String Bool) :
    ((action.answered initiateTransfer isTargetReady).transitionCall calls).map
      toState = (action.transitionCall calls).map toState := by
  rw [transitionCall_answered, Option.map_map]
  rfl

theorem OwnershipSystem.step_coordinator {s s' : OwnershipSystem} {action : OwnershipAction}
    (hstep : s.step action = some s') (hset : action.setsCoordinator = false)
    (h : s.fsm.transferCoordinator ≠ none) : s'.fsm.transferCoordinator ≠ none := by
  have htransition : ∀ opens toState reason actor input,
      (s.transition opens toState reason actor input).fsm.transferCoordinator ≠ none := by
    intro opens toState reason actor input
    rcases transition_eq_or_edge s opens toState reason actor input with heq | ⟨mid, hedge, heq⟩
    · rwa [heq]
    · rw [heq]
      generalize s.fsm.metadata.state = fromState at hedge
      cases hedge with
      | initiate => nofun
      | _ => exact h
  have hmove := step_move hstep
  generalize s'.fsm = fsm' at hmove ⊢
  cases hmove with
  | transition => exact htransition _ _ _ _ _
  | progress _ hprogress =>
    rwa [hprogress.sameMigration.coordinator]
  | targetOwner | migrationTimeout => exact h
  | transferCoordinator haction =>
    rw [haction] at hset
    cases hset

namespace TransfersOk

variable {s s' : TransferSystem}

theorem new (partitionID owner : String) (symbols : List String) (now : Int) :
    TransfersOk (newTransferSystem partitionID owner symbols now) where
  unique := nodup_nil
  completed := nofun
  rolledBack := nofun
  current := nofun
  known := nofun
  coordinated := nofun

theorem put (h : TransfersOk s) {new : TransferRow} {rows' : List TransferRow}
    (hput : Table.Put TransferRow.id new s.coordinator.rows rows')
    (hnew : new.status = .completed → (s.source.fsm.metadata.state = .standby ∨
      s.source.fsm.metadata.state = .transferring ∧
        scanUint s.source.fsm.metadata.transferID = .ok new.id) ∧ new.id ∉ s.rolledBack) :
    TransfersOk { s with coordinator := ⟨rows'⟩ } where
  unique := hput.unique h.unique
  completed := by
    intro row hrow hcompleted
    rcases hput.mem hrow with rfl | hold
    · exact (hnew hcompleted).1
    · exact h.completed row hold hcompleted
  rolledBack := by
    intro row hrow hrolled hcompleted
    rcases hput.mem hrow with rfl | hold
    · exact (hnew hcompleted).2 hrolled
    · exact h.rolledBack row hold hrolled hcompleted
  current := by
    intro hstate
    obtain ⟨row, hrow, hid, hnot⟩ := h.current hstate
    obtain ⟨row', hrow', heq⟩ := hput.exists_mem hrow
    exact ⟨row', hrow', heq ▸ hid, heq ▸ hnot⟩
  known := by
    intro id hid
    obtain ⟨row, hrow, rfl⟩ := List.mem_map.mp (h.known id hid)
    obtain ⟨row', hrow', heq⟩ := hput.exists_mem hrow
    exact heq ▸ mem_map_of_mem hrow'
  coordinated := h.coordinated

theorem mark (h : TransfersOk s) {transferID : String} {readFault saveFault : Option String}
    (hallowed : Acknowledged s (.markTransferCompleted transferID readFault saveFault))
    {c' : DBTransferCoordinator}
    (hmark : s.coordinator.markTransferCompleted transferID readFault saveFault = .ok c') :
    TransfersOk { s with coordinator := c' } := by
  obtain ⟨tr, htr, hid, hput⟩ := markTransferCompleted_eq_ok hmark
  refine h.put hput fun _ => ?_
  rcases hallowed with hready | ⟨hstate, rfl⟩
  · rw [isTargetReady_of_mem h.unique htr hid, Except.ok.injEq, decide_eq_true_eq] at hready
    exact ⟨h.completed tr htr hready, fun hrolled => h.rolledBack tr htr hrolled hready⟩
  · obtain ⟨row, -, hrow, hnot⟩ := h.current hstate
    rw [hid, Except.ok.injEq] at hrow
    exact ⟨.inr ⟨hstate, hid⟩, hrow ▸ hnot⟩

-- Outside `Transferring` and `Standby` there is no completed record.
theorem not_completed (h : TransfersOk s) (hstandby : s.source.fsm.metadata.state ≠ .standby)
    (htransferring : s.source.fsm.metadata.state ≠ .transferring) :
    ∀ row ∈ s.coordinator.rows, row.status ≠ .completed := by
  intro row hrow hcompleted
  rcases h.completed row hrow hcompleted with hstate | ⟨hstate, -⟩
  · exact hstandby hstate
  · exact htransferring hstate

theorem of_not_completed (h : TransfersOk s) {source : OwnershipSystem} {rolledBack : List Nat}
    (hnone : ∀ row ∈ s.coordinator.rows, row.status ≠ .completed)
    (hstate : source.fsm.metadata.state ≠ .transferring)
    (hknown : ∀ id ∈ rolledBack, id ∈ s.coordinator.rows.map TransferRow.id)
    (hcoordinated : source.fsm.transferCoordinator ≠ none) :
    TransfersOk ⟨source, s.coordinator, rolledBack⟩ where
  unique := h.unique
  completed := fun row hrow hcompleted => absurd hcompleted (hnone row hrow)
  rolledBack := fun row hrow _ => hnone row hrow
  current := fun hto => absurd hto hstate
  known := hknown
  coordinated := hcoordinated

theorem rolledBackAfter_known (h : TransfersOk s) (source : OwnershipSystem) :
    ∀ id ∈ s.rolledBackAfter source, id ∈ s.coordinator.rows.map TransferRow.id := by
  unfold rolledBackAfter
  split
  next hrolled =>
    intro id hid
    rcases List.mem_append.mp hid with hid | hid
    · obtain ⟨row, hrow, hscan, -⟩ := h.current hrolled.1
      rw [hscan] at hid
      rw [List.mem_singleton.mp hid]
      exact mem_map_of_mem hrow
    · exact h.known id hid
  next => exact h.known

theorem rolledBackAfter_eq {source : OwnershipSystem}
    (hstate : s.source.fsm.metadata.state ≠ .transferring ∨ source.fsm.metadata.state ≠ .failed) :
    s.rolledBackAfter source = s.rolledBack :=
  if_neg fun hboth => hstate.elim (fun hne => hne hboth.1) fun hne => hne hboth.2

theorem source (h : TransfersOk s) {action : OwnershipAction} {source' : OwnershipSystem}
    (hset : action.setsCoordinator = false)
    (hready : s.source.fsm.metadata.state = .transferring →
      (action.transitionCall s.source.calls).map toState = some .failed →
      s.coordinator.isTargetReady s.source.fsm.metadata.transferID none ≠ .ok true)
    (hnew : ∀ call transferID, action.transitionCall s.source.calls = some call →
      s.source.initiates action → call.input.initiateTransfer = .ok transferID →
      ∃ row ∈ s.coordinator.rows, scanUint transferID = .ok row.id ∧ row.id ∉ s.rolledBack)
    (hstep : s.source.step action = some source') :
    TransfersOk ⟨source', s.coordinator, s.rolledBackAfter source'⟩ := by
  have hcoordinated := OwnershipSystem.step_coordinator hstep hset h.coordinated
  have hknown := h.rolledBackAfter_known source'
  rcases OwnershipSystem.step_sameOwner_or_edge hstep with
    ⟨-, hsame⟩ | ⟨opens, toState, reason, actor, input, mid, hcall, -, hedge, hfsm⟩
  · have hrolled : s.rolledBackAfter source' = s.rolledBack := by
      refine rolledBackAfter_eq ?_
      rw [hsame.state]
      by_cases hstate : s.source.fsm.metadata.state = .transferring
      · rw [hstate]
        exact .inr nofun
      · exact .inl hstate
    rw [hrolled]
    refine ⟨h.unique, ?_, h.rolledBack, ?_, h.known, hcoordinated⟩
    · rw [hsame.state, hsame.transferID]
      exact h.completed
    · rw [hsame.state, hsame.transferID]
      exact h.current
  · have hto : source'.fsm.metadata.state = toState := by
      rw [hfsm]
      rfl
    have hother : s.source.fsm.metadata.state ≠ .standby →
        s.source.fsm.metadata.state ≠ .transferring → toState ≠ .transferring →
        TransfersOk ⟨source', s.coordinator, s.rolledBackAfter source'⟩ :=
      fun hstandby htransferring hne => h.of_not_completed (h.not_completed hstandby htransferring)
        (hto ▸ hne) hknown hcoordinated
    generalize hfrom : s.source.fsm.metadata.state = fromState at hedge hother
    cases hedge with
    | start | freeze | flush | recover => exact hother nofun nofun nofun
    | transfer _ hnone => exact absurd hnone h.coordinated
    | initiate hcheckpoint _ hid _ =>
      obtain ⟨row, hrow, hscan, hnot⟩ :=
        hnew _ _ hcall ⟨hfrom, by rw [hcall]; rfl, hcheckpoint⟩ hid
      have hnone := h.not_completed (by rw [hfrom]; nofun) (by rw [hfrom]; nofun)
      rw [rolledBackAfter_eq (.inr (by rw [hto]; nofun))]
      refine ⟨h.unique, fun row hrow hcompleted => absurd hcompleted (hnone row hrow),
        h.rolledBack, fun _ => ⟨row, hrow, ?_, hnot⟩, h.known, hcoordinated⟩
      rwa [hfsm]
    | commit =>
      rw [rolledBackAfter_eq (.inr (by rw [hto]; nofun))]
      refine ⟨h.unique, fun _ _ _ => .inl hto, h.rolledBack, fun hstate => ?_, h.known,
        hcoordinated⟩
      rw [hto] at hstate
      cases hstate
    | fail hflight =>
      by_cases htransferring : fromState = .transferring
      · -- the record of the transfer under way is the only one that could be completed
        subst htransferring
        refine h.of_not_completed (fun row hrow hcompleted => ?_) (by rw [hto]; nofun) hknown
          hcoordinated
        rcases h.completed row hrow hcompleted with hstandby | ⟨-, hscan⟩
        · rw [hfrom] at hstandby
          cases hstandby
        · refine hready hfrom (by rw [hcall]; rfl) ?_
          rw [isTargetReady_of_mem h.unique hrow hscan, decide_eq_true hcompleted]
      · refine hother ?_ htransferring nofun
        rintro rfl
        cases hflight

theorem run {action : OwnershipAction} {input : DatabaseInput}
    {initiated : Except String String × DBTransferCoordinator}
    (hset : action.setsCoordinator = false) (hallowed : Acknowledged s (.source action input))
    (hrecords : TransfersOk { s with coordinator := initiated.2 })
    (hkept : s.source.fsm.metadata.state = .transferring → initiated.2 = s.coordinator)
    (hnew : ∀ transferID, s.source.initiates action → initiated.1 = .ok transferID →
      ∃ row ∈ initiated.2.rows, scanUint transferID = .ok row.id ∧ row.id ∉ s.rolledBack)
    (hrun : s.run action input initiated = some s') : TransfersOk s' := by
  unfold TransferSystem.run at hrun
  dsimp only at hrun
  split at hrun
  next => cases hrun
  next source' hstep =>
    cases hrun
    refine hrecords.source ?_ ?_ ?_ hstep
    · rw [← hset]
      cases action <;> rfl
    · intro hstate hto
      rw [hkept hstate]
      rw [OwnershipAction.toState_answered] at hto
      exact hallowed hstate hto
    · intro call transferID hcall hinitiates hid
      rw [OwnershipAction.transitionCall_answered] at hcall
      obtain ⟨call, -, rfl⟩ := Option.map_eq_some_iff.mp hcall
      rw [OwnershipSystem.initiates, OwnershipAction.toState_answered] at hinitiates
      exact hnew transferID hinitiates hid

theorem step (h : TransfersOk s) {action : TransferAction} (hallowed : Acknowledged s action)
    (hstep : s.step action = some s') : TransfersOk s' := by
  cases action with
  | markTransferCompleted transferID readFault saveFault =>
    rw [TransferSystem.step] at hstep
    split at hstep
    next =>
      cases hstep
      exact h
    next c' hmark =>
      cases hstep
      exact h.mark hallowed hmark
  | source action input =>
    rw [TransferSystem.step] at hstep
    split at hstep
    next => cases hstep
    next hset =>
      rw [Bool.not_eq_true] at hset
      split at hstep
      next hinitiates =>
        split at hstep
        next hid =>
          rcases s.initiate_cases input with ⟨err, heq⟩ | ⟨row, heq, hnewID, hpending⟩
          · rw [heq] at hstep
            exact run hset hallowed h (fun _ => rfl) (fun _ _ hok => by cases hok) hstep
          · rw [heq] at hstep
            rw [← hnewID] at hid
            have hput : Table.Put TransferRow.id row s.coordinator.rows
                (s.coordinator.rows ++ [row]) :=
              .append fun old hold hkey => hid.2 (hkey ▸ mem_map_of_mem hold)
            refine run hset hallowed (h.put hput fun hcompleted => ?_) (fun hstate => ?_)
              (fun transferID _ htext => ⟨row, ?_, ?_, ?_⟩) hstep
            · rw [hpending] at hcompleted
              cases hcompleted
            · rw [hinitiates.1] at hstate
              cases hstate
            · exact mem_append_right _ (mem_singleton_self row)
            · cases htext
              exact scanUint_toString hid.1
            · exact fun hrolled => hid.2 (h.known _ hrolled)
        next => cases hstep
      next hinitiates =>
        exact run hset hallowed h (fun _ => rfl) (fun _ hyes => absurd hyes hinitiates) hstep

end TransfersOk

/-- In every run in which marks come while their transfer is under way and marked transfers are not
rolled back, source and target agree: no record is completed while its `FromOwner` has the
partition back, and no record of a rolled-back attempt is ever completed. -/
theorem source_and_target_agree (partitionID owner : String) (symbols : List String) (now : Int)
    (s : TransferSystem)
    (hrun : Run.Reaches step Acknowledged
      (newTransferSystem partitionID owner symbols now) s) :
    ∀ row ∈ s.coordinator.rows,
      (row.status = .completed → s.source.fsm.metadata.currentOwner = row.fromOwner →
        s.source.fsm.metadata.state ≠ .failed ∧ s.source.fsm.metadata.state ≠ .owned) ∧
      (row.id ∈ s.rolledBack → row.status ≠ .completed) := by
  have h : TransfersOk s := hrun.invariant (TransfersOk.new partitionID owner symbols now)
    fun _ _ _ hs hallowed hstep => hs.step hallowed hstep
  refine fun row hrow => ⟨fun hcompleted _ => ?_, h.rolledBack row hrow⟩
  rcases h.completed row hrow hcompleted with hstate | ⟨hstate, -⟩
  · rw [hstate]
    exact ⟨nofun, nofun⟩
  · rw [hstate]
    exact ⟨nofun, nofun⟩

/-! ## Both owners at once -/

instance (s : TransferSystem) (action : TransferAction) : Decidable (Acknowledged s action) :=
  match action with
  | .source _ _ => inferInstanceAs (Decidable (_ → _ → _))
  | .markTransferCompleted _ _ _ => inferInstanceAs (Decidable (_ ∨ _))

/-- From `A` to `B` up to `Transferring`; the record gets the id 1. -/
def transferToB : List TransferAction :=
  migrateToB.map fun action => .source action ⟨1, none, none⟩

def rollbackOfB : List TransferAction :=
  [.source (.beginRollback "A") ⟨2, none, none⟩, .source (.finish 0 quietInput) ⟨2, none, none⟩]

theorem transferToB_marked_and_committed :
    ∃ s, Run.Reaches step Acknowledged (newTransferSystem "p" "A" ["BTC/USDT"] 0) s ∧
      s.source.fsm.metadata.currentOwner = "B" ∧
      (∃ row ∈ s.coordinator.rows, row.status = .completed) ∧
      ∀ row ∈ s.coordinator.rows, (row.status = .completed →
        s.source.fsm.metadata.currentOwner = row.fromOwner →
        s.source.fsm.metadata.state ≠ .failed ∧ s.source.fsm.metadata.state ≠ .owned) ∧
        (row.id ∈ s.rolledBack → row.status ≠ .completed) := by
  refine Run.exists_reaches
    (transferToB ++ [.markTransferCompleted "1" none none,
      .source (.commit "A" quietInput) ⟨2, none, none⟩])
    (P := fun s => s.source.fsm.metadata.currentOwner = "B" ∧
      ∃ row ∈ s.coordinator.rows, row.status = .completed) (by decide +kernel)
    fun s hreach ⟨howner, hcompleted⟩ => ?_
  exact ⟨howner, hcompleted, source_and_target_agree _ _ _ _ s hreach⟩

/-- The target marks the transfer and the source rolls it back; or the other way round. -/
theorem completed_transfer_of_old_owner : (∃ s, Run.Reaches step (fun _ _ => True)
        (newTransferSystem "p" "A" ["BTC/USDT"] 0) s ∧
      s.source.fsm.metadata.state = .failed ∧ s.source.fsm.metadata.currentOwner = "A" ∧
      ∃ row ∈ s.coordinator.rows, row.fromOwner = "A" ∧ row.toOwner = "B" ∧
        row.status = .completed) ∧
    (∃ s, Run.Reaches step (fun _ _ => True)
        (newTransferSystem "p" "A" ["BTC/USDT"] 0) s ∧
      ∃ row ∈ s.coordinator.rows, row.id ∈ s.rolledBack ∧ row.status = .completed) := by
  constructor
  · exact Run.exists_reaches (transferToB ++ .markTransferCompleted "1" none none :: rollbackOfB)
      (by decide +kernel) fun _ _ h => h
  · exact Run.exists_reaches (transferToB ++ rollbackOfB ++ [.markTransferCompleted "1" none none])
      (by decide +kernel) fun _ _ h => h

end CexHertz
