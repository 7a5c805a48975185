import CexHertz.Lib.Table
import CexHertz.Service.PipelineThreads
import CexHertz.Service.PostgresEventLog
import Mathlib.Data.List.Dedup

/-!
# Flushing the checkpoints

`FlushCheckpoints` copies the checkpoints under the lock of the manager and writes the copies after
it has released it, so two flushes write the same rows. A stored number never falls behind if a
flush makes its copy only when the rows other flushes have still to write are the latest ones.
-/

namespace CexHertz

open List EventOffsetCheckpoint Run

variable {rows rows' : List CheckpointRow} {input : WriteInput} {cp : EventOffsetCheckpoint}

/-! ## The repository -/

inductive RecoveryStatus where
  | none
  | inProgress
  | complete
  | failed
  deriving DecidableEq

structure CheckpointRow where
  checkpoint : EventOffsetCheckpoint
  recoveryStatus : RecoveryStatus
  updatedAt : Int

def EventOffsetCheckpoint.pair (cp : EventOffsetCheckpoint) : String × String :=
  (cp.processorName, cp.symbol)

def CheckpointRow.pair (row : CheckpointRow) : String × String := row.checkpoint.pair

/-- `SaveCheckpoint`: a conflict on the unique index updates every column but the recovery status,
which a new row gets from the default of the column. -/
def saveCheckpoint (rows : List CheckpointRow) (input : WriteInput) (cp : EventOffsetCheckpoint) :
    Except String (List CheckpointRow) :=
  if cp.processorName = "" ∨ cp.symbol = "" then
    .error "processor_name and symbol must not be empty"
  else
    match input.fault with
    | some err => .error err
    | none =>
      let cp := { cp with timestamp := input.now }
      match Table.first CheckpointRow.pair cp.pair rows with
      | some (i, old) => .ok (rows.set i { old with checkpoint := cp, updatedAt := input.now })
      | none => .ok (rows ++ [⟨cp, .none, input.now⟩])

def storedSeq (rows : List CheckpointRow) (pair : String × String) : Option Nat :=
  (Table.row CheckpointRow.pair pair rows).map fun row => row.checkpoint.eventSeq

theorem saveCheckpoint_put (h : saveCheckpoint rows input cp = .ok rows') :
    ∃ row : CheckpointRow, row.checkpoint = { cp with timestamp := input.now } ∧
      Table.Put CheckpointRow.pair row rows rows' := by
  unfold saveCheckpoint at h
  split at h
  next => cases h
  next =>
    split at h
    next => cases h
    next =>
      dsimp only at h
      split at h
      next i old hfirst =>
        cases h
        exact ⟨_, rfl, Table.put_set hfirst rfl⟩
      next hfirst =>
        cases h
        exact ⟨_, rfl, Table.put_append hfirst rfl⟩

theorem row_saveCheckpoint {β : Type} (h : saveCheckpoint rows input cp = .ok rows')
    (column : EventOffsetCheckpoint → β) (pair : String × String) :
    (Table.row CheckpointRow.pair pair rows').map (fun row => column row.checkpoint) =
      if pair = cp.pair then some (column { cp with timestamp := input.now })
      else (Table.row CheckpointRow.pair pair rows).map fun row => column row.checkpoint := by
  obtain ⟨row, hcheckpoint, hput⟩ := saveCheckpoint_put h
  have hpair : row.pair = cp.pair := by
    unfold CheckpointRow.pair
    rw [hcheckpoint]
    rfl
  split
  next heq => rw [heq, ← hpair, hput.row_self, Option.map_some, hcheckpoint]
  next hne => rw [hput.row_other (by rw [hpair]; exact hne)]

theorem storedSeq_saveCheckpoint (h : saveCheckpoint rows input cp = .ok rows')
    (pair : String × String) :
    storedSeq rows' pair = if pair = cp.pair then some cp.eventSeq else storedSeq rows pair :=
  row_saveCheckpoint h eventSeq pair

/-! ## Calls that record and flush -/

def EventOffsetCheckpoint.key (cp : EventOffsetCheckpoint) : String :=
  cp.processorName ++ ":" ++ cp.symbol

/-- The processing of one event: its processors record it, its flush has still to write these
checkpoints, or it has returned. -/
inductive ProcessingCall where
  | recording
  | flushing (checkpointsToFlush : List EventOffsetCheckpoint)
  | returned (err : Option String)

def ProcessingCall.flush : List EventOffsetCheckpoint → ProcessingCall
  | [] => .returned none
  | cp :: rest => .flushing (cp :: rest)

def ProcessingCall.pending : ProcessingCall → List EventOffsetCheckpoint
  | .flushing checkpoints => checkpoints
  | .recording | .returned _ => []

/-- `recorded` is history: the checkpoints in the order in which they were recorded.  Their keys are
the keys of the manager's map, from which nothing is removed. -/
structure CheckpointSystem where
  checkpointMgr : CheckpointManager
  rows : List CheckpointRow
  calls : List ProcessingCall
  recorded : List EventOffsetCheckpoint

open CheckpointSystem

def newCheckpointManager : CheckpointManager := ⟨fun _ => none⟩

def newCheckpointSystem : CheckpointSystem := ⟨newCheckpointManager, [], [], []⟩

inductive CheckpointAction where
  /-- An event is dispatched to the processors. -/
  | processEvent
  | recordEventProcessed (call : Nat) (checkpoint : EventOffsetCheckpoint)
  /-- A processor fails and the call returns without a flush. -/
  | fail (call : Nat) (err : String)
  /-- The copy under the lock, in the order of the loop over the map. -/
  | flushCheckpoints (call : Nat) (order : List String)
  | saveCheckpoint (call : Nat) (input : WriteInput)

namespace CheckpointSystem

variable (s : CheckpointSystem)

def keys : List String := (s.recorded.map key).dedup

def step : CheckpointAction → Option CheckpointSystem
  | .processEvent => some { s with calls := s.calls ++ [.recording] }
  | .recordEventProcessed k cp =>
    match s.calls[k]? with
    | some .recording =>
      some { s with
        checkpointMgr := s.checkpointMgr.recordEventProcessed cp
        recorded := s.recorded ++ [cp] }
    | _ => none
  | .fail k err =>
    match s.calls[k]? with
    | some .recording => some { s with calls := s.calls.set k (.returned (some err)) }
    | _ => none
  | .flushCheckpoints k order =>
    match s.calls[k]? with
    | some .recording =>
      if order.Perm s.keys then
        some { s with
          calls := s.calls.set k (.flush (order.filterMap s.checkpointMgr.checkpoints)) }
      else none
    | _ => none
  | .saveCheckpoint k input =>
    match s.calls[k]? with
    | some (.flushing (cp :: rest)) =>
      match CexHertz.saveCheckpoint s.rows input cp with
      | .error err => some { s with calls := s.calls.set k (.returned (some err)) }
      | .ok rows => some { s with rows := rows, calls := s.calls.set k (.flush rest) }
    | _ => none

def Increasing : CheckpointAction → Prop
  | .recordEventProcessed _ cp =>
    ∀ old ∈ s.recorded, old.pair = cp.pair → old.eventSeq < cp.eventSeq
  | _ => True

/-- Keys are taken for their processor and symbol, and no flush makes its copy while another one has
still to write a checkpoint that is not the latest any more. -/
def Current : CheckpointAction → Prop
  | .recordEventProcessed _ cp => ∀ old ∈ s.recorded, old.key = cp.key → old.pair = cp.pair
  | .flushCheckpoints _ _ => ∀ call ∈ s.calls, ∀ cp ∈ call.pending,
      ∀ latest ∈ s.checkpointMgr.checkpoints cp.key, latest.eventSeq = cp.eventSeq
  | _ => True

def Serial (action : CheckpointAction) : Prop := s.Increasing action ∧ s.Current action

end CheckpointSystem

/-! ## Flushes that do not overtake each other -/

def ProcessingCall.Unfinished : ProcessingCall → Prop
  | .recording | .returned (some _) => True
  | .flushing _ | .returned none => False

@[simp] theorem pending_flush (checkpoints : List EventOffsetCheckpoint) :
    (ProcessingCall.flush checkpoints).pending = checkpoints := by
  cases checkpoints <;> rfl

theorem key_eq_of_pair_eq {cp cp' : EventOffsetCheckpoint} (h : cp.pair = cp'.pair) :
    cp.key = cp'.key := by
  obtain ⟨hname, hsymbol⟩ := Prod.mk.inj h
  unfold key
  rw [hname, hsymbol]

theorem recordEventProcessed_apply (cm : CheckpointManager) (cp : EventOffsetCheckpoint)
    (key : String) :
    (cm.recordEventProcessed cp).checkpoints key =
      if key = cp.key then some cp else cm.checkpoints key := by
  show Function.update cm.checkpoints cp.key (some cp) key = _
  rw [Function.update_apply]

structure CheckpointOk (s : CheckpointSystem) : Prop where
  /-- The manager keeps the last recorded checkpoint of a processor and a symbol. -/
  latest : ∀ cp ∈ s.recorded, ∃ latest, s.checkpointMgr.checkpoints cp.key = some latest ∧
    latest.pair = cp.pair ∧ cp.eventSeq ≤ latest.eventSeq
  kept : ∀ key cp, s.checkpointMgr.checkpoints key = some cp → cp ∈ s.recorded ∧ cp.key = key
  pending : ∀ call ∈ s.calls, ∀ cp ∈ call.pending, cp ∈ s.recorded
  stored : ∀ pair n, storedSeq s.rows pair = some n →
    ∃ cp ∈ s.recorded, cp.pair = pair ∧ cp.eventSeq = n
  /-- What is still to be written is not behind what is stored. -/
  fresh : ∀ call ∈ s.calls, ∀ cp ∈ call.pending, ∀ n ∈ storedSeq s.rows cp.pair, n ≤ cp.eventSeq
  agree : ∀ call ∈ s.calls, ∀ call' ∈ s.calls, ∀ cp ∈ call.pending, ∀ cp' ∈ call'.pending,
    cp.pair = cp'.pair → cp.eventSeq = cp'.eventSeq
  /-- The latest checkpoint is stored, or somebody is going to store it. -/
  covered : ∀ key cp, s.checkpointMgr.checkpoints key = some cp →
    storedSeq s.rows cp.pair = some cp.eventSeq ∨
      (∃ call ∈ s.calls, cp ∈ call.pending) ∨ ∃ call ∈ s.calls, call.Unfinished

namespace CheckpointOk

variable {s s' : CheckpointSystem}
variable {cp : EventOffsetCheckpoint} {k : Nat}

theorem new : CheckpointOk newCheckpointSystem where
  latest := fun _ h => by cases h
  kept := fun _ _ h => by cases h
  pending := fun _ h => by cases h
  stored := fun _ _ h => by cases h
  fresh := fun _ h => by cases h
  agree := fun _ h => by cases h
  covered := fun _ _ h => by cases h

variable (h : CheckpointOk s)

include h

theorem le_latest {latest : EventOffsetCheckpoint} (hcp : cp ∈ s.recorded)
    {key : String} (hlatest : s.checkpointMgr.checkpoints key = some latest)
    (hpair : cp.pair = latest.pair) : cp.eventSeq ≤ latest.eventSeq := by
  obtain ⟨latest', hlatest', -, hle⟩ := h.latest cp hcp
  rw [key_eq_of_pair_eq hpair, (h.kept key latest hlatest).2, hlatest] at hlatest'
  cases hlatest'
  exact hle

theorem withCalls {calls : List ProcessingCall}
    (hmem : ∀ call ∈ calls, ∀ cp ∈ call.pending, call ∈ s.calls)
    (hunfinished : ∃ call ∈ calls, call.Unfinished) : CheckpointOk { s with calls := calls } where
  latest := h.latest
  kept := h.kept
  pending := fun call hcall cp hcp => h.pending call (hmem call hcall cp hcp) cp hcp
  stored := h.stored
  fresh := fun call hcall cp hcp => h.fresh call (hmem call hcall cp hcp) cp hcp
  agree := fun call hcall call' hcall' cp hcp cp' hcp' =>
    h.agree call (hmem call hcall cp hcp) call' (hmem call' hcall' cp' hcp') cp hcp cp' hcp'
  covered := fun _ _ _ => .inr (.inr hunfinished)

theorem setCall {call call' : ProcessingCall} (hk : s.calls[k]? = some call)
    (hpending : call'.pending = []) (hunfinished : call'.Unfinished) :
    CheckpointOk { s with calls := s.calls.set k call' } := by
  refine h.withCalls (fun c hc cp hcp => ?_)
    ⟨call', mem_of_getElem? (getElem?_set_self hk call'), hunfinished⟩
  rcases mem_or_eq_of_mem_set hc with hc | rfl
  · exact hc
  · rw [hpending] at hcp
    cases hcp

theorem record (hk : s.calls[k]? = some .recording)
    (hincreasing : ∀ old ∈ s.recorded, old.pair = cp.pair → old.eventSeq < cp.eventSeq)
    (hkey : ∀ old ∈ s.recorded, old.key = cp.key → old.pair = cp.pair) :
    CheckpointOk
      { s with
        checkpointMgr := s.checkpointMgr.recordEventProcessed cp
        recorded := s.recorded ++ [cp] } := by
  refine ⟨?_, ?_, fun c hc cp hcp => mem_append_left _ (h.pending c hc cp hcp), ?_,
    h.fresh, h.agree, fun key cp hcp => .inr (.inr ⟨_, mem_of_getElem? hk, trivial⟩)⟩
  · refine forall_mem_concat (fun old hold => ?_) ?_
    · rw [recordEventProcessed_apply]
      split
      next heq =>
        have hpair := hkey old hold heq
        exact ⟨cp, rfl, hpair.symm, Nat.le_of_lt (hincreasing old hold hpair)⟩
      next => exact h.latest old hold
    · exact ⟨cp, by rw [recordEventProcessed_apply, if_pos rfl], rfl, Nat.le_refl _⟩
  · intro key latest hlatest
    rw [recordEventProcessed_apply] at hlatest
    split at hlatest
    next heq =>
      cases hlatest
      exact ⟨mem_append_right _ mem_cons_self, heq.symm⟩
    next =>
      obtain ⟨hmem, hlatestKey⟩ := h.kept key latest hlatest
      exact ⟨mem_append_left _ hmem, hlatestKey⟩
  · intro pair n hn
    obtain ⟨old, hold, hpair⟩ := h.stored pair n hn
    exact ⟨old, mem_append_left _ hold, hpair⟩

theorem copy {call : ProcessingCall} (hk : s.calls[k]? = some call)
    {order : List String} (horder : order.Perm s.keys)
    (hcurrent : ∀ call ∈ s.calls, ∀ cp ∈ call.pending,
      ∀ latest ∈ s.checkpointMgr.checkpoints cp.key, latest.eventSeq = cp.eventSeq) :
    CheckpointOk
      { s with
        calls := s.calls.set k (.flush (order.filterMap s.checkpointMgr.checkpoints)) } := by
  -- the copies are the latest checkpoints, all of them
  have hcopies : ∀ cp, cp ∈ order.filterMap s.checkpointMgr.checkpoints ↔
      s.checkpointMgr.checkpoints cp.key = some cp := by
    intro cp
    rw [mem_filterMap]
    constructor
    · rintro ⟨key, -, hcp⟩
      rwa [(h.kept key cp hcp).2]
    · intro hcp
      refine ⟨cp.key, horder.mem_iff.mpr ?_, hcp⟩
      exact mem_dedup.mpr (mem_map_of_mem (h.kept cp.key cp hcp).1)
  have hlatest : ∀ c ∈ s.calls.set k (.flush (order.filterMap s.checkpointMgr.checkpoints)),
      ∀ cp ∈ c.pending, ∀ latest ∈ s.checkpointMgr.checkpoints cp.key,
        latest.eventSeq = cp.eventSeq := by
    intro c hc cp hcp latest hmem
    rcases mem_or_eq_of_mem_set hc with hc | rfl
    · exact hcurrent c hc cp hcp latest hmem
    · rw [pending_flush, hcopies] at hcp
      rw [hcp] at hmem
      cases hmem
      rfl
  have hpending : ∀ c ∈ s.calls.set k (.flush (order.filterMap s.checkpointMgr.checkpoints)),
      ∀ cp ∈ c.pending, cp ∈ s.recorded := by
    intro c hc cp hcp
    rcases mem_or_eq_of_mem_set hc with hc | rfl
    · exact h.pending c hc cp hcp
    · rw [pending_flush, hcopies] at hcp
      exact (h.kept cp.key cp hcp).1
  have hself := mem_of_getElem? (getElem?_set_self hk
    (.flush (order.filterMap s.checkpointMgr.checkpoints)))
  refine ⟨h.latest, h.kept, hpending, h.stored, ?_, ?_, ?_⟩
  · intro c hc cp hcp n hn
    obtain ⟨old, hold, hpair, rfl⟩ := h.stored cp.pair n hn
    obtain ⟨latest, hmem, hlatestPair, -⟩ := h.latest cp (hpending c hc cp hcp)
    rw [← hlatest c hc cp hcp latest hmem]
    exact h.le_latest hold hmem (hpair.trans hlatestPair.symm)
  · intro c hc c' hc' cp hcp cp' hcp' hpair
    obtain ⟨latest, hmem, -⟩ := h.latest cp (hpending c hc cp hcp)
    rw [← hlatest c hc cp hcp latest hmem, ← hlatest c' hc' cp' hcp' latest
      (by rw [← key_eq_of_pair_eq hpair]; exact hmem)]
  · intro key cp hcp
    refine .inr (.inl ⟨_, hself, ?_⟩)
    rwa [pending_flush, hcopies, (h.kept key cp hcp).2]

theorem save {rest : List EventOffsetCheckpoint}
    (hk : s.calls[k]? = some (.flushing (cp :: rest))) {rows : List CheckpointRow}
    {input : WriteInput} (hsave : saveCheckpoint s.rows input cp = .ok rows) :
    CheckpointOk { s with rows := rows, calls := s.calls.set k (.flush rest) } := by
  have hcall := mem_of_getElem? hk
  have hmem : ∀ c ∈ s.calls.set k (.flush rest), ∀ cp' ∈ c.pending,
      ∃ c' ∈ s.calls, cp' ∈ c'.pending := by
    intro c hc cp' hcp'
    rcases mem_or_eq_of_mem_set hc with hc | rfl
    · exact ⟨c, hc, hcp'⟩
    · rw [pending_flush] at hcp'
      exact ⟨_, hcall, .tail _ hcp'⟩
  have hagree : ∀ c ∈ s.calls, ∀ cp' ∈ c.pending, cp'.pair = cp.pair →
      cp'.eventSeq = cp.eventSeq := fun c hc cp' hcp' hpair =>
    h.agree c hc _ hcall cp' hcp' cp mem_cons_self hpair
  refine ⟨h.latest, h.kept, ?_, ?_, ?_, ?_, ?_⟩
  · intro c hc cp' hcp'
    obtain ⟨c', hc', hcp'⟩ := hmem c hc cp' hcp'
    exact h.pending c' hc' cp' hcp'
  · intro pair n hn
    rw [storedSeq_saveCheckpoint hsave] at hn
    split at hn
    next heq =>
      cases hn
      exact ⟨cp, h.pending _ hcall cp mem_cons_self, heq.symm, rfl⟩
    next => exact h.stored pair n hn
  · intro c hc cp' hcp' n hn
    obtain ⟨c', hc', hcp'⟩ := hmem c hc cp' hcp'
    rw [storedSeq_saveCheckpoint hsave] at hn
    split at hn
    next heq =>
      cases hn
      rw [hagree c' hc' cp' hcp' heq]
    next => exact h.fresh c' hc' cp' hcp' n hn
  · intro c hc c' hc' cp₁ hcp₁ cp₂ hcp₂
    obtain ⟨d, hd, hcp₁⟩ := hmem c hc cp₁ hcp₁
    obtain ⟨d', hd', hcp₂⟩ := hmem c' hc' cp₂ hcp₂
    exact h.agree d hd d' hd' cp₁ hcp₁ cp₂ hcp₂
  · intro key latest hlatest
    rw [storedSeq_saveCheckpoint hsave]
    rcases h.covered key latest hlatest with hstored | hpending | hunfinished
    · refine .inl ?_
      split
      next heq =>
        -- the row was up to date already, so this flush writes it again
        have hle := h.fresh _ hcall cp mem_cons_self latest.eventSeq (by
          rw [← heq]
          exact hstored)
        have hge := h.le_latest (h.pending _ hcall cp mem_cons_self) hlatest heq.symm
        rw [Nat.le_antisymm hle hge]
      next => exact hstored
    · by_cases hpair : latest.pair = cp.pair
      · obtain ⟨c, hc, hmemc⟩ := hpending
        rw [if_pos hpair, hagree c hc latest hmemc hpair]
        exact .inl rfl
      · rcases exists_mem_set hk hpending (.flush rest) with hself | hother
        · rcases mem_cons.mp hself with rfl | hrest
          · exact absurd rfl hpair
          · refine .inr (.inl ⟨_, mem_of_getElem? (getElem?_set_self hk _), ?_⟩)
            rwa [pending_flush]
        · exact .inr (.inl hother)
    · rcases exists_mem_set hk hunfinished (.flush rest) with hself | hother
      · cases hself
      · exact .inr (.inr hother)

theorem step {action : CheckpointAction} (hserial : s.Serial action)
    (hstep : s.step action = some s') :
    CheckpointOk s' ∧ ∀ pair, ∀ n ∈ storedSeq s.rows pair, ∃ m ∈ storedSeq s'.rows pair, n ≤ m := by
  have hsame : ∀ pair, ∀ n ∈ storedSeq s.rows pair, ∃ m ∈ storedSeq s.rows pair, n ≤ m :=
    fun pair n hn => ⟨n, hn, Nat.le_refl n⟩
  cases action with
  | processEvent =>
    cases hstep
    refine ⟨h.withCalls (fun call hcall cp hcp => ?_)
      ⟨_, mem_append_right _ mem_cons_self, trivial⟩, hsame⟩
    rcases mem_append.mp hcall with hcall | hcall
    · exact hcall
    · rw [mem_singleton.mp hcall] at hcp
      cases hcp
  | recordEventProcessed k cp =>
    dsimp only [CheckpointSystem.step] at hstep
    split at hstep
    next hk =>
      cases hstep
      exact ⟨h.record hk hserial.1 hserial.2, hsame⟩
    next => cases hstep
  | fail k err =>
    dsimp only [CheckpointSystem.step] at hstep
    split at hstep
    next hk =>
      cases hstep
      exact ⟨h.setCall hk rfl trivial, hsame⟩
    next => cases hstep
  | flushCheckpoints k order =>
    dsimp only [CheckpointSystem.step] at hstep
    split at hstep
    next hk =>
      split at hstep
      next horder =>
        cases hstep
        exact ⟨h.copy hk horder hserial.2, hsame⟩
      next => cases hstep
    next => cases hstep
  | saveCheckpoint k input =>
    dsimp only [CheckpointSystem.step] at hstep
    split at hstep
    next cp rest hk =>
      split at hstep
      next err _ =>
        cases hstep
        exact ⟨h.setCall hk rfl trivial, hsame⟩
      next rows hsave =>
        cases hstep
        refine ⟨h.save hk hsave, fun pair n hn => ?_⟩
        rw [storedSeq_saveCheckpoint hsave]
        split
        next heq =>
          rw [heq] at hn
          exact ⟨cp.eventSeq, rfl, h.fresh _ (mem_of_getElem? hk) cp mem_cons_self n hn⟩
        next => exact ⟨n, hn, Nat.le_refl n⟩
    next => cases hstep

end CheckpointOk

/-- In every run in which the processors record in increasing order and the flushes do not overtake
each other, no stored number ever decreases, and when all calls have returned without an error the
largest recorded number of every processor and symbol is stored. -/
theorem checkpoints_never_move_back {s s' : CheckpointSystem}
    (hrun : Run.Reaches step CheckpointSystem.Serial newCheckpointSystem s)
    (hlater : Run.Reaches step CheckpointSystem.Serial s s') :
    (∀ pair, ∀ n ∈ storedSeq s.rows pair, ∃ m ∈ storedSeq s'.rows pair, n ≤ m) ∧
      ((∀ call ∈ s.calls, call = .returned none) → ∀ cp ∈ s.recorded,
        (∀ cp' ∈ s.recorded, cp'.pair = cp.pair → cp'.eventSeq ≤ cp.eventSeq) →
        storedSeq s.rows cp.pair = some cp.eventSeq) := by
  have hok : CheckpointOk s := hrun.invariant CheckpointOk.new
    fun _ _ _ hs hserial hstep => (hs.step hserial hstep).1
  constructor
  · have hlaterOk : CheckpointOk s' ∧
        ∀ pair, ∀ n ∈ storedSeq s.rows pair, ∃ m ∈ storedSeq s'.rows pair, n ≤ m :=
      hlater.invariant
        (I := fun t => CheckpointOk t ∧
          ∀ pair, ∀ n ∈ storedSeq s.rows pair, ∃ m ∈ storedSeq t.rows pair, n ≤ m)
        ⟨hok, fun pair n hn => ⟨n, hn, Nat.le_refl n⟩⟩ fun t _ t' ht hserial hstep => by
          obtain ⟨hok', hmono⟩ := ht.1.step hserial hstep
          refine ⟨hok', fun pair n hn => ?_⟩
          obtain ⟨m, hm, hnm⟩ := ht.2 pair n hn
          obtain ⟨m', hm', hmm'⟩ := hmono pair m hm
          exact ⟨m', hm', Nat.le_trans hnm hmm'⟩
    exact hlaterOk.2
  · intro hreturned cp hcp hlargest
    obtain ⟨latest, hlatest, hpair, hle⟩ := hok.latest cp hcp
    have hseq : latest.eventSeq = cp.eventSeq :=
      Nat.le_antisymm (hlargest latest (hok.kept _ _ hlatest).1 hpair) hle
    rw [← hpair, ← hseq]
    rcases hok.covered _ _ hlatest with hstored | ⟨call, hcall, hpending⟩ | ⟨call, hcall, hopen⟩
    · exact hstored
    · rw [hreturned call hcall] at hpending
      cases hpending
    · rw [hreturned call hcall] at hopen
      cases hopen

/-! ## An old copy that is written last -/

instance (s : CheckpointSystem) (action : CheckpointAction) : Decidable (s.Increasing action) :=
  match action with
  | .recordEventProcessed _ _ => inferInstanceAs (Decidable (∀ _ ∈ _, _))
  | .processEvent | .fail _ _ | .flushCheckpoints _ _ | .saveCheckpoint _ _ => isTrue trivial

instance (s : CheckpointSystem) (action : CheckpointAction) : Decidable (s.Current action) :=
  match action with
  | .recordEventProcessed _ _ => inferInstanceAs (Decidable (∀ _ ∈ _, _))
  | .flushCheckpoints _ _ => inferInstanceAs (Decidable (∀ _ ∈ _, _))
  | .processEvent | .fail _ _ | .saveCheckpoint _ _ => isTrue trivial

instance (s : CheckpointSystem) (action : CheckpointAction) : Decidable (s.Serial action) :=
  inferInstanceAs (Decidable (_ ∧ _))

instance (err : Option String) (call : ProcessingCall) : Decidable (call = .returned err) :=
  match call with
  | .returned err' =>
    if h : err' = err then isTrue (by rw [h]) else isFalse fun heq => h (by cases heq; rfl)
  | .recording | .flushing _ => isFalse fun heq => by cases heq

def positionCheckpoint (symbol : String) (eventSeq : Nat) : EventOffsetCheckpoint where
  processorName := "position"
  symbol := symbol
  eventSeq := eventSeq
  kafkaOffset := eventSeq
  partitionID := 0
  timestamp := 0
  stateChecksum := ""
  orderCount := 0
  tradeCount := 0

def saved (call : Nat) : CheckpointAction := .saveCheckpoint call ⟨0, none⟩

/-- Two events of a symbol are recorded in order.  The flush of the first makes its copy before the
second is recorded, and writes it after the flush of the second. -/
theorem older_copy_written_last :
    ∃ s s', Run.Reaches step CheckpointSystem.Increasing newCheckpointSystem s ∧
      Run.Reaches step CheckpointSystem.Increasing s s' ∧
      storedSeq s.rows ("position", "BTC") = some 2 ∧
      (∀ call ∈ s'.calls, call = .returned none) ∧
      storedSeq s'.rows ("position", "BTC") = some 1 := by
  have hrun : (execute step CheckpointSystem.Increasing newCheckpointSystem
      [.processEvent, .processEvent, .recordEventProcessed 0 (positionCheckpoint "BTC" 1),
        .flushCheckpoints 0 ["position:BTC"],
        .recordEventProcessed 1 (positionCheckpoint "BTC" 2),
        .flushCheckpoints 1 ["position:BTC"], saved 1]).any
      (fun s => decide (storedSeq s.rows ("position", "BTC") = some 2) &&
        (execute step CheckpointSystem.Increasing s [saved 0]).any fun s' =>
          decide ((∀ call ∈ s'.calls, call = .returned none) ∧
            storedSeq s'.rows ("position", "BTC") = some 1)) = true := by
    decide +kernel
  obtain ⟨s, hreach, htest⟩ := exists_reaches_of_any hrun
  obtain ⟨hstored, hlast⟩ := Bool.and_eq_true_iff.mp htest
  obtain ⟨s', hlater, htest⟩ := exists_reaches_of_any hlast
  exact ⟨s, s', hreach, hlater, of_decide_eq_true hstored, of_decide_eq_true htest⟩

/-- The flushes of two symbols overlap; the second event of one of them waits for both. -/
theorem overlapping_flushes_keep_up :
    ∃ s, Run.Reaches step CheckpointSystem.Serial newCheckpointSystem s ∧
      (∀ call ∈ s.calls, call = .returned none) ∧
      (∃ cp ∈ s.recorded, cp.pair = ("position", "BTC") ∧ cp.eventSeq = 3 ∧
        storedSeq s.rows cp.pair = some cp.eventSeq) ∧
      ∀ s', Run.Reaches step CheckpointSystem.Serial s s' →
        ∀ n ∈ storedSeq s.rows ("position", "BTC"),
          ∃ m ∈ storedSeq s'.rows ("position", "BTC"), n ≤ m := by
  refine exists_reaches
    [.processEvent, .processEvent, .recordEventProcessed 0 (positionCheckpoint "BTC" 1),
      .flushCheckpoints 0 ["position:BTC"],
      .recordEventProcessed 1 (positionCheckpoint "ETH" 2),
      .flushCheckpoints 1 ["position:ETH", "position:BTC"], saved 1, saved 0, saved 1,
      .processEvent, .recordEventProcessed 2 (positionCheckpoint "BTC" 3),
      .flushCheckpoints 2 ["position:BTC", "position:ETH"], saved 2, saved 2]
    (P := fun s => (∀ call ∈ s.calls, call = .returned none) ∧
      ∃ cp ∈ s.recorded, cp.pair = ("position", "BTC") ∧ cp.eventSeq = 3 ∧
        ∀ cp' ∈ s.recorded, cp'.pair = cp.pair → cp'.eventSeq ≤ cp.eventSeq) (by decide +kernel)
    fun _ hreach ⟨hreturned, cp, hcp, hpair, hseq, hlargest⟩ => ?_
  refine ⟨hreturned, ⟨cp, hcp, hpair, hseq, ?_⟩, fun s' hlater => ?_⟩
  · exact (checkpoints_never_move_back hreach .refl).2 hreturned cp hcp hlargest
  · exact (checkpoints_never_move_back hreach hlater).1 ("position", "BTC")

end CexHertz
