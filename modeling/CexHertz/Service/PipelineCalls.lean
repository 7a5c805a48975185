import CexHertz.Service.PipelineThreads

/-!
# One pipeline call at a time

`ProcessEvent` and `ProcessEventWithContext` with no other call under way: a dispatch is its
goroutines one after the other, in an order the scheduler picks. The flush at the end of a call is
not part of the state, and one that fails is only logged.
-/

namespace CexHertz

open List Option

/-- What a call reads and writes.  `given` is history: the processors that were called, with the
event and what they answered. -/
structure PipelineMemory where
  processorOffsets : String → String → Nat
  kafkaOffsets : String → String → Int
  checkpointMgr : Option CheckpointManager
  processedEventCount : Nat
  failedEventCount : Nat
  log : List MatchingEngineEvent
  given : List (Dispatch × Option String)

/-- What the environment decides about a call to a pipeline of `n` processors: the answer of the
log, the answers of the processors if they are called, the order of the goroutines, the clock. -/
structure CallInput (n : Nat) where
  appendErr : Option String
  answer : Nat → Option String
  order : List Nat
  order_perm : order.Perm (List.range n)
  now : Int

namespace CallInput

variable {n : Nat} (input : CallInput n)

theorem mem_order {i : Nat} : i ∈ input.order ↔ i < n := by
  rw [input.order_perm.mem_iff, mem_range]

theorem order_nodup : input.order.Nodup := input.order_perm.nodup_iff.mpr nodup_range

-- The goroutines have the names of the processors, in some order.
theorem names_nodup {names : List String} (input : CallInput names.length) (hnames : names.Nodup) :
    (input.order.map fun i => names.getD i "").Nodup := by
  have hall : ((List.range names.length).map fun i => names.getD i "") = names := by
    apply ext_getElem
    · rw [length_map, length_range]
    · intro i hi hi'
      rw [getElem_map, getElem_range, getD_eq_getElem?_getD,
        List.getElem?_eq_getElem hi', getD_some]
  rwa [(input.order_perm.map _).nodup_iff, hall]

def quiet (n : Nat) : CallInput n where
  appendErr := none
  answer := fun _ => none
  order := List.range n
  order_perm := .refl _
  now := 0

end CallInput

namespace PipelineMemory

def new (checkpointMgr : Option CheckpointManager) : PipelineMemory where
  processorOffsets := fun _ _ => 0
  kafkaOffsets := fun _ _ => 0
  checkpointMgr := checkpointMgr
  processedEventCount := 0
  failedEventCount := 0
  log := []
  given := []

variable (names : List String) {n : Nat} (input : CallInput n) (event : MatchingEngineEvent)
  (eventCtx : Option EventContext) (s : PipelineMemory)

def lastSeq (i : Nat) : Nat :=
  s.processorOffsets (names.getD i "") event.symbol

def writeKafkaOffset (procName : String) : PipelineMemory :=
  match eventCtx with
  | some eventCtx =>
    if 0 ≤ eventCtx.offset then
      { s with
        kafkaOffsets := Function.update s.kafkaOffsets procName
          (Function.update (s.kafkaOffsets procName) event.symbol eventCtx.offset) }
    else s
  | none => s

/-- `none`: the fields of a nil context are read, and the process panics. -/
def recordCheckpoint (procName : String) : Option PipelineMemory :=
  match s.checkpointMgr, eventCtx with
  | none, _ => some s
  | some _, none => none
  | some cm, some eventCtx =>
    some { s with
      checkpointMgr := some
        (cm.recordEventProcessed (eventCtx.checkpoint procName event input.now)) }

def succeed (i : Nat) : Option PipelineMemory :=
  let procName := names.getD i ""
  let s := { s with
    given := s.given ++ [((i, event), none)]
    processorOffsets := setOffset s.processorOffsets procName event.symbol event.eventSeq }
  ((s.writeKafkaOffset event eventCtx procName).recordCheckpoint input event eventCtx procName).map
    fun s => { s with processedEventCount := s.processedEventCount + 1 }

def fail (i : Nat) (err : String) : PipelineMemory :=
  { s with
    given := s.given ++ [((i, event), some err)]
    failedEventCount := s.failedEventCount + 1 }

/-- The goroutine of the processor with index `i`, beside the errors sent so far. -/
def runProcessor (r : List String × PipelineMemory) (i : Nat) :
    Option (List String × PipelineMemory) :=
  if event.eventSeq ≤ r.2.lastSeq names event i then some r
  else
    match input.answer i with
    | some err =>
      some (r.1 ++ ["processor " ++ names.getD i "" ++ ": " ++ err], r.2.fail event i err)
    | none => (r.2.succeed names input event eventCtx i).map fun s => (r.1, s)

/-- Up to the `FlushCheckpoints` at its end, which writes to the database only. -/
def dispatchToProcessorsInternal : Option (Option String × PipelineMemory) :=
  (input.order.foldlM (runProcessor names input event eventCtx) ([], s)).map fun r =>
    (r.1.head?, r.2)

def appended : PipelineMemory := { s with log := s.log ++ [event] }

def appendAndDispatch : Option (Option String × PipelineMemory) :=
  match input.appendErr with
  | some err => some (some err, { s with failedEventCount := s.failedEventCount + 1 })
  | none => (s.appended event).dispatchToProcessorsInternal names input event eventCtx

def processEvent : Option (Option String × PipelineMemory) :=
  s.appendAndDispatch names input event none

def processEventWithContext (eventCtx : EventContext) : Option (Option String × PipelineMemory) :=
  if eventCtx.isValid then s.appendAndDispatch names input eventCtx.event (some eventCtx)
  else some (some "event context is invalid", s)

end PipelineMemory

/-! ## One goroutine -/

namespace PipelineMemory

variable {names : List String} {n : Nat} {input : CallInput n} {event : MatchingEngineEvent}
  {eventCtx : Option EventContext} {s s' : PipelineMemory} {errs errs' : List String} {i : Nat}

theorem runProcessor_of_skipped (h : event.eventSeq ≤ s.lastSeq names event i) :
    runProcessor names input event eventCtx (errs, s) i = some (errs, s) := by
  unfold runProcessor
  rw [if_pos h]

theorem runProcessor_of_failed (h : s.lastSeq names event i < event.eventSeq) {err : String}
    (hanswer : input.answer i = some err) :
    runProcessor names input event eventCtx (errs, s) i =
      some (errs ++ ["processor " ++ names.getD i "" ++ ": " ++ err], s.fail event i err) := by
  unfold runProcessor
  rw [if_neg (not_le.mpr h), hanswer]

theorem runProcessor_of_succeeded (h : s.lastSeq names event i < event.eventSeq)
    (hanswer : input.answer i = none) :
    runProcessor names input event eventCtx (errs, s) i =
      (s.succeed names input event eventCtx i).map fun s => (errs, s) := by
  unfold runProcessor
  rw [if_neg (not_le.mpr h), hanswer]

theorem writeKafkaOffset_eq (s : PipelineMemory) (event : MatchingEngineEvent)
    (eventCtx : Option EventContext) (procName : String) :
    ∃ kafkaOffsets, s.writeKafkaOffset event eventCtx procName =
      { s with kafkaOffsets := kafkaOffsets } := by
  unfold writeKafkaOffset
  cases eventCtx with
  | none => exact ⟨_, rfl⟩
  | some eventCtx =>
    dsimp only
    split
    · exact ⟨_, rfl⟩
    · exact ⟨_, rfl⟩

theorem recordCheckpoint_eq_some {procName : String}
    (h : s.recordCheckpoint input event eventCtx procName = some s') :
    ∃ checkpointMgr, s' = { s with checkpointMgr := checkpointMgr } ∧
      (checkpointMgr = none ↔ s.checkpointMgr = none) := by
  unfold recordCheckpoint at h
  cases hcm : s.checkpointMgr with
  | none =>
    rw [hcm] at h
    cases h
    exact ⟨s.checkpointMgr, rfl, by rw [hcm]⟩
  | some cm =>
    rw [hcm] at h
    cases eventCtx with
    | none => cases h
    | some eventCtx =>
      cases h
      exact ⟨_, rfl, by simp⟩

structure Succeeded (names : List String) (event : MatchingEngineEvent) (i : Nat)
    (s s' : PipelineMemory) : Prop where
  processorOffsets : s'.processorOffsets =
    setOffset s.processorOffsets (names.getD i "") event.symbol event.eventSeq
  checkpointMgr : s'.checkpointMgr = none ↔ s.checkpointMgr = none
  processedEventCount : s'.processedEventCount = s.processedEventCount + 1
  failedEventCount : s'.failedEventCount = s.failedEventCount
  log : s'.log = s.log
  given : s'.given = s.given ++ [((i, event), none)]

theorem succeeded (h : s.succeed names input event eventCtx i = some s') :
    Succeeded names event i s s' := by
  unfold succeed at h
  obtain ⟨next, hnext, rfl⟩ := map_eq_some_iff.mp h
  obtain ⟨kafkaOffsets, hk⟩ := writeKafkaOffset_eq
    { s with
      given := s.given ++ [((i, event), none)]
      processorOffsets :=
        setOffset s.processorOffsets (names.getD i "") event.symbol event.eventSeq }
    event eventCtx (names.getD i "")
  rw [hk] at hnext
  obtain ⟨checkpointMgr, rfl, hcm⟩ := recordCheckpoint_eq_some hnext
  exact ⟨rfl, hcm, rfl, rfl, rfl, rfl⟩

theorem succeed_of_no_manager (h : s.checkpointMgr = none) (names : List String)
    (input : CallInput n) (event : MatchingEngineEvent) (eventCtx : Option EventContext) (i : Nat) :
    ∃ s', s.succeed names input event eventCtx i = some s' := by
  unfold succeed
  dsimp only
  obtain ⟨kafkaOffsets, hk⟩ := writeKafkaOffset_eq
    { s with
      given := s.given ++ [((i, event), none)]
      processorOffsets :=
        setOffset s.processorOffsets (names.getD i "") event.symbol event.eventSeq }
    event eventCtx (names.getD i "")
  rw [hk]
  simp only [h]
  exact ⟨_, rfl⟩

-- With a manager the fields of the context are read, context or not.
theorem succeed_of_no_context (h : s.checkpointMgr ≠ none) :
    s.succeed names input event none i = none := by
  obtain ⟨cm, hcm⟩ := ne_none_iff_exists'.mp h
  unfold succeed writeKafkaOffset recordCheckpoint
  simp only [hcm, map_none]

theorem runProcessor_cases
    (h : runProcessor names input event eventCtx (errs, s) i = some (errs', s')) :
    (event.eventSeq ≤ s.lastSeq names event i ∧ errs' = errs ∧ s' = s) ∨
    (s.lastSeq names event i < event.eventSeq ∧ ∃ err, input.answer i = some err ∧
      errs' = errs ++ ["processor " ++ names.getD i "" ++ ": " ++ err] ∧
      s' = s.fail event i err) ∨
    (s.lastSeq names event i < event.eventSeq ∧ input.answer i = none ∧ errs' = errs ∧
      Succeeded names event i s s') := by
  by_cases hskip : event.eventSeq ≤ s.lastSeq names event i
  · rw [runProcessor_of_skipped hskip] at h
    cases h
    exact .inl ⟨hskip, rfl, rfl⟩
  · have hlt := not_le.mp hskip
    cases hanswer : input.answer i with
    | some err =>
      rw [runProcessor_of_failed hlt hanswer] at h
      cases h
      exact .inr (.inl ⟨hlt, err, rfl, rfl, rfl⟩)
    | none =>
      rw [runProcessor_of_succeeded hlt hanswer] at h
      obtain ⟨next, hnext, heq⟩ := map_eq_some_iff.mp h
      cases heq
      exact .inr (.inr ⟨hlt, rfl, rfl, succeeded hnext⟩)

theorem Succeeded.lastSeq (h : Succeeded names event i s s') (j : Nat) : s'.lastSeq names event j =
      if names.getD j "" = names.getD i "" then event.eventSeq else s.lastSeq names event j := by
  unfold PipelineMemory.lastSeq
  rw [h.processorOffsets, setOffset_apply]
  simp only [and_true, eq_comm]

end PipelineMemory

/-! ## All goroutines of a call -/

namespace PipelineMemory

variable {names : List String} {n : Nat} {input : CallInput n} {event : MatchingEngineEvent}
  {s s' : PipelineMemory} {errs errs' : List String} {order : List Nat}
variable {eventCtx : Option EventContext} {i : Nat}

/-- The goroutine would call the processor now, and the processor would return without an error. -/
def Succeeds (names : List String) (input : CallInput n) (event : MatchingEngineEvent)
    (s : PipelineMemory) (i : Nat) : Prop :=
  s.lastSeq names event i < event.eventSeq ∧ input.answer i = none

-- Offsets move on success only, so as long as nobody succeeds it is decided at the start.
theorem dispatch_of_nobody (h : ∀ i ∈ order, ¬ Succeeds names input event s i)
    (errs : List String) :
    ∃ r, ∀ eventCtx, order.foldlM (runProcessor names input event eventCtx) (errs, s) = some r := by
  induction order generalizing errs s with
  | nil => exact ⟨_, fun _ => rfl⟩
  | cons i rest ih =>
    have hrest : ∀ j ∈ rest, ¬ Succeeds names input event s j :=
      fun j hj => h j (.tail _ hj)
    by_cases hskip : event.eventSeq ≤ s.lastSeq names event i
    · obtain ⟨r, hr⟩ : ∃ r, ∀ eventCtx,
          rest.foldlM (runProcessor names input event eventCtx) (errs, s) = some r := ih hrest _
      refine ⟨r, fun eventCtx => ?_⟩
      rw [foldlM_cons, runProcessor_of_skipped hskip]
      exact hr eventCtx
    · have hlt := not_le.mp hskip
      obtain ⟨err, herr⟩ : ∃ err, input.answer i = some err :=
        ne_none_iff_exists'.mp fun hnone => h i mem_cons_self ⟨hlt, hnone⟩
      obtain ⟨r, hr⟩ : ∃ r, ∀ eventCtx, rest.foldlM (runProcessor names input event eventCtx)
            (errs ++ ["processor " ++ names.getD i "" ++ ": " ++ err], s.fail event i err) =
              some r := ih (s := s.fail event i err) hrest _
      refine ⟨r, fun eventCtx => ?_⟩
      rw [foldlM_cons, runProcessor_of_failed hlt herr]
      exact hr eventCtx

theorem dispatch_panics (hcm : s.checkpointMgr ≠ none)
    (h : ∃ i ∈ order, Succeeds names input event s i) (errs : List String) :
    order.foldlM (runProcessor names input event none) (errs, s) = none := by
  induction order generalizing errs s with
  | nil =>
    obtain ⟨i, hi, -⟩ := h
    cases hi
  | cons j rest ih =>
    rw [foldlM_cons]
    by_cases hskip : event.eventSeq ≤ s.lastSeq names event j
    · rw [runProcessor_of_skipped hskip]
      refine ih hcm ?_ errs
      obtain ⟨i, hi, hsucc⟩ := h
      rcases mem_cons.mp hi with rfl | hi
      · exact absurd hsucc.1 (not_lt.mpr hskip)
      · exact ⟨i, hi, hsucc⟩
    · have hlt := not_le.mp hskip
      cases hanswer : input.answer j with
      | none =>
        rw [runProcessor_of_succeeded hlt hanswer, succeed_of_no_context hcm]
        rfl
      | some err =>
        rw [runProcessor_of_failed hlt hanswer]
        refine ih (s := s.fail event j err) hcm ?_ _
        obtain ⟨i, hi, hsucc⟩ := h
        rcases mem_cons.mp hi with rfl | hi
        · rw [hsucc.2] at hanswer
          cases hanswer
        · exact ⟨i, hi, hsucc⟩

theorem dispatch_returns (hcm : s.checkpointMgr = none) (errs : List String) :
    ∃ r, order.foldlM (runProcessor names input event eventCtx) (errs, s) = some r := by
  induction order generalizing errs s with
  | nil => exact ⟨_, rfl⟩
  | cons i rest ih =>
    rw [foldlM_cons]
    by_cases hskip : event.eventSeq ≤ s.lastSeq names event i
    · rw [runProcessor_of_skipped hskip]
      exact ih hcm errs
    · have hlt := not_le.mp hskip
      cases hanswer : input.answer i with
      | some err =>
        rw [runProcessor_of_failed hlt hanswer]
        exact ih (s := s.fail event i err) hcm _
      | none =>
        obtain ⟨next, hnext⟩ := succeed_of_no_manager hcm names input event eventCtx i
        rw [runProcessor_of_succeeded hlt hanswer, hnext]
        exact ih ((succeeded hnext).checkpointMgr.mpr hcm) errs

/-- What a dispatch that returns has done: it only adds errors, offsets only grow, a dispatch
without errors leaves every processor at the event or behind it, and the processors that succeeded
have names of their own. -/
structure Dispatched (names : List String) (input : CallInput n) (event : MatchingEngineEvent)
    (order : List Nat) (errs : List String) (s : PipelineMemory) (errs' : List String)
    (s' : PipelineMemory) : Prop where
  errs_prefix : errs <+: errs'
  offsets_le : ∀ name symbol, s.processorOffsets name symbol ≤ s'.processorOffsets name symbol
  reached : errs' = errs → ∀ i ∈ order, event.eventSeq ≤ s'.lastSeq names event i
  log : s'.log = s.log
  given : ∃ new : List (Dispatch × Option String), s'.given = s.given ++ new ∧
    ((new.filter fun d => d.2 = none).map fun d => names.getD d.1.1 "").Nodup ∧
    ∀ d ∈ new, d.2 = none → Succeeds names input event s d.1.1

theorem Dispatched.skip (h : Dispatched names input event order errs s errs' s')
    (hskip : event.eventSeq ≤ s.lastSeq names event i) :
    Dispatched names input event (i :: order) errs s errs' s' := by
  refine ⟨h.errs_prefix, h.offsets_le, fun herrs j hj => ?_, h.log, h.given⟩
  rcases mem_cons.mp hj with rfl | hj
  · exact hskip.trans (h.offsets_le _ _)
  · exact h.reached herrs j hj

theorem Dispatched.fail {err msg : String}
    (h : Dispatched names input event order (errs ++ [msg]) (s.fail event i err) errs' s') :
    Dispatched names input event (i :: order) errs s errs' s' := by
  refine ⟨(prefix_append _ _).trans h.errs_prefix, h.offsets_le, fun herrs => ?_, h.log, ?_⟩
  · have hlen := h.errs_prefix.length_le
    rw [herrs, length_append, length_singleton] at hlen
    omega
  · obtain ⟨new, hnew, hnodup, hsucc⟩ := h.given
    refine ⟨((i, event), some err) :: new, ?_, ?_, fun d hd hnone => ?_⟩
    · rw [hnew]
      exact append_assoc _ _ _
    · rwa [filter_cons_of_neg (by simp)]
    · rcases mem_cons.mp hd with rfl | hd
      · cases hnone
      · exact hsucc d hd hnone

theorem Succeeded.offset_le (h : Succeeded names event i s s')
    (hlt : s.lastSeq names event i < event.eventSeq) (name symbol : String) :
    s.processorOffsets name symbol ≤ s'.processorOffsets name symbol := by
  rw [h.processorOffsets, setOffset_apply]
  split
  next heq =>
    rw [← heq.1, ← heq.2]
    exact hlt.le
  next => exact le_refl _

-- Whoever is called after a success has another name, and found its offset as it was before.
theorem Succeeded.succeeds {j : Nat} (h : Succeeded names event i s s')
    (hj : Succeeds names input event s' j) :
    names.getD j "" ≠ names.getD i "" ∧ Succeeds names input event s j := by
  have hlt := hj.1
  rw [h.lastSeq] at hlt
  split at hlt
  next => exact absurd hlt (lt_irrefl _)
  next hne => exact ⟨hne, hlt, hj.2⟩

theorem Dispatched.succeed {next : PipelineMemory}
    (h : Dispatched names input event order errs next errs' s')
    (hs : Succeeded names event i s next) (hi : Succeeds names input event s i) :
    Dispatched names input event (i :: order) errs s errs' s' := by
  refine ⟨h.errs_prefix, fun name symbol => (hs.offset_le hi.1 name symbol).trans
    (h.offsets_le name symbol), fun herrs j hj => ?_, h.log.trans hs.log, ?_⟩
  · rcases mem_cons.mp hj with rfl | hj
    · have hreached : next.lastSeq names event j = event.eventSeq := by
        rw [hs.lastSeq, if_pos rfl]
      exact hreached ▸ h.offsets_le _ _
    · exact h.reached herrs j hj
  · obtain ⟨new, hnew, hnodup, hsucc⟩ := h.given
    refine ⟨((i, event), none) :: new, ?_, ?_, fun d hd hnone => ?_⟩
    · rw [hnew, hs.given]
      exact append_assoc _ _ _
    · rw [filter_cons_of_pos (by simp), map_cons, nodup_cons]
      refine ⟨fun hmem => ?_, hnodup⟩
      obtain ⟨d, hd, hname⟩ := mem_map.mp hmem
      obtain ⟨hd, hnone⟩ := mem_filter.mp hd
      exact (hs.succeeds (hsucc d hd (of_decide_eq_true hnone))).1 hname
    · rcases mem_cons.mp hd with rfl | hd
      · exact hi
      · exact (hs.succeeds (hsucc d hd hnone)).2

theorem dispatched
    (h : order.foldlM (runProcessor names input event eventCtx) (errs, s) = some (errs', s')) :
    Dispatched names input event order errs s errs' s' := by
  induction order generalizing errs s with
  | nil =>
    cases h
    exact ⟨prefix_refl _, fun _ _ => le_refl _, nofun,
      rfl, [], (append_nil _).symm, nodup_nil, nofun⟩
  | cons i rest ih =>
    rw [foldlM_cons] at h
    obtain ⟨⟨errs₁, s₁⟩, hfirst, hrest⟩ := bind_eq_some_iff.mp h
    have hd := ih hrest
    rcases runProcessor_cases hfirst with ⟨hskip, rfl, rfl⟩ | ⟨-, err, -, rfl, rfl⟩ |
      ⟨hlt, hanswer, rfl, hs⟩
    · exact hd.skip hskip
    · exact hd.fail
    · exact hd.succeed hs ⟨hlt, hanswer⟩

theorem dispatch_invariant {I : PipelineMemory → Prop}
    (hfail : ∀ s i err, I s → I (s.fail event i err))
    (hsucceed : ∀ s s' i, I s → Succeeded names event i s s' → I s')
    (h : order.foldlM (runProcessor names input event eventCtx) (errs, s) = some (errs', s'))
    (hs : I s) : I s' := by
  induction order generalizing errs s with
  | nil =>
    cases h
    exact hs
  | cons i rest ih =>
    rw [foldlM_cons] at h
    obtain ⟨⟨errs₁, s₁⟩, hfirst, hrest⟩ := bind_eq_some_iff.mp h
    apply ih hrest
    rcases runProcessor_cases hfirst with ⟨-, -, rfl⟩ | ⟨-, err, -, -, rfl⟩ | ⟨-, -, -, hsucc⟩
    · exact hs
    · exact hfail s i err hs
    · exact hsucceed s s₁ i hs hsucc

theorem dispatch_checkpointMgr
    (h : order.foldlM (runProcessor names input event eventCtx) (errs, s) = some (errs', s')) :
    s'.checkpointMgr = none ↔ s.checkpointMgr = none :=
  dispatch_invariant (I := fun t => t.checkpointMgr = none ↔ s.checkpointMgr = none)
    (fun _ _ _ ht => ht) (fun _ _ _ ht hsucc => hsucc.checkpointMgr.trans ht) h Iff.rfl

theorem dispatch_offsets
    (h : order.foldlM (runProcessor names input event eventCtx) (errs, s) = some (errs', s'))
    (name symbol : String) :
    s'.processorOffsets name symbol = s.processorOffsets name symbol ∨
      s'.processorOffsets name symbol = event.eventSeq := by
  refine dispatch_invariant (I := fun t => t.processorOffsets name symbol =
    s.processorOffsets name symbol ∨ t.processorOffsets name symbol = event.eventSeq)
    (fun _ _ _ ht => ht) (fun t t' i ht hsucc => ?_) h (.inl rfl)
  rw [hsucc.processorOffsets, setOffset_apply]
  split
  · exact .inr rfl
  · exact ht

theorem dispatch_of_all (hcm : s.checkpointMgr = none)
    (hnames : (order.map fun i => names.getD i "").Nodup)
    (hall : ∀ i ∈ order, Succeeds names input event s i) (errs : List String) :
    ∃ s', order.foldlM (runProcessor names input event eventCtx) (errs, s) = some (errs, s') ∧
      s'.log = s.log ∧ s'.given = s.given ++ order.map fun i => ((i, event), none) := by
  induction order generalizing s with
  | nil => exact ⟨s, rfl, rfl, (append_nil _).symm⟩
  | cons i rest ih =>
    obtain ⟨hnot, hrest⟩ := nodup_cons.mp hnames
    have hi := hall i mem_cons_self
    obtain ⟨next, hnext⟩ := succeed_of_no_manager hcm names input event eventCtx i
    have hs := succeeded hnext
    have hall' : ∀ j ∈ rest, Succeeds names input event next j := by
      intro j hj
      have hne : names.getD j "" ≠ names.getD i "" := fun heq =>
        hnot (mem_map.mpr ⟨j, hj, heq⟩)
      have hsj := hall j (.tail _ hj)
      refine ⟨?_, hsj.2⟩
      rw [hs.lastSeq, if_neg hne]
      exact hsj.1
    obtain ⟨s', hrun, hlog, hgiven⟩ := ih (hs.checkpointMgr.mpr hcm) hrest hall'
    refine ⟨s', ?_, hlog.trans hs.log, ?_⟩
    · rwa [foldlM_cons, runProcessor_of_succeeded hi.1 hi.2, hnext]
    · rw [hgiven, hs.given, append_assoc]
      rfl

/-! ## The whole call -/

section

variable {input : CallInput n} {eventCtx : Option EventContext}

theorem appendAndDispatch_of_append_error {err : String} (happend : input.appendErr = some err) :
    s.appendAndDispatch names input event eventCtx =
      some (some err, { s with failedEventCount := s.failedEventCount + 1 }) := by
  unfold appendAndDispatch
  rw [happend]

theorem appendAndDispatch_of_dispatch (happend : input.appendErr = none)
    (h : input.order.foldlM (runProcessor names input event eventCtx) ([], s.appended event) =
      some (errs, s')) :
    s.appendAndDispatch names input event eventCtx = some (errs.head?, s') := by
  unfold appendAndDispatch dispatchToProcessorsInternal
  rw [happend]
  rw [h]
  rfl

/-- With a checkpoint manager the call without a context does not return once somebody succeeds. -/
theorem processEvent_panics (happend : input.appendErr = none) (hcm : s.checkpointMgr ≠ none)
    (h : ∃ i < n, Succeeds names input event s i) : s.processEvent names input event = none := by
  obtain ⟨i, hi, hsucc⟩ := h
  have hpanic := dispatch_panics (s := s.appended event) hcm ⟨i, input.mem_order.mpr hi, hsucc⟩ []
  unfold processEvent appendAndDispatch dispatchToProcessorsInternal
  rw [happend]
  rw [hpanic]
  rfl

end

end PipelineMemory

end CexHertz
