import CexHertz.Service.PipelineCalls

/-!
# The two entry points of the pipeline

`ProcessEvent` runs the dispatch without a context, `ProcessEventWithContext` with one. The dispatch
allows for the missing context where it reads the offset and the partition, not where it reads the
checksum and the counts.
-/

namespace CexHertz

def CheckpointManager.progress (cm : CheckpointManager) (key : String) :
    Option (String × String × Nat) :=
  (cm.checkpoints key).map fun cp => (cp.processorName, cp.symbol, cp.eventSeq)

namespace PipelineMemory

variable {names : List String} {n : Nat} {input : CallInput n} {event : MatchingEngineEvent}
  {s s' : PipelineMemory} {errs : List String} {order : List Nat}

/-- The same but for the Kafka offsets and the further fields of the checkpoints. -/
structure Alike (s s' : PipelineMemory) : Prop where
  processorOffsets : s'.processorOffsets = s.processorOffsets
  progress : s'.checkpointMgr.map CheckpointManager.progress =
    s.checkpointMgr.map CheckpointManager.progress
  processedEventCount : s'.processedEventCount = s.processedEventCount
  failedEventCount : s'.failedEventCount = s.failedEventCount
  log : s'.log = s.log
  given : s'.given = s.given

theorem Alike.refl (s : PipelineMemory) : Alike s s := ⟨rfl, rfl, rfl, rfl, rfl, rfl⟩

theorem Alike.lastSeq (h : Alike s s') (i : Nat) :
    s'.lastSeq names event i = s.lastSeq names event i := by
  unfold PipelineMemory.lastSeq
  rw [h.processorOffsets]

theorem Alike.fail (h : Alike s s') (i : Nat) (err : String) :
    Alike (s.fail event i err) (s'.fail event i err) := by
  unfold PipelineMemory.fail
  exact ⟨h.processorOffsets, h.progress, h.processedEventCount,
    congrArg (· + 1) h.failedEventCount, h.log, by rw [h.given]⟩

-- Without a manager a success writes the same on both sides.
theorem Alike.succeeded {i : Nat} {t t' : PipelineMemory} (h : Alike s s')
    (hcm : s.checkpointMgr = none) (hcm' : s'.checkpointMgr = none)
    (ht : Succeeded names event i s t) (ht' : Succeeded names event i s' t') : Alike t t' := by
  refine ⟨?_, ?_, ?_, ?_, ?_, ?_⟩
  · rw [ht.processorOffsets, ht'.processorOffsets, h.processorOffsets]
  · rw [ht.checkpointMgr.mpr hcm, ht'.checkpointMgr.mpr hcm']
  · rw [ht.processedEventCount, ht'.processedEventCount, h.processedEventCount]
  · rw [ht.failedEventCount, ht'.failedEventCount, h.failedEventCount]
  · rw [ht.log, ht'.log, h.log]
  · rw [ht.given, ht'.given, h.given]

theorem dispatch_of_no_manager (h : Alike s s') (hcm : s.checkpointMgr = none)
    (hcm' : s'.checkpointMgr = none) (names : List String) (input : CallInput n)
    (event : MatchingEngineEvent) (eventCtx eventCtx' : Option EventContext) (order : List Nat)
    (errs : List String) :
    ∃ errs' t t', order.foldlM (runProcessor names input event eventCtx) (errs, s) =
        some (errs', t) ∧
      order.foldlM (runProcessor names input event eventCtx') (errs, s') = some (errs', t') ∧
      Alike t t' := by
  induction order generalizing errs s s' with
  | nil => exact ⟨errs, s, s', rfl, rfl, h⟩
  | cons i rest ih =>
    rw [List.foldlM_cons, List.foldlM_cons]
    by_cases hskip : event.eventSeq ≤ s.lastSeq names event i
    · rw [runProcessor_of_skipped hskip,
        runProcessor_of_skipped (le_of_le_of_eq hskip (h.lastSeq i).symm)]
      exact ih h hcm hcm' errs
    · have hlt := not_le.mp hskip
      have hlt' := lt_of_eq_of_lt (h.lastSeq i) hlt
      cases hanswer : input.answer i with
      | some err =>
        rw [runProcessor_of_failed hlt hanswer, runProcessor_of_failed hlt' hanswer]
        exact ih (h.fail i err) hcm hcm' _
      | none =>
        obtain ⟨t, ht⟩ := succeed_of_no_manager hcm names input event eventCtx i
        obtain ⟨t', ht'⟩ := succeed_of_no_manager hcm' names input event eventCtx' i
        rw [runProcessor_of_succeeded hlt hanswer, runProcessor_of_succeeded hlt' hanswer, ht, ht']
        have hs := PipelineMemory.succeeded ht
        have hs' := PipelineMemory.succeeded ht'
        exact ih (h.succeeded hcm hcm' hs hs') (hs.checkpointMgr.mpr hcm)
          (hs'.checkpointMgr.mpr hcm') errs

def Interchangeable (r r' : Option (Option String × PipelineMemory)) : Prop :=
  ∃ err t t', r = some (err, t) ∧ r' = some (err, t') ∧ Alike t t'

/-- The two entry points are interchangeable exactly when the append fails, or no checkpoint manager
is set, or no processor is called that returns without an error. -/
theorem entry_points_interchangeable_iff (names : List String) (input : CallInput names.length)
    (eventCtx : EventContext) (hvalid : eventCtx.isValid = true) (s : PipelineMemory) :
    Interchangeable (s.processEvent names input eventCtx.event)
        (s.processEventWithContext names input eventCtx) ↔
      input.appendErr ≠ none ∨ s.checkpointMgr = none ∨
        ∀ i < names.length, ¬ Succeeds names input eventCtx.event s i := by
  unfold processEvent processEventWithContext
  rw [if_pos hvalid]
  unfold appendAndDispatch
  cases happend : input.appendErr with
  | some err =>
    simp only [ne_eq, reduceCtorEq, not_false_eq_true, true_or, iff_true]
    exact ⟨_, _, _, rfl, rfl, .refl _⟩
  | none =>
    simp only [ne_eq, not_true_eq_false, false_or]
    unfold dispatchToProcessorsInternal
    constructor
    · rintro ⟨err, t, t', ht, -, -⟩
      by_contra hnot
      obtain ⟨hcm, hsome⟩ := not_or.mp hnot
      obtain ⟨i, hi⟩ := not_forall.mp hsome
      obtain ⟨hlt, hsucc⟩ := Classical.not_imp.mp hi
      have hpanic : input.order.foldlM (runProcessor names input eventCtx.event none)
          ([], s.appended eventCtx.event) = none :=
        dispatch_panics (s := s.appended eventCtx.event) hcm
          ⟨i, input.mem_order.mpr hlt, not_not.mp hsucc⟩ []
      rw [hpanic] at ht
      cases ht
    · rintro (hcm | hnobody)
      · obtain ⟨errs, t, t', ht, ht', halike⟩ := dispatch_of_no_manager
          (.refl (s.appended eventCtx.event)) hcm hcm names input eventCtx.event none
          (some eventCtx) input.order []
        rw [ht, ht']
        exact ⟨_, _, _, rfl, rfl, halike⟩
      · have hstart : ∀ i ∈ input.order,
            ¬ Succeeds names input eventCtx.event (s.appended eventCtx.event) i :=
          fun i hi => hnobody i (input.mem_order.mp hi)
        obtain ⟨r, hr⟩ := dispatch_of_nobody hstart []
        rw [hr none, hr (some eventCtx)]
        exact ⟨_, _, _, rfl, rfl, .refl _⟩

def firstContext : EventContext := ⟨submittedBTC 1, "orders", 0, 7, "", 0, 0⟩

theorem entry_points_interchangeable_without_manager : firstContext.isValid = true ∧
      Interchangeable ((new none).processEvent ["p"] (.quiet 1) firstContext.event)
        ((new none).processEventWithContext ["p"] (.quiet 1) firstContext) :=
  ⟨by decide, (entry_points_interchangeable_iff ["p"] (.quiet 1) firstContext (by decide)
    (new none)).mpr (.inr (.inl rfl))⟩

/-- With a checkpoint manager set, the call without a context panics once its processor has
succeeded; the call with one returns and leaves a checkpoint for the event. -/
theorem processEvent_panics_with_manager : let s := new (some ⟨fun _ => none⟩)
    s.processEvent ["p"] (.quiet 1) firstContext.event = none ∧
      ((s.processEventWithContext ["p"] (.quiet 1) firstContext).map fun r =>
        (r.1, r.2.checkpointMgr.map fun cm => cm.progress "p:BTC/USDT")) =
          some (none, some (some ("p", "BTC/USDT", 1))) ∧
      ¬ Interchangeable (s.processEvent ["p"] (.quiet 1) firstContext.event)
        (s.processEventWithContext ["p"] (.quiet 1) firstContext) := by
  intro s
  have hpanic : s.processEvent ["p"] (.quiet 1) firstContext.event = none := rfl
  refine ⟨hpanic, by decide +kernel, ?_⟩
  rintro ⟨err, t, t', ht, -, -⟩
  rw [hpanic] at ht
  cases ht

end PipelineMemory

end CexHertz
