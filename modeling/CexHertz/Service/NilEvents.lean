import CexHertz.Service.EventReplay
import CexHertz.Service.PipelineCalls
import CexHertz.Service.RecoveryExecutor

/-!
# Logs with envelopes of unknown types

`UnmarshalEvent` can yield neither an event nor an error, and neither caller asks.
`ProcessEventsFromLog` hands the nil event to the dispatch, which reads its symbol; the recovery
reads its number.
-/

namespace CexHertz

open List PipelineMemory Option

open Json (Encoding)

variable {τ : Type}

/-! ## Envelopes -/

namespace PipelineMemory

section

variable (J : Encoding τ) (names : List String)

/-- The loop over the envelopes; `none` is a panic. -/
def replayEnvelopes : List (EventEnvelope τ) → (Nat → CallInput names.length) → PipelineMemory →
    Option PipelineMemory
  | [], _, s => some s
  | envelope :: rest, inputs, s =>
    match unmarshalEvent J envelope with
    -- logged, and the loop goes on
    | .error _ => replayEnvelopes rest (fun k => inputs (k + 1)) s
    -- `event.Symbol()` of a nil interface
    | .ok none => none
    | .ok (some event) =>
      match s.dispatchToProcessorsInternal names (inputs 0) event none with
      | none => none
      -- so is an error of the dispatch
      | some (_, s') => replayEnvelopes rest (fun k => inputs (k + 1)) s'

def processEventsFromLog (fetched : Except String (List (EventEnvelope τ)))
    (inputs : Nat → CallInput names.length) (s : PipelineMemory) :
    Option (Option String × PipelineMemory) :=
  match fetched with
  | .error err => some (some err, s)
  | .ok envelopes => (replayEnvelopes J names envelopes inputs s).map fun s' => (none, s')

/-- Since `s` every processor was called with each of the events, or has reached its number. -/
structure Hands (events : List MatchingEngineEvent) (s s' : PipelineMemory) : Prop where
  offsets_le : ∀ name symbol, s.processorOffsets name symbol ≤ s'.processorOffsets name symbol
  given : ∃ new, s'.given = s.given ++ new ∧ ∀ event ∈ events, ∀ i < names.length,
    (∃ answer, ((i, event), answer) ∈ new) ∨ event.eventSeq ≤ s'.lastSeq names event i

def Survives (envelopes : List (EventEnvelope τ)) (inputs : Nat → CallInput names.length)
    (s : PipelineMemory) : Prop :=
  ∃ s', s.processEventsFromLog J names (.ok envelopes) inputs = some (none, s') ∧
    Hands names (envelopes.filterMap (decoded J)) s s'

end

/-! ### A dispatch -/

section

variable {names : List String} {n : Nat} {input : CallInput n} {event : MatchingEngineEvent}
  {s s' : PipelineMemory} {errs errs' : List String} {order : List Nat}

theorem dispatch_hands {eventCtx : Option EventContext}
    (h : order.foldlM (runProcessor names input event eventCtx) (errs, s) = some (errs', s')) :
    ∃ new, s'.given = s.given ++ new ∧ ∀ i ∈ order,
      (∃ answer, ((i, event), answer) ∈ new) ∨ event.eventSeq ≤ s'.lastSeq names event i := by
  induction order generalizing errs s with
  | nil =>
    cases h
    exact ⟨[], (append_nil _).symm, nofun⟩
  | cons i rest ih =>
    rw [foldlM_cons] at h
    obtain ⟨⟨errs₁, s₁⟩, hfirst, hrest⟩ := bind_eq_some_iff.mp h
    obtain ⟨new, hnew, hall⟩ := ih hrest
    rcases runProcessor_cases hfirst with ⟨hskip, rfl, rfl⟩ | ⟨-, err, -, rfl, rfl⟩ |
      ⟨-, -, rfl, hs⟩
    · refine ⟨new, hnew, forall_mem_cons.mpr ⟨.inr ?_, hall⟩⟩
      exact hskip.trans ((dispatched hrest).offsets_le _ _)
    · refine ⟨((i, event), some err) :: new, ?_, forall_mem_cons.mpr
        ⟨.inl ⟨_, mem_cons_self⟩, fun j hj => (hall j hj).imp_left ?_⟩⟩
      · rw [hnew, fail, append_assoc, singleton_append]
      · exact fun ⟨answer, hmem⟩ => ⟨answer, .tail _ hmem⟩
    · refine ⟨((i, event), none) :: new, ?_, forall_mem_cons.mpr
        ⟨.inl ⟨_, mem_cons_self⟩, fun j hj => (hall j hj).imp_left ?_⟩⟩
      · rw [hnew, hs.given, append_assoc, singleton_append]
      · exact fun ⟨answer, hmem⟩ => ⟨answer, .tail _ hmem⟩

end

section

variable {J : Encoding τ} {names : List String} {s s' s'' : PipelineMemory}
variable {envelopes : List (EventEnvelope τ)} {inputs : Nat → CallInput names.length}

theorem Hands.nil : Hands names [] s s :=
  ⟨fun _ _ => le_refl _, [], (append_nil _).symm, nofun⟩

theorem Hands.append {events events' : List MatchingEngineEvent} (h : Hands names events s s')
    (h' : Hands names events' s' s'') : Hands names (events ++ events') s s'' := by
  obtain ⟨new, hnew, hall⟩ := h.given
  obtain ⟨new', hnew', hall'⟩ := h'.given
  refine ⟨fun name symbol => (h.offsets_le name symbol).trans (h'.offsets_le name symbol),
    new ++ new', by rw [hnew', hnew, append_assoc], ?_⟩
  refine forall_mem_append.mpr ⟨fun event hevent i hi => ?_, fun event hevent i hi => ?_⟩
  · rcases hall event hevent i hi with ⟨answer, hmem⟩ | hle
    · exact .inl ⟨answer, mem_append_left _ hmem⟩
    · exact .inr (hle.trans (h'.offsets_le _ _))
  · exact (hall' event hevent i hi).imp_left fun ⟨answer, hmem⟩ =>
      ⟨answer, mem_append_right _ hmem⟩

theorem Hands.dispatch {input : CallInput names.length} {event : MatchingEngineEvent}
    {eventCtx : Option EventContext} {err : Option String}
    (h : s.dispatchToProcessorsInternal names input event eventCtx = some (err, s')) :
    Hands names [event] s s' := by
  obtain ⟨⟨errs, s₁⟩, hrun, heq⟩ := map_eq_some_iff.mp h
  cases heq
  obtain ⟨new, hnew, hall⟩ := dispatch_hands hrun
  refine ⟨(dispatched hrun).offsets_le, new, hnew, forall_mem_singleton.mpr fun i hi => ?_⟩
  exact hall i (input.mem_order.mpr hi)

end

end PipelineMemory

/-! ## The replay of a recovery -/

section

variable {J : Encoding τ}

section

variable {s : EngineNode τ} {item : String × String} {opts : RecoveryOptions}
  {input : RecoveryInput} {recoveryCtx : RecoveryContext} {envelopes : List (EventEnvelope τ)}

variable (hlock : input.lock = none) (hcontext : input.contextFault = none)
  (hlog : input.logFault = none) (hlive : ∀ k, (input.replay k).expired = false)
  (hctx : getRecoveryContext s.checkpoints.rows none item.1 item.2 = .ok recoveryCtx)
  (hread : s.log.getEventsBySymbol none item.2 recoveryCtx.startEventSeq 1000 = .ok envelopes)

include hlock hcontext hlog hlive hctx hread

end

end

/-! ## Any log -/

end CexHertz
