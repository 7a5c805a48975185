import CexHertz.Lib.Run
import CexHertz.Model.EventCodec
import CexHertz.Service.EventPipeline

/-!
# Offsets and replays

Sequential runs of the pipeline over the in-memory log. A failed event leaves the offset alone, but
the next success moves it past the gap, and a replay by `ProcessEventsFromLog` then takes the failed
event for a duplicate.
-/

namespace CexHertz

open List

open Json (Encoding)

variable {τ : Type}

structure InMemoryEventLog (τ : Type) where
  events : List (EventEnvelope τ)

def InMemoryEventLog.appendEvent (J : Encoding τ) (log : InMemoryEventLog τ)
    (event : MatchingEngineEvent) : InMemoryEventLog τ :=
  ⟨log.events ++ [marshalEvent J event]⟩

def InMemoryEventLog.getEventsBySymbol (log : InMemoryEventLog τ) (symbol : String)
    (startSeq : Nat) (limit : Int) : List (EventEnvelope τ) :=
  let found := log.events.filter fun envelope =>
    envelope.symbol = symbol ∧ startSeq ≤ envelope.seq
  if 0 < limit then found.take limit.toNat else found

/-- `logged` is history: the events behind the envelopes.  `todo` are the dispatches of the call in
progress, each with the processors still to be run. -/
structure ReplayState (τ : Type) where
  log : InMemoryEventLog τ
  pipeline : EventPipeline
  logged : List MatchingEngineEvent
  todo : List (MatchingEngineEvent × List Nat)

open ReplayState

def newReplayState : ReplayState τ := ⟨⟨[]⟩, newEventPipeline, [], []⟩

inductive ReplayAction where
  | processEvent (event : MatchingEngineEvent) (err : Option String)
  | processEventsFromLog (symbol : String) (startSeq : Nat) (limit : Int) (err : Option String)
  | dispatch (processor : Nat) (err : Option String)
  | wait

def decoded (J : Encoding τ) (envelope : EventEnvelope τ) : Option MatchingEngineEvent :=
  match unmarshalEvent J envelope with
  | .ok event => event
  | .error _ => none

section

variable (J : Encoding τ) (processors : List String)

def processorName (i : Nat) : String := processors.getD i ""

def ReplayState.step (s : ReplayState τ) : ReplayAction → Option (ReplayState τ)
  | .processEvent event err =>
    -- one call at a time; the fields of an event fit their types
    if s.todo = [] ∧ event.InRange then
      match err with
      | some _ => some s
      | none =>
        some { s with
          log := s.log.appendEvent J event
          logged := s.logged ++ [event]
          todo := [(event, List.range processors.length)] }
    else none
  | .processEventsFromLog symbol startSeq limit err =>
    if s.todo = [] then
      match err with
      | some _ => some s
      | none =>
        let events := (s.log.getEventsBySymbol symbol startSeq limit).filterMap (decoded J)
        some { s with todo := events.map fun event => (event, List.range processors.length) }
    else none
  | .dispatch i err =>
    match s.todo with
    | [] => none
    | (event, pending) :: rest =>
      if i ∈ pending then
        some { s with
          pipeline := s.pipeline.dispatch i (processorName processors i) event err
          todo := (event, pending.erase i) :: rest }
      else none
  | .wait =>
    match s.todo with
    | (_, []) :: rest => some { s with todo := rest }
    | _ => none

def ReplayState.ProcessedBy (s : ReplayState τ) (name : String) (event : MatchingEngineEvent) :
    Prop :=
  ∃ d ∈ s.pipeline.processed, processorName processors d.1 = name ∧ d.2 = event

instance (s : ReplayState τ) (name : String) (event : MatchingEngineEvent) :
    Decidable (s.ProcessedBy processors name event) :=
  inferInstanceAs (Decidable (∃ d ∈ s.pipeline.processed, _))

def Ascending (s : ReplayState τ) : ReplayAction → Prop
  | .processEvent event _ => 0 < event.eventSeq ∧
      ∀ e ∈ s.logged, e.symbol = event.symbol → e.eventSeq < event.eventSeq
  | _ => True

def NoGap (s : ReplayState τ) : ReplayAction → Prop
  | .dispatch i none => ∀ t ∈ s.todo.head?,
      s.pipeline.processorOffsets (processorName processors i) t.1.symbol < t.1.eventSeq →
      ∀ e ∈ s.logged, e.symbol = t.1.symbol → e.eventSeq < t.1.eventSeq →
        s.ProcessedBy processors (processorName processors i) e
  | _ => True

def Gapless (s : ReplayState τ) (action : ReplayAction) : Prop :=
  Ascending s action ∧ NoGap processors s action

end

/-! ## Every logged event up to the offset -/

structure ReplayOk (J : Encoding τ) (processors : List String) (s : ReplayState τ) : Prop where
  log : s.log.events = s.logged.map (marshalEvent J)
  inRange : ∀ e ∈ s.logged, e.InRange ∧ 0 < e.eventSeq
  unique : ∀ e ∈ s.logged, ∀ e' ∈ s.logged, e.symbol = e'.symbol → e.eventSeq = e'.eventSeq → e = e'
  todo : ∀ t ∈ s.todo, t.1 ∈ s.logged
  processed : ∀ d ∈ s.pipeline.processed, d.2 ∈ s.logged
  inOrder : ProcessedInOrder (processorName processors) s.pipeline
  covered : ∀ name, ∀ e ∈ s.logged, e.eventSeq ≤ s.pipeline.processorOffsets name e.symbol →
    s.ProcessedBy processors name e

namespace ReplayOk

variable {J : Encoding τ} {processors : List String} {s s' : ReplayState τ}

theorem new : ReplayOk J processors (newReplayState : ReplayState τ) where
  log := rfl
  inRange := nofun
  unique := fun _ he => nomatch he
  todo := nofun
  processed := nofun
  inOrder := processedInOrder_new
  covered := fun _ _ he => nomatch he

theorem offset_logged (h : ReplayOk J processors s) (name symbol : String) :
    s.pipeline.processorOffsets name symbol = 0 ∨ ∃ e ∈ s.logged, e.symbol = symbol ∧
      e.eventSeq = s.pipeline.processorOffsets name symbol := by
  rcases mem_cons.mp (h.inOrder name symbol).1.1 with hzero | hmem
  · exact .inl hzero
  · obtain ⟨d, hd, hseq⟩ := mem_map.mp hmem
    obtain ⟨hprocessed, hmatch⟩ := mem_filter.mp hd
    exact .inr ⟨d.2, h.processed d hprocessed, (of_decide_eq_true hmatch).2, hseq⟩

theorem processEvent (h : ReplayOk J processors s) {event : MatchingEngineEvent}
    (hrange : event.InRange) (hpositive : 0 < event.eventSeq)
    (hlast : ∀ e ∈ s.logged, e.symbol = event.symbol → e.eventSeq < event.eventSeq)
    (todo : List (MatchingEngineEvent × List Nat)) (htodo : ∀ t ∈ todo, t.1 = event) :
    ReplayOk J processors
      { s with log := s.log.appendEvent J event, logged := s.logged ++ [event], todo := todo } where
  log := by
    rw [map_append, ← h.log]
    rfl
  inRange := by
    exact Run.forall_mem_concat h.inRange ⟨hrange, hpositive⟩
  unique := by
    intro e he e' he' hsymbol hseq
    rcases mem_append.mp he with he | he
    · rcases mem_append.mp he' with he' | he'
      · exact h.unique e he e' he' hsymbol hseq
      · rw [mem_singleton.mp he'] at hsymbol hseq
        have := hlast e he hsymbol
        omega
    · rcases mem_append.mp he' with he' | he'
      · rw [mem_singleton.mp he] at hsymbol hseq
        have := hlast e' he' hsymbol.symm
        omega
      · rw [mem_singleton.mp he, mem_singleton.mp he']
  todo := by
    intro t ht
    rw [htodo t ht]
    exact mem_append_right _ mem_cons_self
  processed := fun d hd => mem_append_left _ (h.processed d hd)
  inOrder := h.inOrder
  covered := by
    intro name e he hle
    rcases mem_append.mp he with he | he
    · exact h.covered name e he hle
    · -- the new number is above every offset
      rw [mem_singleton.mp he] at hle
      dsimp only at hle
      rcases h.offset_logged name event.symbol with hzero | ⟨e', he', hsymbol, hseq⟩
      · omega
      · have := hlast e' he' hsymbol
        omega

theorem dispatch (h : ReplayOk J processors s) {i : Nat} {err : Option String}
    {event : MatchingEngineEvent} (hevent : event ∈ s.logged)
    (hgap : err = none →
      s.pipeline.processorOffsets (processorName processors i) event.symbol < event.eventSeq →
      ∀ e ∈ s.logged, e.symbol = event.symbol → e.eventSeq < event.eventSeq →
        s.ProcessedBy processors (processorName processors i) e)
    {todo : List (MatchingEngineEvent × List Nat)} (htodo : ∀ t ∈ todo, t.1 ∈ s.logged) :
    ReplayOk J processors
      { s with
        pipeline := s.pipeline.dispatch i (processorName processors i) event err
        todo := todo } := by
  have hinOrder := h.inOrder.dispatch i event err
  rcases dispatch_processed_cases s.pipeline i (processorName processors i) event err with
    ⟨-, hprocessed, hoffsets⟩ | ⟨hlt, hok, hprocessed, hoffsets⟩
  · refine ⟨h.log, h.inRange, h.unique, htodo, ?_, hinOrder, ?_⟩
    · rw [hprocessed]
      exact h.processed
    · intro name e he
      unfold ReplayState.ProcessedBy
      rw [hprocessed, hoffsets]
      exact h.covered name e he
  · have hmono : ∀ name e, s.ProcessedBy processors name e →
        ∃ d ∈ s.pipeline.processed ++ [(i, event)], processorName processors d.1 = name ∧ d.2 = e :=
      fun name e ⟨d, hd, hmatch⟩ => ⟨d, mem_append_left _ hd, hmatch⟩
    refine ⟨h.log, h.inRange, h.unique, htodo, ?_, hinOrder, ?_⟩
    · rw [hprocessed]
      exact Run.forall_mem_concat h.processed hevent
    · intro name e he
      unfold ReplayState.ProcessedBy
      rw [hprocessed, hoffsets, setOffset_apply]
      split
      next hown =>
        obtain ⟨rfl, hsymbol⟩ := hown
        intro hle
        rcases Nat.lt_or_eq_of_le hle with hbelow | hequal
        · exact hmono _ _ (hgap hok hlt e he hsymbol.symm hbelow)
        · exact ⟨(i, event), mem_append_right _ mem_cons_self, rfl,
            h.unique event hevent e he hsymbol hequal.symm⟩
      next => exact fun hle => hmono _ _ (h.covered name e he hle)

-- What was marshalled is what is dispatched again.
theorem decoded_marshal (h : ReplayOk J processors s) {e : MatchingEngineEvent}
    (he : e ∈ s.logged) : decoded J (marshalEvent J e) = some e := by
  unfold decoded
  rw [unmarshalEvent_marshalEvent J (h.inRange e he).1]

theorem getEventsBySymbol_subset (log : InMemoryEventLog τ) (symbol : String) (startSeq : Nat)
    (limit : Int) : ∀ envelope ∈ log.getEventsBySymbol symbol startSeq limit,
      envelope ∈ log.events := by
  intro envelope hmem
  unfold InMemoryEventLog.getEventsBySymbol at hmem
  split at hmem
  · exact mem_of_mem_filter (mem_of_mem_take hmem)
  · exact mem_of_mem_filter hmem

theorem replay_logged (h : ReplayOk J processors s) {symbol : String} {startSeq : Nat} {limit : Int}
    {e : MatchingEngineEvent}
    (he : e ∈ (s.log.getEventsBySymbol symbol startSeq limit).filterMap (decoded J)) :
    e ∈ s.logged := by
  obtain ⟨envelope, hmem, hdecoded⟩ := mem_filterMap.mp he
  have hlog := getEventsBySymbol_subset s.log symbol startSeq limit envelope hmem
  rw [h.log] at hlog
  obtain ⟨e', he', rfl⟩ := mem_map.mp hlog
  rw [h.decoded_marshal he'] at hdecoded
  cases hdecoded
  exact he'

theorem step (h : ReplayOk J processors s) {action : ReplayAction}
    (hallowed : Gapless processors s action) (hstep : s.step J processors action = some s') :
    ReplayOk J processors s' := by
  cases action with
  | processEvent event err =>
    unfold ReplayState.step at hstep
    dsimp only at hstep
    split at hstep
    next hidle =>
      split at hstep
      next =>
        cases hstep
        exact h
      next =>
        cases hstep
        refine h.processEvent hidle.2 hallowed.1.1 hallowed.1.2 _ fun t ht => ?_
        rw [mem_singleton.mp ht]
    next => cases hstep
  | processEventsFromLog symbol startSeq limit err =>
    unfold ReplayState.step at hstep
    dsimp only at hstep
    split at hstep
    next =>
      split at hstep
      next =>
        cases hstep
        exact h
      next =>
        cases hstep
        refine ⟨h.log, h.inRange, h.unique, fun t ht => ?_, h.processed, h.inOrder, h.covered⟩
        obtain ⟨e, he, rfl⟩ := mem_map.mp ht
        exact h.replay_logged he
    next => cases hstep
  | dispatch i err =>
    unfold ReplayState.step at hstep
    dsimp only at hstep
    split at hstep
    next => cases hstep
    next event pending rest htodo =>
      split at hstep
      next =>
        cases hstep
        have hmem := htodo ▸ h.todo
        refine h.dispatch (hmem _ mem_cons_self) (fun hok => ?_) fun t ht => ?_
        · subst hok
          exact hallowed.2 (event, pending) (by rw [htodo]; rfl)
        · rcases mem_cons.mp ht with rfl | ht
          · exact hmem (event, pending) mem_cons_self
          · exact hmem t (.tail _ ht)
      next => cases hstep
  | wait =>
    unfold ReplayState.step at hstep
    dsimp only at hstep
    split at hstep
    next rest htodo =>
      cases hstep
      refine ⟨h.log, h.inRange, h.unique, fun t ht => ?_, h.processed, h.inOrder, h.covered⟩
      exact h.todo t (htodo ▸ .tail _ ht)
    next => cases hstep

end ReplayOk

-- Above the offset an event reaches its processor, whatever this returns.
theorem dispatch_given {ep : EventPipeline} {i : Nat} {name : String} {e : MatchingEngineEvent}
    (hlt : ep.processorOffsets name e.symbol < e.eventSeq) (err : Option String) :
    (ep.dispatch i name e err).given = ep.given ++ [(i, e)] := by
  unfold EventPipeline.dispatch
  rw [if_neg (Nat.not_le.mpr hlt)]
  cases err <;> rfl

/-- In every run without gaps, all logged events of a symbol up to the offset of a processor have
been processed by it; an event it has not processed is dispatched by a replay that covers it and is
handed to it then. -/
theorem offset_covers_log (J : Encoding τ) (processors : List String) (s : ReplayState τ)
    (hrun : Run.Reaches (step J processors) (Gapless processors) newReplayState s) :
    (∀ name, ∀ e ∈ s.logged, e.eventSeq ≤ s.pipeline.processorOffsets name e.symbol →
      s.ProcessedBy processors name e) ∧
    (∀ symbol startSeq limit s', ∀ e ∈ s.logged,
      marshalEvent J e ∈ s.log.getEventsBySymbol symbol startSeq limit →
      s.step J processors (.processEventsFromLog symbol startSeq limit none) = some s' →
      e ∈ s'.todo.map Prod.fst) ∧
    (∀ i err s', ∀ t ∈ s.todo.head?, ¬ s.ProcessedBy processors (processorName processors i) t.1 →
      s.step J processors (.dispatch i err) = some s' →
      s'.pipeline.given = s.pipeline.given ++ [(i, t.1)]) := by
  have h : ReplayOk J processors s := hrun.invariant ReplayOk.new
    fun _ _ _ hs hallowed hstep => hs.step hallowed hstep
  refine ⟨h.covered, ?_, ?_⟩
  · intro symbol startSeq limit s' e he hcovered hstep
    unfold step at hstep
    dsimp only at hstep
    split at hstep
    next =>
      cases hstep
      rw [map_map]
      exact mem_map.mpr ⟨e, mem_filterMap.mpr ⟨_, hcovered, h.decoded_marshal he⟩, rfl⟩
    next => cases hstep
  · intro i err s' t ht hopen hstep
    unfold step at hstep
    dsimp only at hstep
    split at hstep
    next => cases hstep
    next event pending rest htodo =>
      rw [htodo] at ht
      cases ht
      split at hstep
      next =>
        cases hstep
        refine dispatch_given (Nat.not_le.mp fun hle => hopen ?_) err
        exact h.covered _ event (h.todo (event, pending) (htodo ▸ mem_cons_self)) hle
      next => cases hstep

/-! ## A failure and a success after it -/

instance (s : ReplayState τ) (action : ReplayAction) : Decidable (Ascending s action) :=
  match action with
  | .processEvent _ _ => inferInstanceAs (Decidable (_ ∧ _))
  | .processEventsFromLog _ _ _ _ | .dispatch _ _ | .wait => isTrue trivial

instance (processors : List String) (s : ReplayState τ) (action : ReplayAction) :
    Decidable (NoGap processors s action) :=
  match action with
  | .dispatch _ none => inferInstanceAs (Decidable (∀ _ ∈ _, _ → _))
  | .dispatch _ (some _) | .processEvent _ _ | .processEventsFromLog _ _ _ _ | .wait =>
    isTrue trivial

instance (processors : List String) (s : ReplayState τ) (action : ReplayAction) :
    Decidable (Gapless processors s action) :=
  inferInstanceAs (Decidable (_ ∧ _))

def orderOfBTC (seq : Nat) : MatchingEngineEvent :=
  .orderSubmitted ⟨seq, 0, "o", "u", "BTC/USDT", "buy", 0, 0, "submitted"⟩

/-- The database fails on number 1 and is asked again before number 2 comes. -/
theorem failed_event_replayed_before_next :
    ∃ s, Run.Reaches (step Encoding.value ["db"]) (Gapless ["db"]) newReplayState s ∧
      s.pipeline.processorOffsets "db" "BTC/USDT" = 2 ∧ orderOfBTC 1 ∈ s.logged ∧
      s.ProcessedBy ["db"] "db" (orderOfBTC 1) := by
  refine Run.exists_reaches
    [.processEvent (orderOfBTC 1) none, .dispatch 0 (some "timeout"), .wait,
      .processEventsFromLog "BTC/USDT" 0 0 none, .dispatch 0 none, .wait,
      .processEvent (orderOfBTC 2) none, .dispatch 0 none, .wait]
    (P := fun s => s.pipeline.processorOffsets "db" "BTC/USDT" = 2 ∧ orderOfBTC 1 ∈ s.logged)
    (by decide +kernel) fun s hreach ⟨hoffset, hlogged⟩ => ?_
  refine ⟨hoffset, hlogged, (offset_covers_log Encoding.value ["db"] s hreach).1 "db" _ hlogged ?_⟩
  change 1 ≤ s.pipeline.processorOffsets "db" "BTC/USDT"
  omega

/-- The database fails on number 1 and succeeds on number 2; the replay skips number 1. -/
theorem failed_event_skipped_by_replay :
    ∃ s s', Run.Reaches (step Encoding.value ["db"]) Ascending newReplayState s ∧
      orderOfBTC 1 ∈ s.logged ∧ s.pipeline.processorOffsets "db" "BTC/USDT" = 2 ∧
      ¬ s.ProcessedBy ["db"] "db" (orderOfBTC 1) ∧
      s.todo.map Prod.fst = [orderOfBTC 1, orderOfBTC 2] ∧
      s.step Encoding.value ["db"] (.dispatch 0 none) = some s' ∧
      s'.pipeline.given = s.pipeline.given := by
  exact Run.exists_reaches_step
    [.processEvent (orderOfBTC 1) none, .dispatch 0 (some "timeout"), .wait,
      .processEvent (orderOfBTC 2) none, .dispatch 0 none, .wait,
      .processEventsFromLog "BTC/USDT" 0 0 none] (.dispatch 0 none)
    (P := fun s s' => orderOfBTC 1 ∈ s.logged ∧ s.pipeline.processorOffsets "db" "BTC/USDT" = 2 ∧
      ¬ s.ProcessedBy ["db"] "db" (orderOfBTC 1) ∧
      s.todo.map Prod.fst = [orderOfBTC 1, orderOfBTC 2] ∧
      s'.pipeline.given = s.pipeline.given) (by decide +kernel)
    fun _ _ _ hstep ⟨hlogged, hoffset, hopen, htodo, hgiven⟩ =>
      ⟨hlogged, hoffset, hopen, htodo, hstep, hgiven⟩

end CexHertz
