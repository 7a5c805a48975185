import CexHertz.Service.EngineMoves

/-!
# Delivery of events to the processors

A number is drawn before its event is dispatched, so two threads may dispatch in the other order;
the later dispatch then looks like a duplicate. Every processor is given every logged event exactly
once if and only if the dispatches come in the order of the numbers.
-/

namespace CexHertz

open List Thread EventPipeline

variable {buyBefore sellBefore : Int → Int → Prop} [DecidableRel buyBefore]
  [DecidableRel sellBefore] {C : Containers buyBefore sellBefore} {cfg : EngineConfig}
variable {th th' : Thread C} {sh sh' : Shared C} {input : StepInput} {call call' : Publish}
  {started : List (Thread C)}

def NoErrors (_ : EngineState C) : EngineAction → Prop
  | .submitOrder _ => True
  | .advance _ input => input.err = none

/-- No call is under way: every `SubmitOrder` has returned and every worker waits. -/
def Thread.atRest : Thread C → Bool
  | .submit _ (.returned _) => true
  | .worker _ .idle => true
  | _ => false

def Quiescent (s : EngineState C) : Prop := ∀ th ∈ s.threads, th.atRest = true

def DeliveredOnce (cfg : EngineConfig) (s : EngineState C) : Prop :=
  ∀ i < cfg.processors.length, (eventsAt i s.shared.pipeline.given).Perm s.shared.log

/-! ## What a step does to log and pipeline -/

def Thread.publishing : Thread C → Option Publish
  | .submit _ (.publish call) => some call
  | .worker _ (.publish call _) => some call
  | _ => none

def Publish.outstanding (i : Nat) : Publish → List MatchingEngineEvent
  | .dispatch event pending _ => if i ∈ pending then [event] else []
  | _ => []

def Thread.outstanding (i : Nat) (th : Thread C) : List MatchingEngineEvent :=
  (th.publishing.map (Publish.outstanding i)).getD []

def Publish.PendingOk (n : Nat) : Publish → Prop
  | .dispatch _ pending _ => pending.Nodup ∧ ∀ i ∈ pending, i < n
  | _ => True

def Thread.PendingOk (n : Nat) (th : Thread C) : Prop :=
  ∀ call, th.publishing = some call → call.PendingOk n

def Publish.dispatching : Publish → Bool
  | .dispatch _ _ _ => true
  | _ => false

def Thread.dispatching (th : Thread C) : Bool := th.publishing.any Publish.dispatching

theorem Thread.outstanding_eq_nil (h : th.dispatching = false) (i : Nat) :
    th.outstanding i = [] := by
  unfold dispatching at h
  unfold outstanding
  cases hp : th.publishing with
  | none => rfl
  | some call =>
    rw [hp] at h
    cases call with
    | dispatch event pending err => cases h
    | append | finished => rfl

theorem Thread.pendingOk_of_not_dispatching (h : th.dispatching = false) (n : Nat) :
    th.PendingOk n := by
  intro call hp
  rw [dispatching, hp] at h
  cases call with
  | dispatch event pending err => cases h
  | append | finished => trivial

-- The three things a `ProcessEvent` call does when nothing fails.
theorem Publish.step_cases (herr : input.err = none)
    (h : call.step cfg sh input = some (sh', call')) :
    (∃ event, call = .append event ∧ sh'.log = sh.log ++ [event] ∧ sh'.pipeline = sh.pipeline ∧
      call' = .dispatch event (List.range cfg.processors.length) none) ∨
    (∃ event err, call = .dispatch event [] err ∧ sh' = sh ∧ call' = .finished err) ∨
    (∃ event pending err err' i, call = .dispatch event pending err ∧ i ∈ pending ∧
      sh'.log = sh.log ∧ sh'.pipeline = sh.pipeline.dispatch i (cfg.nameOf i) event none ∧
      call' = .dispatch event (pending.erase i) err') := by
  cases call with
  | append event =>
    simp only [Publish.step, herr, Option.some.injEq, Prod.mk.injEq] at h
    obtain ⟨rfl, rfl⟩ := h
    refine .inl ⟨event, rfl, ?_, ?_, rfl⟩
    · split <;> rfl
    · split <;> rfl
  | dispatch event pending err =>
    rw [Publish.step] at h
    split at h
    next hnil =>
      subst hnil
      cases h
      exact .inr (.inl ⟨event, err, rfl, rfl, rfl⟩)
    next =>
      split at h
      next hmem =>
        cases h
        refine .inr (.inr ⟨event, pending, err, _, input.processor, rfl, hmem, rfl, ?_, rfl⟩)
        rw [herr]
      next => cases h
  | finished err => cases h

/-- What a step does to log and pipeline: it is a step of the thread's `ProcessEvent` call, or it
touches neither. -/
def PublishesOrQuiet (cfg : EngineConfig) (sh : Shared C) (input : StepInput) (th : Thread C)
    (sh' : Shared C) (th' : Thread C) : Prop :=
  (∃ call call', th.publishing = some call ∧ th'.publishing = some call' ∧
    call.step cfg sh input = some (sh', call')) ∨
  (sh'.log = sh.log ∧ sh'.pipeline = sh.pipeline ∧ th.dispatching = false ∧ th'.dispatching = false)

theorem enqueueOrder_log (sh : Shared C) (order : SubmitOrderMsg) :
    (enqueueOrder sh order).1.log = sh.log ∧
    (enqueueOrder sh order).1.pipeline = sh.pipeline := by
  unfold enqueueOrder
  dsimp only
  split <;> exact ⟨rfl, rfl⟩

theorem nextTrade_not_dispatching (symbol : String) (trades : List TradeExecutedEvent) :
    (worker symbol (nextTrade trades : WorkerPhase C)).dispatching = false := by
  cases trades with
  | nil | cons => rfl

-- Log and pipeline are touched inside `ProcessEvent` calls only.
theorem ThreadMove.publishesOrQuiet (h : ThreadMove cfg sh input th sh' th' started) :
    PublishesOrQuiet cfg sh input th sh' th' := by
  cases h with
  | submitPublish order hcall | workerPublish symbol rest hcall =>
    exact .inl ⟨_, _, rfl, rfl, hcall⟩
  | enqueue order =>
    obtain ⟨hlog, hpipeline⟩ := enqueueOrder_log sh order
    exact .inr ⟨hlog, hpipeline, rfl, rfl⟩
  | buyTurn _ hturn | sellTurn _ hturn =>
    obtain ⟨hlog, hpipeline⟩ := matchTurn_log hturn
    exact .inr ⟨hlog, hpipeline, rfl, rfl⟩
  | buyDone | sellDone | published => exact .inr ⟨rfl, rfl, rfl, nextTrade_not_dispatching _ _⟩
  | _ => exact .inr ⟨rfl, rfl, rfl, rfl⟩

theorem ThreadMove.started_not_dispatching (h : ThreadMove cfg sh input th sh' th' started) :
    ∀ t ∈ started, t.dispatching = false := by
  intro t ht
  obtain ⟨symbol, rfl⟩ := h.started_idle t ht
  rfl

/-! ## Every logged event is dispatched once to every processor -/

structure Delivering (cfg : EngineConfig) (s : EngineState C) : Prop where
  replay : s.shared.pipeline = dispatchAll cfg.nameOf s.shared.pipeline.dispatched
  pending : ∀ th ∈ s.threads, th.PendingOk cfg.processors.length
  bound : ∀ d ∈ s.shared.pipeline.dispatched, d.1 < cfg.processors.length
  balance : ∀ i < cfg.processors.length, s.shared.log.Perm
    (eventsAt i s.shared.pipeline.dispatched ++ s.threads.flatMap (outstanding i))

theorem eventsAt_append (i : Nat) (ds : List Dispatch) (d : Dispatch) :
    eventsAt i (ds ++ [d]) = eventsAt i ds ++ if d.1 = i then [d.2] else [] := by
  unfold eventsAt
  rw [filter_append, map_append]
  congr 1
  split
  next h => simp [h]
  next h => simp [h]

theorem flatMap_outstanding_eq_nil {threads : List (Thread C)} {i : Nat}
    (h : ∀ t ∈ threads, t.dispatching = false) : threads.flatMap (outstanding i) = [] := by
  rw [flatMap_eq_nil_iff]
  exact fun t ht => outstanding_eq_nil (h t ht) i

theorem Publish.PendingOk.step (herr : input.err = none)
    (hok : call.PendingOk cfg.processors.length) (h : call.step cfg sh input = some (sh', call')) :
    call'.PendingOk cfg.processors.length := by
  rcases Publish.step_cases herr h with ⟨e, -, -, -, rfl⟩ | ⟨e, err, -, -, rfl⟩ |
    ⟨e, pending, err, err', i, rfl, -, -, -, rfl⟩
  · exact ⟨nodup_range, fun i hi => List.mem_range.mp hi⟩
  · trivial
  · exact ⟨hok.1.erase i, fun j hj => hok.2 j (mem_of_mem_erase hj)⟩

/-- One step of a `ProcessEvent` call moves an event from the call to the log, or from the call to
the dispatches. -/
theorem Publish.balance_step (herr : input.err = none) (hok : call.PendingOk cfg.processors.length)
    (h : call.step cfg sh input = some (sh', call')) {others : List MatchingEngineEvent} {j : Nat}
    (hj : j < cfg.processors.length)
    (hbalance : sh.log.Perm (eventsAt j sh.pipeline.dispatched ++ (call.outstanding j ++ others))) :
    sh'.log.Perm (eventsAt j sh'.pipeline.dispatched ++ (call'.outstanding j ++ others)) := by
  rcases Publish.step_cases herr h with ⟨e, rfl, hlog, hpipe, rfl⟩ | ⟨e, err, rfl, rfl, rfl⟩ |
    ⟨e, pending, err, err', i, rfl, hmem, hlog, hpipe, rfl⟩
  · have hout : Publish.outstanding j (.dispatch e (List.range cfg.processors.length) none) = [e] :=
      if_pos (List.mem_range.mpr hj)
    rw [hlog, hpipe, hout]
    refine (hbalance.append_right [e]).trans ?_
    rw [append_assoc]
    exact List.Perm.append_left _ perm_append_comm
  · exact hbalance
  · rw [hlog, hpipe, dispatch_dispatched, eventsAt_append]
    simp only [Publish.outstanding] at hbalance ⊢
    by_cases hij : i = j
    · subst hij
      rw [if_pos rfl, if_neg (hok.1.not_mem_erase), nil_append, append_assoc]
      rwa [if_pos hmem] at hbalance
    · rw [if_neg hij, append_nil]
      have hiff : j ∈ pending.erase i ↔ j ∈ pending := mem_erase_of_ne (Ne.symm hij)
      rwa [if_congr hiff rfl rfl]

-- One more dispatch, on both sides of the equation.
theorem dispatchAll_dispatch {ep ep' : EventPipeline} {i : Nat} {event : MatchingEngineEvent}
    {nameOf : Nat → String} (h : ep = dispatchAll nameOf ep.dispatched)
    (h' : ep' = ep.dispatch i (nameOf i) event none) :
    ep' = dispatchAll nameOf ep'.dispatched := by
  rw [h', dispatch_dispatched, dispatchAll_append, ← h]

def Replayed (cfg : EngineConfig) (ep : EventPipeline) : Prop :=
  ep = dispatchAll cfg.nameOf ep.dispatched ∧
  ∀ d ∈ ep.dispatched, d.1 < cfg.processors.length

theorem Publish.replayed_step (herr : input.err = none) (hok : call.PendingOk cfg.processors.length)
    (h : call.step cfg sh input = some (sh', call')) (hreplayed : Replayed cfg sh.pipeline) :
    Replayed cfg sh'.pipeline := by
  rcases Publish.step_cases herr h with ⟨e, -, -, hpipe, -⟩ | ⟨e, err, -, rfl, -⟩ |
    ⟨e, pending, err, err', i, rfl, hmem, -, hpipe, -⟩
  · rwa [hpipe]
  · exact hreplayed
  · refine ⟨dispatchAll_dispatch hreplayed.1 hpipe, ?_⟩
    rw [hpipe, dispatch_dispatched, forall_mem_append, forall_mem_singleton]
    exact ⟨hreplayed.2, hok.2 i hmem⟩

theorem Thread.outstanding_of_publishing (h : th.publishing = some call) (i : Nat) :
    th.outstanding i = call.outstanding i := by
  rw [outstanding, h]
  rfl

theorem Thread.pendingOk_of_publishing {n : Nat} (h : th.publishing = some call)
    (hok : call.PendingOk n) : th.PendingOk n := by
  intro c hc
  rw [h] at hc
  cases hc
  exact hok

theorem Delivering.move {s : EngineState C} (h : Delivering cfg s) {k : Nat}
    (herr : input.err = none) (hk : s.threads[k]? = some th)
    (hmove : ThreadMove cfg s.shared input th sh th' started) :
    Delivering cfg ⟨sh, s.threads.set k th' ++ started⟩ := by
  have hstarted := hmove.started_not_dispatching
  have hpending : th'.PendingOk cfg.processors.length → ∀ t ∈ s.threads.set k th' ++ started,
      t.PendingOk cfg.processors.length := fun hth' =>
    Run.forall_mem_set_append k h.pending hth' fun t ht =>
      pendingOk_of_not_dispatching (hstarted t ht) _
  rcases hmove.publishesOrQuiet with ⟨call, call', hcall, hcall', hpub⟩ |
    ⟨hlog, hpipe, hquiet, hquiet'⟩
  · have hok := h.pending th (List.mem_of_getElem? hk) call hcall
    obtain ⟨hreplay, hbound⟩ := Publish.replayed_step herr hok hpub ⟨h.replay, h.bound⟩
    refine ⟨hreplay, hpending (pendingOk_of_publishing hcall' (hok.step herr hpub)), hbound,
      fun i hi => ?_⟩
    -- the event moves between the call, the log and the dispatches
    obtain ⟨others, hbefore, hafter⟩ := Run.exists_others (f := outstanding i) hk
      (flatMap_outstanding_eq_nil hstarted)
    rw [outstanding_of_publishing hcall] at hbefore
    have hbalance := (h.balance i hi).trans (hbefore.append_left _)
    refine (Publish.balance_step herr hok hpub hi hbalance).trans ?_
    rw [← outstanding_of_publishing hcall']
    exact ((hafter th').append_left _).symm
  · refine ⟨by rw [hpipe]; exact h.replay, hpending (pendingOk_of_not_dispatching hquiet' _),
      by rw [hpipe]; exact h.bound, fun i hi => ?_⟩
    -- neither the log nor any outstanding event changes
    obtain ⟨others, hbefore, hafter⟩ := Run.exists_others (f := outstanding i) hk
      (flatMap_outstanding_eq_nil hstarted)
    have hsame : (s.threads.flatMap (outstanding i)).Perm
        ((s.threads.set k th' ++ started).flatMap (outstanding i)) := by
      refine hbefore.trans ((hafter th').trans ?_).symm
      rw [outstanding_eq_nil hquiet, outstanding_eq_nil hquiet']
    rw [hlog, hpipe]
    exact (h.balance i hi).trans (hsame.append_left _)

theorem submitOrder_not_dispatching (order : SubmitOrderMsg) :
    (submitOrder order : Thread C).dispatching = false :=
  submitOrder_cases order (fun _ => rfl) (fun _ _ => rfl) fun _ _ => rfl

theorem Delivering.step {s s' : EngineState C} {action : EngineAction} (h : Delivering cfg s)
    (herr : NoErrors s action) (hstep : s.step cfg action = some s') : Delivering cfg s' := by
  rcases EngineState.step_cases hstep with ⟨order, rfl, rfl⟩ |
    ⟨k, input, th, sh, th', started, rfl, hk, hmove, rfl⟩
  · refine ⟨h.replay, ?_, h.bound, fun i hi => ?_⟩
    · exact Run.forall_mem_concat h.pending
        (pendingOk_of_not_dispatching (submitOrder_not_dispatching order) _)
    · rw [flatMap_append, flatMap_singleton,
        outstanding_eq_nil (submitOrder_not_dispatching order), append_nil]
      exact h.balance i hi
  · exact h.move herr hk hmove

theorem delivering_new (sequencer : Sequencer) : Delivering cfg (newMatchEngine C sequencer) :=
  ⟨rfl, fun _ h => absurd h not_mem_nil, fun _ h => absurd h not_mem_nil, fun _ _ => .refl _⟩

theorem Thread.not_dispatching_of_atRest (h : th.atRest = true) : th.dispatching = false := by
  cases th with
  | submit order phase =>
    cases phase with
    | returned err => rfl
    | _ => cases h
  | worker symbol phase =>
    cases phase with
    | idle => rfl
    | _ => cases h

/-- In every run without errors, once all calls have returned: every processor has been given every
logged event exactly once if and only if, under every processor name and for every symbol, the
dispatches came in increasing order of the sequence numbers. -/
theorem delivered_once_iff_in_order (cfg : EngineConfig) (sequencer : Sequencer) (s : EngineState C)
    (hrun : Run.Reaches (EngineState.step cfg) NoErrors (newMatchEngine C sequencer) s)
    (hquiet : Quiescent s) :
    DeliveredOnce cfg s ↔ InOrder cfg.nameOf s.shared.pipeline.dispatched := by
  have h : Delivering cfg s := hrun.invariant (delivering_new sequencer)
    fun _ _ _ hs herr hstep => hs.step herr hstep
  have hall : ∀ i < cfg.processors.length,
      s.shared.log.Perm (eventsAt i s.shared.pipeline.dispatched) := by
    intro i hi
    have hbalance := h.balance i hi
    rwa [flatMap_outstanding_eq_nil fun t ht => not_dispatching_of_atRest (hquiet t ht),
      append_nil] at hbalance
  -- what was given is what was dispatched, less the skipped
  have hsub : s.shared.pipeline.given.Sublist s.shared.pipeline.dispatched := by
    rw [h.replay, dispatchAll_dispatched]
    exact dispatchAll_given_sublist _
  have hgiven : s.shared.pipeline.given = s.shared.pipeline.dispatched ↔
      InOrder cfg.nameOf s.shared.pipeline.dispatched := by
    rw [← dispatchAll_given_eq_iff, ← h.replay]
  rw [← hgiven]
  constructor
  · intro hdelivered
    exact given_eq_of_perm hsub h.bound fun i hi => (hdelivered i hi).trans (hall i hi)
  · intro heq i hi
    rw [heq]
    exact (hall i hi).symm

/-! ## Two interleavings -/

instance (s : EngineState C) (action : EngineAction) : Decidable (NoErrors s action) :=
  match action with
  | .submitOrder _ => inferInstanceAs (Decidable True)
  | .advance _ _ => inferInstanceAs (Decidable (_ = _))

instance (s : EngineState C) : Decidable (Quiescent s) := inferInstanceAs (Decidable (∀ _ ∈ _, _))

def oneProcessor : EngineConfig := ⟨.amd64, ["DatabaseProcessor"], false⟩

def advanceBy (k n : Nat) : List EngineAction := List.replicate n (.advance k ⟨0, none, 0⟩)

def oneSubmission : List EngineAction :=
  .submitOrder ⟨"a", "BTC", "sell", "1", "1", "u1"⟩ :: advanceBy 0 6 ++ advanceBy 1 3

/-- While the third order has drawn its number and not yet published its event, the worker matches
the second order, draws the next number for the trade and publishes that. -/
def overtaken : List EngineAction :=
  oneSubmission ++
  .submitOrder ⟨"b", "BTC", "buy", "1", "1", "u2"⟩ :: advanceBy 2 6 ++ advanceBy 1 2 ++
  .submitOrder ⟨"c", "BTC", "buy", "1", "1", "u3"⟩ :: advanceBy 3 1 ++
  advanceBy 1 6 ++ advanceBy 3 5

/-- Two orders and their trade, one after the other. -/
theorem matched_in_turn_delivered : ∃ s, Run.Reaches (EngineState.step oneProcessor) NoErrors
        (newMatchEngine sortedContainers newSequencer) s ∧
      (s.shared.log.map fun e => match e with
        | .tradeExecuted _ => true
        | _ => false) = [false, false, true] ∧ DeliveredOnce oneProcessor s := by
  refine Run.exists_reaches (oneSubmission ++
    .submitOrder ⟨"b", "BTC", "buy", "1", "1", "u2"⟩ :: advanceBy 2 6 ++ advanceBy 1 8)
    (P := fun s => Quiescent s ∧ (0 :: s.shared.pipeline.dispatched.map fun d =>
      d.2.eventSeq).Pairwise (· < ·) ∧ (s.shared.log.map fun e => match e with
        | .tradeExecuted _ => true
        | _ => false) = [false, false, true]) (by decide +kernel)
    fun s hs ⟨hquiet, hseqs, htrade⟩ => ⟨htrade, ?_⟩
  exact (delivered_once_iff_in_order oneProcessor newSequencer s hs hquiet).mpr
    (inOrder_of_pairwise hseqs)

/-- The overtaken event is never given to the processor. -/
theorem overtaken_not_delivered : ∃ s, Run.Reaches (EngineState.step oneProcessor) NoErrors
        (newMatchEngine sortedContainers newSequencer) s ∧
      Quiescent s ∧ ¬ DeliveredOnce oneProcessor s := by
  exact Run.exists_reaches overtaken
    (P := fun s => Quiescent s ∧
      (eventsAt 0 s.shared.pipeline.given).length ≠ s.shared.log.length) (by decide +kernel)
    fun s _ ⟨hquiet, hne⟩ => ⟨hquiet, fun h => hne (h 0 (by decide)).length_eq⟩

end CexHertz
