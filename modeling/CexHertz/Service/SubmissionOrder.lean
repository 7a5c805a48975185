import CexHertz.Lib.Tickets
import CexHertz.Service.Delivery
import CexHertz.Service.EngineInvariant
import CexHertz.Service.WatchedEngine

/-!
# The way of a submission

A `SubmitOrder` call draws a number, appends its event to the log and queues the order, in three
steps. Seen from outside these are tickets, so what keeps the queues of tickets in order keeps the
order queues in the order of the recorded numbers.
-/

namespace CexHertz

open Function List OrderSubmittedEvent Thread Publish Option

variable {buyBefore sellBefore : Int → Int → Prop} [DecidableRel buyBefore]
  [DecidableRel sellBefore] {C : Containers buyBefore sellBefore} {cfg : EngineConfig}
  {sh sh' : Shared C} {input : StepInput} {th th' : Thread C} {started : List (Thread C)}

/-! ## What is watched -/

/-- The event of each `SubmitOrder` call, by thread; for every symbol the orders that wait for their
match, with their events; and the events of the orders that were handed to the book. -/
structure Submissions where
  drawn : Nat → Option OrderSubmittedEvent
  queued : String → List (SubmitOrderMsg × OrderSubmittedEvent)
  handed : String → List OrderSubmittedEvent

namespace Submissions

/-- `enqueueOrder`; the order's event is the one its call has drawn. -/
def enqueue (q : Submissions) (order : SubmitOrderMsg) (e : Option OrderSubmittedEvent) :
    Submissions :=
  { q with
    queued := update q.queued order.symbol
      (q.queued order.symbol ++ e.toList.map fun e => (order, e)) }

def hand (q : Submissions) (symbol : String) : Submissions :=
  { q with
    queued := update q.queued symbol (q.queued symbol).tail
    handed := update q.handed symbol
      (q.handed symbol ++ ((q.queued symbol).head?.map Prod.snd).toList) }

def watch (q : Submissions) (_ _ : Shared C) (k : Nat) : Thread C → Thread C → Submissions
  | .submit _ .drawSeq, .submit _ (.publish (.append (.orderSubmitted e))) =>
    { q with drawn := update q.drawn k (some e) }
  | .submit order .enqueue, _ => q.enqueue order (q.drawn k)
  | .worker symbol (.took _), _ => q.hand symbol
  | _, _ => q

def enqueued (q : Submissions) (symbol : String) : List OrderSubmittedEvent :=
  q.handed symbol ++ (q.queued symbol).map Prod.snd

theorem enqueued_hand (q : Submissions) (symbol : String) :
    (q.hand symbol).enqueued = q.enqueued := by
  funext symbol'
  unfold enqueued hand
  dsimp only
  rcases eq_or_ne symbol' symbol with rfl | hne
  · rw [update_self, update_self]
    cases q.queued symbol' with
    | nil => rw [List.head?_nil, map_none, toList_none, append_nil]; rfl
    | cons p rest =>
      rw [List.head?_cons, map_some, toList_some, tail_cons, map_cons, append_assoc]
      rfl
  · rw [update_of_ne hne, update_of_ne hne]

theorem enqueued_enqueue (q : Submissions) (order : SubmitOrderMsg) (e : OrderSubmittedEvent) :
    (q.enqueue order (some e)).enqueued =
      update q.enqueued order.symbol (q.enqueued order.symbol ++ [e]) := by
  funext symbol
  unfold enqueued enqueue
  dsimp only
  rcases eq_or_ne symbol order.symbol with rfl | hne
  · rw [update_self, update_self, map_append, append_assoc]
    rfl
  · rw [update_of_ne hne, update_of_ne hne]

end Submissions

open Submissions

def newSubmissions (C : Containers buyBefore sellBefore) (sequencer : Sequencer) :
    Watched C Submissions where
  engine := newMatchEngine C sequencer
  seen := ⟨fun _ => none, fun _ => [], fun _ => []⟩

/-! ## Submissions as tickets -/

def MatchingEngineEvent.submission? : MatchingEngineEvent → Option OrderSubmittedEvent
  | .orderSubmitted e => some e
  | _ => none

def loggedSubmissions (log : List MatchingEngineEvent) : List OrderSubmittedEvent :=
  log.filterMap MatchingEngineEvent.submission?

def Thread.onItsWay : Thread C → Option Bool
  | .submit _ (.publish (.append _)) => some false
  | .submit _ (.publish (.dispatch _ _ _)) => some true
  | .submit _ (.publish (.finished none)) => some true
  | .submit _ .enqueue => some true
  | _ => none

variable {s s' : Watched C Submissions} {action : EngineAction}

def wayOf (s : Watched C Submissions) (k : Nat) : Option (OrderSubmittedEvent × Bool) :=
  (s.engine.threads[k]?.bind onItsWay).bind fun b => (s.seen.drawn k).map fun e => (e, b)

def Sequencer.last (seq : Sequencer) : Nat := seq.nodeID * 2 ^ 40 + seq.localSeq

def ticketsOf (s : Watched C Submissions) : Tickets.State Nat String OrderSubmittedEvent where
  way := wayOf s
  record := loggedSubmissions s.engine.shared.log
  queue := s.seen.enqueued
  last := s.engine.shared.sequencer.last

def MadeFrom (cfg : EngineConfig) (order : SubmitOrderMsg) (e : OrderSubmittedEvent) : Prop :=
  ∃ seq now, e = submittedEvent cfg order seq now

/-- Calls publish the event they have drawn, and no processor has failed on it; workers publish
nothing of the kind. -/
def Thread.Submits (cfg : EngineConfig) (drawn : Option OrderSubmittedEvent) : Thread C → Prop
  | .submit order (.publish (.append event)) =>
    ∃ e, event = .orderSubmitted e ∧ drawn = some e ∧ MadeFrom cfg order e
  | .submit order (.publish (.dispatch _ _ err)) =>
    err = none ∧ ∃ e, drawn = some e ∧ MadeFrom cfg order e
  | .submit order (.publish (.finished none)) => ∃ e, drawn = some e ∧ MadeFrom cfg order e
  | .submit order .enqueue => ∃ e, drawn = some e ∧ MadeFrom cfg order e
  | .worker _ (.publish (.append event) _) => event.submission? = none
  | _ => True

def Thread.dispatchesSubmission : Thread C → Bool
  | .submit _ (.publish (.dispatch _ _ _)) => true
  | _ => false

def enqueuing (s : Watched C Submissions) (k : Nat) : Option OrderSubmittedEvent :=
  match s.engine.threads[k]? with
  | some (.submit _ .enqueue) => s.seen.drawn k
  | _ => none

/-- A call queues its order only when no call on the symbol with a smaller number is on its way; no
processor fails on a submission; and the counter stays within its forty bits. -/
def InTurn (s : Watched C Submissions) : EngineAction → Prop
  | .submitOrder _ => True
  | .advance k input => s.engine.shared.sequencer.localSeq + 1 < 2 ^ 40 ∧
      (s.engine.threads[k]?.any dispatchesSubmission = true → input.err = none) ∧
      ∀ e ∈ enqueuing s k, ∀ j < s.engine.threads.length, ∀ u ∈ wayOf s j,
        u.1.symbolStr = e.symbolStr → e.seq ≤ u.1.seq

/-! ## One move -/

theorem Sequencer.last_next {seq : Sequencer} (h : seq.localSeq + 1 < 2 ^ 40) :
    seq.nextGlobalSeq.1 = seq.last + 1 ∧ seq.nextGlobalSeq.2.last = seq.last + 1 := by
  rw [nextGlobalSeq_of_lt h]
  unfold Sequencer.last
  rw [globalSeq_of_lt _ h, Nat.add_assoc]
  exact ⟨rfl, rfl⟩

theorem Publish.step_sequencer {call call' : Publish}
    (h : call.step cfg sh input = some (sh', call')) :
    sh'.sequencer = sh.sequencer ∨ sh'.sequencer = sh.sequencer.nextGlobalSeq.2 := by
  cases call with
  | append event =>
    rw [step] at h
    split at h
    · cases h
      split
      · exact .inr rfl
      · exact .inl rfl
    · cases h
      split
      · exact .inr rfl
      · exact .inl rfl
  | dispatch event pending err =>
    rw [step] at h
    split at h
    · cases h
      exact .inl rfl
    · split at h
      · cases h
        exact .inl rfl
      · cases h
  | finished err => cases h

theorem enqueueOrder_sequencer (sh : Shared C) (order : SubmitOrderMsg) :
    (enqueueOrder sh order).1.sequencer = sh.sequencer := by
  unfold enqueueOrder
  dsimp only
  split <;> rfl

theorem ThreadMove.sequencer (h : ThreadMove cfg sh input th sh' th' started) :
    sh'.sequencer = sh.sequencer ∨ sh'.sequencer = sh.sequencer.nextGlobalSeq.2 := by
  cases h with
  | drawOrderID | drawSeq => exact .inr rfl
  | submitPublish order hcall | workerPublish symbol rest hcall =>
    exact step_sequencer hcall
  | enqueue order => exact .inl (enqueueOrder_sequencer sh order)
  | beginBuy | beginSell => exact .inr rfl
  | buyTurn hob hturn | sellTurn hob hturn =>
    have hdraw := matchTurn_sequencer hturn
    exact hdraw
  | _ => exact .inl rfl

theorem ThreadMove.last_le (h : ThreadMove cfg sh input th sh' th' started)
    (hbits : sh.sequencer.localSeq + 1 < 2 ^ 40) : sh.sequencer.last ≤ sh'.sequencer.last := by
  rcases h.sequencer with heq | heq
  · rw [heq]
  · rw [heq, (Sequencer.last_next hbits).2]
    exact Nat.le_succ _

theorem loggedSubmissions_append (log : List MatchingEngineEvent) (event : MatchingEngineEvent) :
    loggedSubmissions (log ++ [event]) = loggedSubmissions log ++ event.submission?.toList := by
  unfold loggedSubmissions
  rw [filterMap_append, filterMap_cons, filterMap_nil]
  cases event.submission? with
  | none | some => rfl

theorem nextTrade_onItsWay (symbol : String) (trades : List TradeExecutedEvent) :
    (worker symbol (nextTrade trades : WorkerPhase C)).onItsWay = none := by
  cases trades with
  | nil | cons => rfl

theorem nextTrade_submits (symbol : String) (trades : List TradeExecutedEvent)
    (drawn : Option OrderSubmittedEvent) :
    (worker symbol (nextTrade trades : WorkerPhase C)).Submits cfg drawn := by
  cases trades with
  | nil => trivial
  | cons trade rest => exact rfl

theorem ThreadMove.submits {q : Submissions} {k : Nat}
    (h : ThreadMove cfg sh input th sh' th' started) (hsub : th.Submits cfg (q.drawn k))
    (herr : th.dispatchesSubmission = true → input.err = none) :
    th'.Submits cfg ((q.watch sh sh' k th th').drawn k) := by
  cases h with
  | drawSeq order =>
    refine ⟨_, rfl, ?_, _, _, rfl⟩
    exact update_self _ _ _
  | submitPublish order hcall =>
    rcases step_log hcall with ⟨event, pending, rfl, -, -, rfl⟩ |
      ⟨event, err, rfl, -, -, rfl⟩ | ⟨event, pending, err, rfl, -, rfl | ⟨_, _, hfailed, rfl⟩⟩
    · obtain ⟨e, -, hdrawn, hmade⟩ := hsub
      exact ⟨rfl, e, hdrawn, hmade⟩
    · trivial
    · obtain ⟨rfl, hsub⟩ := hsub
      exact hsub
    · obtain ⟨rfl, hsub⟩ := hsub
      exact ⟨by rw [hfailed (herr rfl)]; rfl, hsub⟩
  | accepted order => exact hsub
  | workerPublish symbol rest hcall =>
    rcases step_log hcall with ⟨event, pending, rfl, -, -, rfl⟩ |
      ⟨event, err, rfl, -, -, rfl⟩ | ⟨event, pending, err, rfl, -, rfl | ⟨_, _, -, rfl⟩⟩
    · trivial
    · trivial
    · trivial
    · trivial
  | buyDone | sellDone | published => exact nextTrade_submits _ _ _
  | _ => trivial

-- The others have drawn what they had drawn.
theorem Submissions.watch_drawn (q : Submissions) {j k : Nat} (hne : j ≠ k) :
    (q.watch sh sh' k th th').drawn j = q.drawn j := by
  unfold watch
  split
  · exact update_of_ne hne _ _
  · rfl
  · rfl
  · rfl

theorem ThreadMove.started_not_onItsWay (h : ThreadMove cfg sh input th sh' th' started) :
    ∀ t ∈ started, t.onItsWay = none := by
  intro t ht
  obtain ⟨symbol, rfl⟩ := h.started_idle t ht
  rfl

theorem wayOf_advance {k : Nat} {q : Submissions} (hk : s.engine.threads[k]? = some th)
    (hdrawn : ∀ j, j ≠ k → q.drawn j = s.seen.drawn j)
    (hstarted : ∀ t ∈ started, t.onItsWay = none) :
    wayOf ⟨⟨sh, s.engine.threads.set k th' ++ started⟩, q⟩ =
      update (wayOf s) k (th'.onItsWay.bind fun b => (q.drawn k).map fun e => (e, b)) := by
  funext j
  rcases eq_or_ne j k with rfl | hne
  · rw [update_self, wayOf]
    rw [Run.getElem?_set_append hk, bind_some]
  · rw [update_of_ne hne, wayOf, wayOf]
    rw [hdrawn j hne, List.getElem?_append, List.getElem?_set_ne hne.symm]
    split
    · rfl
    next hlt =>
      rw [length_set] at hlt
      have hnone : s.engine.threads[j]? = none := List.getElem?_eq_none (by omega)
      rw [hnone]
      cases hj : started[j - (s.engine.threads.set k th').length]? with
      | none => rfl
      | some t => rw [bind_some, hstarted t (mem_of_getElem? hj)]; rfl

theorem lt_length_of_wayOf {j : Nat} {u : OrderSubmittedEvent × Bool} (h : wayOf s j = some u) :
    j < s.engine.threads.length := by
  by_contra hge
  have hnone : s.engine.threads[j]? = none := List.getElem?_eq_none (by omega)
  rw [wayOf, hnone] at h
  cases h

theorem wayOf_of_thread {k : Nat} (hk : s.engine.threads[k]? = some th) :
    wayOf s k = th.onItsWay.bind fun b => (s.seen.drawn k).map fun e => (e, b) := by
  rw [wayOf, hk, bind_some]

theorem tickets_tick {k : Nat} {q : Submissions} (hk : s.engine.threads[k]? = some th)
    (hway : th'.onItsWay = th.onItsWay) (hdrawn : q.drawn = s.seen.drawn)
    (hlog : loggedSubmissions sh.log = loggedSubmissions s.engine.shared.log)
    (hqueue : q.enqueued = s.seen.enqueued)
    (hlast : s.engine.shared.sequencer.last ≤ sh.sequencer.last)
    (hstarted : ∀ t ∈ started, t.onItsWay = none) :
    Tickets.Step seq symbolStr (ticketsOf s)
      (ticketsOf ⟨⟨sh, s.engine.threads.set k th' ++ started⟩, q⟩) := by
  have hsame : wayOf ⟨⟨sh, s.engine.threads.set k th' ++ started⟩, q⟩ = wayOf s := by
    rw [wayOf_advance hk (fun j _ => by rw [hdrawn]) hstarted, hway, hdrawn, ← wayOf_of_thread hk,
      update_eq_self]
  unfold ticketsOf
  rw [hsame, hlog, hqueue]
  exact .tick _ hlast

theorem ticketsOf_advance {k : Nat} {q : Submissions} (th' : Thread C)
    (new : Option (OrderSubmittedEvent × Bool)) (hk : s.engine.threads[k]? = some th)
    (hdrawn : ∀ j, j ≠ k → q.drawn j = s.seen.drawn j)
    (hstarted : ∀ t ∈ started, t.onItsWay = none)
    (hnew : (th'.onItsWay.bind fun b => (q.drawn k).map fun e => (e, b)) = new) :
    ticketsOf ⟨⟨sh, s.engine.threads.set k th' ++ started⟩, q⟩ =
      { way := update (wayOf s) k new
        record := loggedSubmissions sh.log
        queue := q.enqueued
        last := sh.sequencer.last } := by
  unfold ticketsOf
  rw [wayOf_advance hk hdrawn hstarted, hnew]

theorem MadeFrom.symbolStr {order : SubmitOrderMsg} {e : OrderSubmittedEvent}
    (h : MadeFrom cfg order e) : e.symbolStr = order.symbol := by
  obtain ⟨seq, now, rfl⟩ := h
  rfl

theorem ThreadMove.tickets {k : Nat} (h : ThreadMove cfg s.engine.shared input th sh' th' started)
    (hk : s.engine.threads[k]? = some th) (hsub : th.Submits cfg (s.seen.drawn k))
    (hturn : InTurn s (.advance k input)) :
    Tickets.Step seq symbolStr (ticketsOf s)
      (ticketsOf ⟨⟨sh', s.engine.threads.set k th' ++ started⟩,
        s.seen.watch s.engine.shared sh' k th th'⟩) := by
  obtain ⟨hbits, herr, hfirst⟩ := hturn
  have hlast := h.last_le hbits
  have hstarted := h.started_not_onItsWay
  have hdrawn : ∀ j, j ≠ k → (s.seen.watch s.engine.shared sh' k th th').drawn j = s.seen.drawn j :=
    fun j hne => s.seen.watch_drawn hne
  have hway := wayOf_of_thread hk
  cases h with
  | drawSeq order =>
    -- the number is the next one
    obtain ⟨hseq, hnext⟩ := Sequencer.last_next hbits
    have hnew : update s.seen.drawn k (some (submittedEvent cfg order
        s.engine.shared.sequencer.nextGlobalSeq.1 input.now)) k = some _ :=
      update_self _ _ _
    rw [ticketsOf_advance (.submit order (.publish (.append _))) (some (_, false)) hk hdrawn
      hstarted (congrArg (Option.map fun e => (e, false)) hnew)]
    change Tickets.Step _ _ (ticketsOf s) { ticketsOf s with
      way := _, last := s.engine.shared.sequencer.nextGlobalSeq.2.last }
    rw [hnext, ← hseq]
    exact .draw k _ hway (Nat.lt_of_lt_of_eq (Nat.lt_succ_self _) hseq.symm)
  | submitPublish order hcall =>
    rcases step_log hcall with ⟨event, pending, rfl, -, hlog, rfl⟩ |
      ⟨event, err, rfl, -, hlog, rfl⟩ | ⟨event, pending, err, rfl, hlog, rfl | ⟨_, _, -, rfl⟩⟩
    · -- the event is in the log
      obtain ⟨e, rfl, hdrawnk, -⟩ := hsub
      rw [onItsWay, bind_some, hdrawnk] at hway
      rw [ticketsOf_advance (.submit order (.publish (.dispatch _ _ _))) (some (e, true)) hk
        hdrawn hstarted (congrArg (Option.map fun e => (e, true)) hdrawnk), hlog,
        loggedSubmissions_append]
      exact .record k e _ hway hlast
    · -- the log has failed and the call is over
      obtain ⟨e, rfl, hdrawnk, -⟩ := hsub
      rw [onItsWay, bind_some, hdrawnk] at hway
      rw [ticketsOf_advance _ none hk hdrawn hstarted rfl, hlog]
      exact .drop k e _ hway hlast
    · obtain ⟨rfl, -⟩ := hsub
      exact tickets_tick hk rfl rfl (by rw [hlog]) rfl hlast hstarted
    · exact tickets_tick hk rfl rfl (by rw [hlog]) rfl hlast hstarted
  | enqueue order hroom =>
    obtain ⟨e, hdrawnk, hmade⟩ := hsub
    rw [onItsWay, bind_some, hdrawnk] at hway
    have hqueue : (s.seen.enqueue order (s.seen.drawn k)).enqueued =
        update s.seen.enqueued e.symbolStr (s.seen.enqueued e.symbolStr ++ [e]) := by
      rw [hdrawnk, enqueued_enqueue, hmade.symbolStr]
    rw [ticketsOf_advance _ none hk hdrawn hstarted rfl,
      (enqueueOrder_log s.engine.shared order).1, enqueueOrder_sequencer]
    refine hqueue ▸ .enqueue k e hway fun j u b hj hsymbol => ?_
    have hmine : enqueuing s k = some e := by
      rwa [enqueuing, hk]
    exact hfirst e hmine j (lt_length_of_wayOf hj) (u, b) hj hsymbol
  | workerPublish symbol rest hcall =>
    rcases step_log hcall with ⟨event, pending, rfl, -, hlog, rfl⟩ |
      ⟨event, err, rfl, -, hlog, rfl⟩ | ⟨event, pending, err, rfl, hlog, rfl | ⟨_, _, -, rfl⟩⟩
    · -- a trade is no submission
      refine tickets_tick hk rfl rfl ?_ rfl hlast hstarted
      have hnone : event.submission? = none := hsub
      rw [hlog, loggedSubmissions_append, hnone, toList_none, append_nil]
    · exact tickets_tick hk rfl rfl (by rw [hlog]) rfl hlast hstarted
    · exact tickets_tick hk rfl rfl (by rw [hlog]) rfl hlast hstarted
    · exact tickets_tick hk rfl rfl (by rw [hlog]) rfl hlast hstarted
  | beginBuy | beginSell =>
    exact tickets_tick hk rfl rfl rfl (enqueued_hand _ _) hlast hstarted
  | buyTurn hob hturn | sellTurn hob hturn =>
    have hlog := (matchTurn_log hturn).1
    exact tickets_tick hk rfl rfl (congrArg loggedSubmissions hlog) rfl hlast hstarted
  | buyDone | sellDone | published =>
    exact tickets_tick hk (nextTrade_onItsWay _ _) rfl rfl rfl hlast hstarted
  | _ => exact tickets_tick hk rfl rfl rfl rfl hlast hstarted

/-! ## In every run -/

structure SubmissionsOk (cfg : EngineConfig) (s : Watched C Submissions) : Prop where
  submits : ∀ k (th : Thread C), s.engine.threads[k]? = some th → th.Submits cfg (s.seen.drawn k)
  pairs : ∀ symbol, ∀ p ∈ s.seen.queued symbol, MadeFrom cfg p.1 p.2 ∧ p.1.symbol = symbol
  tickets : Tickets.Ok seq symbolStr (ticketsOf s)

theorem submissionsOk_new (sequencer : Sequencer) :
    SubmissionsOk cfg (newSubmissions C sequencer) where
  submits := fun _ _ h => nomatch h
  pairs := nofun
  tickets := Tickets.ok_empty _

theorem submitOrder_onItsWay (order : SubmitOrderMsg) :
    (submitOrder order : Thread C).onItsWay = none :=
  submitOrder_cases order (fun _ => rfl) (fun _ _ => rfl) fun _ _ => rfl

theorem submitOrder_submits (order : SubmitOrderMsg) (drawn : Option OrderSubmittedEvent) :
    (submitOrder order : Thread C).Submits cfg drawn :=
  submitOrder_cases order (fun _ => trivial) (fun _ _ => trivial) fun _ _ => trivial

-- A call that has just come has drawn nothing.
theorem ticketsOf_submitOrder (s : Watched C Submissions) (order : SubmitOrderMsg) :
    ticketsOf ⟨{ s.engine with threads := s.engine.threads ++ [submitOrder order] }, s.seen⟩ =
      ticketsOf s := by
  have hway : wayOf ⟨{ s.engine with threads := s.engine.threads ++ [submitOrder order] },
      s.seen⟩ = wayOf s := by
    funext j
    rw [wayOf, wayOf]
    rw [List.getElem?_append]
    split
    · rfl
    next hlt =>
      have hnone : s.engine.threads[j]? = none := List.getElem?_eq_none (by omega)
      rw [hnone]
      cases hj : ([submitOrder order] : List (Thread C))[j - s.engine.threads.length]? with
      | none => rfl
      | some t =>
        rw [mem_singleton.mp (mem_of_getElem? hj), bind_some, submitOrder_onItsWay]
        rfl
  unfold ticketsOf
  rw [hway]

theorem ThreadMove.pairs {k : Nat} {q : Submissions}
    (h : ThreadMove cfg sh input th sh' th' started) (hsub : th.Submits cfg (q.drawn k))
    (hpairs : ∀ symbol, ∀ p ∈ q.queued symbol, MadeFrom cfg p.1 p.2 ∧ p.1.symbol = symbol) :
    ∀ symbol, ∀ p ∈ (q.watch sh sh' k th th').queued symbol,
      MadeFrom cfg p.1 p.2 ∧ p.1.symbol = symbol := by
  have hhand : ∀ symbol symbol', ∀ p ∈ (q.hand symbol).queued symbol',
      MadeFrom cfg p.1 p.2 ∧ p.1.symbol = symbol' := by
    intro symbol symbol' p hp
    unfold hand at hp
    dsimp only at hp
    rcases eq_or_ne symbol' symbol with rfl | hne
    · rw [update_self] at hp
      exact hpairs symbol' p (mem_of_mem_tail hp)
    · rw [update_of_ne hne] at hp
      exact hpairs symbol' p hp
  cases h with
  | enqueue order =>
    obtain ⟨e, hdrawn, hmade⟩ := hsub
    intro symbol p hp
    change p ∈ (q.enqueue order (q.drawn k)).queued symbol at hp
    rw [hdrawn] at hp
    unfold Submissions.enqueue at hp
    dsimp only at hp
    rcases eq_or_ne symbol order.symbol with rfl | hne
    · rw [update_self] at hp
      rcases mem_append.mp hp with hp | hp
      · exact hpairs order.symbol p hp
      · rw [mem_singleton.mp hp]
        exact ⟨hmade, rfl⟩
    · rw [update_of_ne hne] at hp
      exact hpairs symbol p hp
  | beginBuy | beginSell => exact hhand _
  | _ => exact hpairs

theorem SubmissionsOk.step (h : SubmissionsOk cfg s) (hturn : InTurn s action)
    (hstep : s.step watch cfg action = some s') : SubmissionsOk cfg s' := by
  rcases Watched.step_cases hstep with ⟨order, rfl, rfl⟩ |
    ⟨k, input, th, sh, th', started, rfl, hk, hth, rfl⟩
  · refine ⟨fun k th hk => ?_, h.pairs, by rw [ticketsOf_submitOrder]; exact h.tickets⟩
    rw [List.getElem?_append] at hk
    split at hk
    · exact h.submits k th hk
    · rw [mem_singleton.mp (mem_of_getElem? hk)]
      exact submitOrder_submits order _
  · have hmove := step_move hth
    have hsub := h.submits k th hk
    refine ⟨?_, hmove.pairs hsub h.pairs, h.tickets.step (hmove.tickets hk hsub hturn)⟩
    refine Run.forall_getElem?_set_append hk (fun j t hne hj => ?_) (hmove.submits hsub ?_)
      fun t ht j => ?_
    · rw [s.seen.watch_drawn hne]
      exact h.submits j t hj
    · intro hdispatch
      exact hturn.2.1 (by rw [hk]; exact hdispatch)
    · obtain ⟨symbol, rfl⟩ := hmove.started_idle t ht
      trivial

end CexHertz
