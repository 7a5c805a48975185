import CexHertz.Service.MatchEngine

/-!
# The moves of the engine's threads

The step of a thread as a relation, one constructor per thing a thread can do.
-/

namespace CexHertz

open List

variable {buyBefore sellBefore : Int → Int → Prop} [DecidableRel buyBefore]
  [DecidableRel sellBefore] {C : Containers buyBefore sellBefore} {cfg : EngineConfig}
variable {started : List (Thread C)} {symbol : String} {ob : OrderBook C}

def Shared.drawn (sh : Shared C) : Shared C :=
  { sh with sequencer := sh.sequencer.nextGlobalSeq.2 }

def Shared.handed (sh : Shared C) (msg : SubmitOrderMsg) (order : OrderBookEntry) : Shared C :=
  { sh.drawn with matched := sh.matched ++ [(msg, order)] }

inductive ThreadMove (cfg : EngineConfig) (sh : Shared C) (input : StepInput) :
    Thread C → Shared C → Thread C → List (Thread C) → Prop
  | drawOrderID (order : SubmitOrderMsg) :
      ThreadMove cfg sh input (.submit order .drawOrderID) sh.drawn
        (.submit { order with orderID := generatedID input.now sh.sequencer.nextGlobalSeq.1 }
          .drawSeq) []
  | drawSeq (order : SubmitOrderMsg) : ThreadMove cfg sh input (.submit order .drawSeq) sh.drawn
        (.submit order (.publish (.append (.orderSubmitted
          (submittedEvent cfg order sh.sequencer.nextGlobalSeq.1 input.now))))) []
  | submitPublish (order : SubmitOrderMsg) {call call' : Publish} {sh' : Shared C} :
      call.step cfg sh input = some (sh', call') →
      ThreadMove cfg sh input (.submit order (.publish call)) sh'
        (.submit order (.publish call')) []
  | accepted (order : SubmitOrderMsg) :
      ThreadMove cfg sh input (.submit order (.publish (.finished none))) sh
        (.submit order .enqueue) []
  | failed (order : SubmitOrderMsg) (e : String) :
      ThreadMove cfg sh input (.submit order (.publish (.finished (some e)))) sh
        (.submit order (.returned (some e))) []
  | enqueue (order : SubmitOrderMsg) : (sh.orderQueues order.symbol).length < 10000 →
      ThreadMove cfg sh input (.submit order .enqueue) (enqueueOrder sh order).1
        (.submit order (.returned none)) (enqueueOrder sh order).2
  | take {symbol : String} {msg : SubmitOrderMsg} {rest : List SubmitOrderMsg} :
      sh.orderQueues symbol = msg :: rest →
      ThreadMove cfg sh input (.worker symbol .idle)
        { sh with orderQueues := Function.update sh.orderQueues symbol rest }
        (.worker symbol (.took msg)) []
  | beginBuy {symbol : String} {msg : SubmitOrderMsg} {ob : OrderBook C} {order : OrderBookEntry} :
      sh.orderBooks symbol = some ob →
      order = bookEntry cfg symbol msg input.now sh.sequencer.nextGlobalSeq.1 →
      order.side = "buy" →
      ThreadMove cfg sh input (.worker symbol (.took msg)) (sh.handed msg order)
        (.worker symbol (.buying order (matchStart C.sells ob.sells order))) []
  | beginSell {symbol : String} {msg : SubmitOrderMsg} {ob : OrderBook C}
      {order : OrderBookEntry} :
      sh.orderBooks symbol = some ob →
      order = bookEntry cfg symbol msg input.now sh.sequencer.nextGlobalSeq.1 →
      order.side ≠ "buy" →
      ThreadMove cfg sh input (.worker symbol (.took msg)) (sh.handed msg order)
        (.worker symbol (.selling order (matchStart C.buys ob.buys order))) []
  | buyTurn {symbol : String} {ob : OrderBook C} {order : OrderBookEntry}
      {st st' : MatchState C.sells} {sh' : Shared C} :
      sh.orderBooks symbol = some ob →
      matchTurn sh (fun stamp => (matchBuyLoop C ob.symbol order stamp).body) input.now st =
        some (sh', st') →
      ThreadMove cfg sh input (.worker symbol (.buying order st))
        (storeBook sh' symbol { ob with sells := st'.levels })
        (.worker symbol (.buying order st')) []
  | sellTurn {symbol : String} {ob : OrderBook C} {order : OrderBookEntry}
      {st st' : MatchState C.buys} {sh' : Shared C} :
      sh.orderBooks symbol = some ob →
      matchTurn sh (fun stamp => (matchSellLoop C ob.symbol order stamp).body) input.now st =
        some (sh', st') →
      ThreadMove cfg sh input (.worker symbol (.selling order st))
        (storeBook sh' symbol { ob with buys := st'.levels })
        (.worker symbol (.selling order st')) []
  | buyDone {symbol : String} {ob : OrderBook C} {order : OrderBookEntry}
      {st : MatchState C.sells} {result : MatchResult C} :
      sh.orderBooks symbol = some ob →
      result = recordOrder { ob with sells := st.levels } order st.events st.remainingQty →
      ThreadMove cfg sh input (.worker symbol (.buying order st))
        (storeBook sh symbol result.book) (.worker symbol (nextTrade result.events)) []
  | sellDone {symbol : String} {ob : OrderBook C} {order : OrderBookEntry}
      {st : MatchState C.buys} {result : MatchResult C} :
      sh.orderBooks symbol = some ob →
      result = recordOrder { ob with buys := st.levels } order st.events st.remainingQty →
      ThreadMove cfg sh input (.worker symbol (.selling order st))
        (storeBook sh symbol result.book) (.worker symbol (nextTrade result.events)) []
  | workerPublish (symbol : String) (rest : List TradeExecutedEvent) {call call' : Publish}
      {sh' : Shared C} :
      call.step cfg sh input = some (sh', call') →
      ThreadMove cfg sh input (.worker symbol (.publish call rest)) sh'
        (.worker symbol (.publish call' rest)) []
  | published (symbol : String) (err : Option String) (rest : List TradeExecutedEvent) :
      ThreadMove cfg sh input (.worker symbol (.publish (.finished err) rest)) sh
        (.worker symbol (nextTrade rest)) []

variable {sh sh' : Shared C} {input : StepInput}

theorem Publish.step_log {call call' : Publish} (h : call.step cfg sh input = some (sh', call')) :
    (∃ event pending, call = .append event ∧ input.err = none ∧ sh'.log = sh.log ++ [event] ∧
      call' = .dispatch event pending none) ∨
    (∃ event err, call = .append event ∧ input.err = some err ∧ sh'.log = sh.log ∧
      call' = .finished (some err)) ∨
    (∃ event pending err, call = .dispatch event pending err ∧ sh'.log = sh.log ∧
      (call' = .finished err ∨ ∃ pending' failed, (input.err = none → failed = none) ∧
        call' = .dispatch event pending' (err.or failed))) := by
  cases call with
  | append event =>
    rw [Publish.step] at h
    split at h
    next err herr =>
      cases h
      refine .inr (.inl ⟨event, err, rfl, herr, ?_, rfl⟩)
      split <;> rfl
    next herr =>
      cases h
      refine .inl ⟨event, _, rfl, herr, ?_, rfl⟩
      split <;> rfl
  | dispatch event pending err =>
    rw [Publish.step] at h
    split at h
    next =>
      cases h
      exact .inr (.inr ⟨event, pending, err, rfl, rfl, .inl rfl⟩)
    next =>
      split at h
      next =>
        cases h
        refine .inr (.inr ⟨event, pending, err, rfl, rfl, .inr ⟨_, _, fun herr => ?_, rfl⟩⟩)
        rw [herr, ite_self]
        rfl
      next => cases h
  | finished err => cases h

theorem submitStep_move {order : SubmitOrderMsg} {phase : SubmitPhase} {th' : Thread C}
    (h : submitStep cfg sh input order phase = some (sh', th', started)) :
    ThreadMove cfg sh input (.submit order phase) sh' th' started := by
  cases phase with
  | drawOrderID =>
    cases h
    exact .drawOrderID order
  | drawSeq =>
    cases h
    exact .drawSeq order
  | publish call =>
    cases call with
    | finished err =>
      cases err with
      | none =>
        cases h
        exact .accepted order
      | some e =>
        cases h
        exact .failed order e
    | append | dispatch =>
      rw [submitStep] at h
      · obtain ⟨r, hr, heq⟩ := Option.map_eq_some_iff.mp h
        cases heq
        exact .submitPublish order hr
      · nofun
      · nofun
  | enqueue =>
    rw [submitStep] at h
    split at h
    next hroom =>
      cases h
      exact .enqueue order hroom
    next => cases h
  | returned err => cases h

theorem workerStep_move {phase phase' : WorkerPhase C} (hob : sh.orderBooks symbol = some ob)
    (h : workerStep cfg sh input symbol ob phase = some (sh', phase')) :
    ThreadMove cfg sh input (.worker symbol phase) sh' (.worker symbol phase') [] := by
  cases phase with
  | idle =>
    rw [workerStep] at h
    split at h
    next => cases h
    next hqueue =>
      cases h
      exact .take hqueue
  | took msg =>
    rw [workerStep] at h
    dsimp only at h
    split at h
    next hside =>
      cases h
      exact .beginBuy hob rfl hside
    next hside =>
      cases h
      exact .beginSell hob rfl hside
  | buying order st =>
    rw [workerStep] at h
    split at h
    next hturn =>
      cases h
      exact .buyTurn hob hturn
    next =>
      cases h
      exact .buyDone hob rfl
  | selling order st =>
    rw [workerStep] at h
    split at h
    next hturn =>
      cases h
      exact .sellTurn hob hturn
    next =>
      cases h
      exact .sellDone hob rfl
  | publish call rest =>
    cases call with
    | finished err =>
      cases h
      exact .published symbol err rest
    | append | dispatch =>
      rw [workerStep] at h
      · obtain ⟨r, hr, heq⟩ := Option.map_eq_some_iff.mp h
        cases heq
        exact .workerPublish symbol rest hr
      · nofun

theorem Thread.step_move {th th' : Thread C} (h : th.step cfg sh input = some (sh', th', started)) :
    ThreadMove cfg sh input th sh' th' started := by
  cases th with
  | submit order phase => exact submitStep_move h
  | worker symbol phase =>
    rw [Thread.step] at h
    split at h
    next => cases h
    next ob hob =>
      obtain ⟨r, hr, heq⟩ := Option.map_eq_some_iff.mp h
      cases heq
      exact workerStep_move hob hr

-- A worker leaves the loop of `matchBuyOrder` or `matchSellOrder` when there is no turn left.
theorem Thread.step_done {phase : WorkerPhase C} {trades : List TradeExecutedEvent}
    (hob : sh.orderBooks symbol = some ob) (h : (Thread.worker symbol phase).step cfg sh input =
      some (sh', .worker symbol (nextTrade trades), started)) :
    (∀ order st, phase = .buying order st → matchTurn sh
      (fun stamp => (matchBuyLoop C ob.symbol order stamp).body) input.now st = none) ∧
    ∀ order st, phase = .selling order st → matchTurn sh
      (fun stamp => (matchSellLoop C ob.symbol order stamp).body) input.now st = none := by
  rw [Thread.step, hob] at h
  constructor
  all_goals
    rintro order st rfl
    dsimp only at h
    rw [workerStep] at h
    split at h
    next =>
      -- a turn stays in the loop
      cases trades <;> cases h
    next hnone => exact hnone

/-! ## Turns of a matching loop -/

section

variable {before : Int → Int → Prop} [DecidableRel before] {L : Levels before}
  {body : (Nat → Stamp) → MatchState L → Option (MatchState L)} {now : Int} {st st' : MatchState L}

/-- A turn that trades draws a number and records the trades, any other changes nothing shared. -/
theorem matchTurn_eq_some (h : matchTurn sh body now st = some (sh', st')) :
    body (fun _ => ⟨sh.sequencer.nextGlobalSeq.1, now⟩) st = some st' ∧
    (st'.events.length = st.events.length ∧ sh' = sh ∨
      sh' = { sh.drawn with trades := sh.trades ++ st'.events.drop st.events.length }) := by
  obtain ⟨r, hr, heq⟩ := Option.map_eq_some_iff.mp h
  split at heq
  next hlength =>
    cases heq
    exact ⟨hr, .inl ⟨hlength, rfl⟩⟩
  next =>
    cases heq
    exact ⟨hr, .inr rfl⟩

theorem matchTurn_trades {new : List TradeExecutedEvent}
    (h : matchTurn sh body now st = some (sh', st')) (hnew : st'.events = st.events ++ new) :
    sh'.trades = sh.trades ++ new := by
  rcases (matchTurn_eq_some h).2 with ⟨hlength, rfl⟩ | rfl
  · rw [hnew, length_append] at hlength
    rw [length_eq_zero_iff.mp (by omega : new.length = 0), append_nil]
  · rw [hnew, drop_left]

theorem matchTurn_log (h : matchTurn sh body now st = some (sh', st')) :
    sh'.log = sh.log ∧ sh'.pipeline = sh.pipeline := by
  rcases (matchTurn_eq_some h).2 with ⟨-, rfl⟩ | rfl
  · exact ⟨rfl, rfl⟩
  · exact ⟨rfl, rfl⟩

theorem matchTurn_frame (h : matchTurn sh body now st = some (sh', st')) :
    sh'.orderQueues = sh.orderQueues ∧ sh'.orderBooks = sh.orderBooks ∧
      sh'.matched = sh.matched := by
  rcases (matchTurn_eq_some h).2 with ⟨-, rfl⟩ | rfl
  · exact ⟨rfl, rfl, rfl⟩
  · exact ⟨rfl, rfl, rfl⟩

theorem matchTurn_sequencer (h : matchTurn sh body now st = some (sh', st')) :
    sh'.sequencer = sh.sequencer ∨ sh'.sequencer = sh.sequencer.nextGlobalSeq.2 := by
  rcases (matchTurn_eq_some h).2 with ⟨-, rfl⟩ | rfl
  · exact .inl rfl
  · exact .inr rfl

end

theorem EngineState.step_cases {s s' : EngineState C} {action : EngineAction}
    (h : s.step cfg action = some s') :
    (∃ order, action = .submitOrder order ∧
      s' = { s with threads := s.threads ++ [CexHertz.submitOrder order] }) ∨
    (∃ k input th sh th' started, action = .advance k input ∧ s.threads[k]? = some th ∧
      ThreadMove cfg s.shared input th sh th' started ∧
      s' = ⟨sh, s.threads.set k th' ++ started⟩) := by
  cases action with
  | submitOrder order =>
    cases h
    exact .inl ⟨order, rfl, rfl⟩
  | advance k input =>
    rw [EngineState.step] at h
    split at h
    next => cases h
    next th hk =>
      split at h
      next => cases h
      next sh th' started hth =>
        cases h
        exact .inr ⟨k, input, th, sh, th', started, rfl, hk, Thread.step_move hth, rfl⟩

/-! ## Threads that are added -/

@[elab_as_elim]
theorem submitOrder_cases {motive : Thread C → Prop} (order : SubmitOrderMsg)
    (missing : order.Missing →
      motive (.submit order (.returned (some "invalid order: missing required fields"))))
    (unnamed : ¬ order.Missing → order.orderID = "" → motive (.submit order .drawOrderID))
    (named : ¬ order.Missing → order.orderID ≠ "" → motive (.submit order .drawSeq)) :
    motive (submitOrder order) := by
  unfold submitOrder
  split
  next hmissing => exact missing hmissing
  next hfields =>
    split
    next hid => exact unnamed hfields hid
    next hid => exact named hfields hid

-- A worker is started once, with the symbol's first order.
theorem enqueueOrder_started (sh : Shared C) (order : SubmitOrderMsg) {t : Thread C}
    (h : t ∈ (enqueueOrder sh order).2) : t = .worker order.symbol .idle := by
  unfold enqueueOrder at h
  dsimp only at h
  split at h
  · cases h
  · exact mem_singleton.mp h

theorem ThreadMove.started_idle {sh sh' : Shared C} {th th' : Thread C} {started : List (Thread C)}
    (h : ThreadMove cfg sh input th sh' th' started) :
    ∀ t ∈ started, ∃ symbol, t = .worker symbol .idle := by
  intro t ht
  cases h with
  | enqueue order => exact ⟨_, enqueueOrder_started sh order ht⟩
  | _ => cases ht

/-- What holds of all threads and of an idle worker holds after a move if it holds of the moved
thread. -/
theorem ThreadMove.forall_threads {sh sh' : Shared C} {th th' : Thread C}
    {started threads : List (Thread C)} {Q : Thread C → Prop}
    (h : ThreadMove cfg sh input th sh' th' started) (k : Nat) (hthreads : ∀ t ∈ threads, Q t)
    (hth' : Q th') (hidle : ∀ symbol, Q (.worker symbol .idle)) :
    ∀ t ∈ threads.set k th' ++ started, Q t := by
  refine Run.forall_mem_set_append k hthreads hth' fun t ht => ?_
  obtain ⟨symbol, rfl⟩ := h.started_idle t ht
  exact hidle symbol

end CexHertz
