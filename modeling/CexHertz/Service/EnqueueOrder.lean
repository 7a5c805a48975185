import CexHertz.Service.MatchEngine

/-!
# Starting the worker of a symbol

`enqueueOrder` step by step: the queue and the book of a symbol come from two `LoadOrStore`s, and
the call whose second one stored the book starts the worker.  Channels and books are named by the
symbol they are made for and a number.
-/

namespace CexHertz

open Function List

inductive EnqueuePhase where
  | loadQueue
  | loadBook (queue : Nat)
  | send (queue : Nat)
  | done

structure EnqueueCall where
  order : SubmitOrderMsg
  phase : EnqueuePhase

/-- A `matchWorker`: `book` once it is loaded, `current` while `processOrder` runs.  `begun` and
`finished` are history. -/
structure MatchWorker where
  queue : Nat
  book : Option Nat
  current : Option SubmitOrderMsg
  begun : List SubmitOrderMsg
  finished : List SubmitOrderMsg

/-- What the engine has for one symbol.  `made` counts the channels and books made so far, `sent` is
history. -/
structure SymbolQueue where
  orderQueue : Option Nat
  orderBook : Option Nat
  channels : Nat → List SubmitOrderMsg
  made : Nat
  calls : List EnqueueCall
  workers : List MatchWorker
  sent : List SubmitOrderMsg

def newSymbolQueue : SymbolQueue := ⟨none, none, fun _ => [], 0, [], [], []⟩

namespace SymbolQueue

variable (s : SymbolQueue)

def setPhase (k : Nat) (c : EnqueueCall) (phase : EnqueuePhase) : SymbolQueue :=
  { s with calls := s.calls.set k { c with phase := phase } }

/-- The next step of call `k`.  A `LoadOrStore` is handed a new object and gives the stored one; a
send waits while ten thousand orders are in the channel. -/
def advance (k : Nat) : Option SymbolQueue :=
  match s.calls[k]? with
  | none => none
  | some c =>
    match c.phase with
    | .loadQueue =>
      let queue := s.orderQueue.getD s.made
      some { s.setPhase k c (.loadBook queue) with orderQueue := some queue, made := s.made + 1 }
    | .loadBook queue =>
      match s.orderBook with
      | some _ => some { s.setPhase k c (.send queue) with made := s.made + 1 }
      | none =>
        -- `go matchWorker(symbol, queue)`; what the worker does comes in its own steps
        some { s.setPhase k c (.send queue) with
          orderBook := some s.made
          made := s.made + 1
          workers := s.workers ++ [⟨queue, none, none, [], []⟩] }
    | .send queue =>
      if (s.channels queue).length < 10000 then
        some { s.setPhase k c .done with
          channels := update s.channels queue (s.channels queue ++ [c.order])
          sent := s.sent ++ [c.order] }
      else none
    | .done => none

/-- The next step of worker `k`: it loads the book, receives an order, or is done with one. -/
def work (k : Nat) : Option SymbolQueue :=
  match s.workers[k]? with
  | none => none
  | some w =>
    match w.book, w.current with
    | none, _ => some { s with workers := s.workers.set k { w with book := s.orderBook } }
    | some _, none =>
      match s.channels w.queue with
      | [] => none
      | order :: rest => some { s with
          channels := update s.channels w.queue rest
          workers := s.workers.set k { w with current := some order, begun := w.begun ++ [order] } }
    | some _, some order => some { s with
        workers := s.workers.set k { w with current := none, finished := w.finished ++ [order] } }

end SymbolQueue

inductive EnqueueAction where
  | call (order : SubmitOrderMsg)
  | advance (symbol : String) (k : Nat)
  | work (symbol : String) (k : Nat)

def enqueueStep (s : String → SymbolQueue) : EnqueueAction → Option (String → SymbolQueue)
  | .call order => some (update s order.symbol
      { s order.symbol with calls := (s order.symbol).calls ++ [⟨order, .loadQueue⟩] })
  | .advance symbol k => ((s symbol).advance k).map (update s symbol)
  | .work symbol k => ((s symbol).work k).map (update s symbol)

/-- One worker at most was ever started, on the stored queue and the stored book; the orders it has
taken are the first of those sent, in this order, and only the last of them may not be finished. -/
structure OneWorker (s : SymbolQueue) : Prop where
  single : s.workers.length ≤ 1
  queue : ∀ w ∈ s.workers, s.orderQueue = some w.queue
  book : s.workers ≠ [] → s.orderBook ≠ none
  loaded : ∀ w ∈ s.workers, w.book = none ∧ w.begun = [] ∨ w.book = s.orderBook
  inOrder : ∀ w ∈ s.workers, w.begun <+: s.sent
  serial : ∀ w ∈ s.workers, w.begun = w.finished ++ w.current.toList

/-- What is stored is not replaced. -/
structure SameObjects (s s' : SymbolQueue) : Prop where
  queue : ∀ queue ∈ s.orderQueue, s'.orderQueue = some queue
  book : ∀ book ∈ s.orderBook, s'.orderBook = some book

/-! ## What the steps keep -/

def EnqueuePhase.queue : EnqueuePhase → Option Nat
  | .loadBook queue | .send queue => some queue
  | _ => none

structure MatchWorker.Ok (orderQueue orderBook : Option Nat)
    (channels : Nat → List SubmitOrderMsg) (sent : List SubmitOrderMsg) (w : MatchWorker) :
    Prop where
  queue : orderQueue = some w.queue
  stored : orderBook ≠ none
  book : w.book = none ∧ w.begun = [] ∨ w.book = orderBook
  taken : sent = w.begun ++ channels w.queue
  serial : w.begun = w.finished ++ w.current.toList

inductive Served (orderQueue orderBook : Option Nat) (channels : Nat → List SubmitOrderMsg)
    (sent : List SubmitOrderMsg) : List MatchWorker → Prop
  | nobody (hbook : orderBook = none) (hsent : sent = orderQueue.elim [] channels) :
      Served orderQueue orderBook channels sent []
  | worker {w : MatchWorker} (hw : w.Ok orderQueue orderBook channels sent) :
      Served orderQueue orderBook channels sent [w]

structure SymbolOk (s : SymbolQueue) : Prop where
  calls : ∀ c ∈ s.calls, ∀ queue ∈ c.phase.queue, s.orderQueue = some queue
  served : Served s.orderQueue s.orderBook s.channels s.sent s.workers
  others : ∀ n, s.orderQueue ≠ some n → s.channels n = []

section

variable {s s' : SymbolQueue} {k queue : Nat} {orderBook : Option Nat} {sent : List SubmitOrderMsg}
  {channels : Nat → List SubmitOrderMsg} {workers : List MatchWorker}

theorem Served.store (h : Served none orderBook channels sent workers)
    (hempty : channels queue = []) : Served (some queue) orderBook channels sent workers := by
  cases h with
  | nobody hbook hsent => exact .nobody hbook (hsent.trans hempty.symm)
  | worker hw => cases hw.queue

theorem Served.start (h : Served (some queue) none channels sent workers) (book : Nat) :
    Served (some queue) (some book) channels sent
      (workers ++ [⟨queue, none, none, [], []⟩]) := by
  cases h with
  | nobody _ hsent => exact .worker ⟨rfl, nofun, .inl ⟨rfl, rfl⟩, hsent, rfl⟩
  | worker hw => exact absurd rfl hw.stored

theorem Served.send (h : Served (some queue) orderBook channels sent workers)
    (order : SubmitOrderMsg) : Served (some queue) orderBook
      (update channels queue (channels queue ++ [order])) (sent ++ [order]) workers := by
  cases h with
  | nobody hbook hsent =>
    refine .nobody hbook ?_
    rw [hsent]
    exact (update_self queue _ channels).symm
  | worker hw =>
    obtain ⟨hqueue, hstored, hbook, htaken, hserial⟩ := hw
    refine .worker ⟨hqueue, hstored, hbook, ?_, hserial⟩
    rw [htaken, ← Option.some.inj hqueue, update_self, append_assoc]

theorem SymbolOk.calls_set (h : SymbolOk s) {c : EnqueueCall} {phase : EnqueuePhase}
    {orderQueue : Option Nat} (hkeep : ∀ q ∈ s.orderQueue, orderQueue = some q)
    (hphase : ∀ q ∈ phase.queue, orderQueue = some q) :
    ∀ c' ∈ (s.setPhase k c phase).calls, ∀ q ∈ c'.phase.queue, orderQueue = some q := by
  intro c' hc' q hq
  rcases mem_or_eq_of_mem_set hc' with hc' | rfl
  · exact hkeep q (h.calls c' hc' q hq)
  · exact hphase q hq

-- The channel that is written to is the stored one.
theorem SymbolOk.others_update (h : SymbolOk s) (hqueue : s.orderQueue = some queue)
    (orders : List SubmitOrderMsg) :
    ∀ n, s.orderQueue ≠ some n → update s.channels queue orders n = [] := by
  intro n hn
  rw [update_of_ne (by rintro rfl; exact hn hqueue)]
  exact h.others n hn

theorem SymbolOk.advance (h : SymbolOk s) (hstep : s.advance k = some s') :
    SymbolOk s' ∧ SameObjects s s' := by
  have hserved := h.served
  unfold SymbolQueue.advance at hstep
  split at hstep
  next => cases hstep
  next c hk =>
    have hcall := h.calls c (mem_of_getElem? hk)
    split at hstep
    next =>
      cases hstep
      have hkeep : ∀ q ∈ s.orderQueue, some (s.orderQueue.getD s.made) = some q := by
        rintro q hq
        rw [hq, Option.getD_some]
      refine ⟨⟨h.calls_set hkeep fun _ => id, ?_,
        fun n hn => h.others n fun heq => hn (hkeep n heq)⟩, hkeep, fun _ => id⟩
      show Served (some (s.orderQueue.getD s.made)) s.orderBook s.channels s.sent s.workers
      cases hqueue : s.orderQueue with
      | some queue => exact hqueue ▸ hserved
      | none =>
        rw [hqueue] at hserved
        exact hserved.store (h.others _ (by rw [hqueue]; nofun))
    next queue hphase =>
      rw [hphase] at hcall
      have hqueue : s.orderQueue = some queue := hcall queue rfl
      have hcalls : ∀ c' ∈ (s.setPhase k c (.send queue)).calls, ∀ q ∈ c'.phase.queue,
          s.orderQueue = some q := h.calls_set (fun _ => id) fun q hq => hq ▸ hqueue
      split at hstep
      next =>
        cases hstep
        exact ⟨⟨hcalls, hserved, h.others⟩, fun _ => id, fun _ => id⟩
      next hnone =>
        cases hstep
        rw [hqueue, hnone] at hserved
        refine ⟨⟨hcalls, ?_, h.others⟩, fun _ => id, by rw [hnone]; nofun⟩
        show Served s.orderQueue _ _ _ _
        rw [hqueue]
        exact hserved.start s.made
    next queue hphase =>
      rw [hphase] at hcall
      have hqueue : s.orderQueue = some queue := hcall queue rfl
      split at hstep
      next =>
        cases hstep
        refine ⟨⟨h.calls_set (fun _ => id) nofun, ?_, h.others_update hqueue _⟩, fun _ => id,
          fun _ => id⟩
        rw [hqueue] at hserved
        show Served s.orderQueue _ _ _ _
        rw [hqueue]
        exact hserved.send c.order
      next => cases hstep
    next => cases hstep

theorem SymbolOk.work (h : SymbolOk s) (hstep : s.work k = some s') :
    SymbolOk s' ∧ SameObjects s s' := by
  unfold SymbolQueue.work at hstep
  split at hstep
  next => cases hstep
  next w hk =>
    -- the worker is the only one
    obtain ⟨hw, hset⟩ : w.Ok s.orderQueue s.orderBook s.channels s.sent ∧
        ∀ w', s.workers.set k w' = [w'] := by
      have hserved := h.served
      generalize s.workers = workers at hserved hk ⊢
      cases hserved with
      | nobody => cases hk
      | worker hw =>
        cases k with
        | zero =>
          cases hk
          exact ⟨hw, fun _ => rfl⟩
        | succ k => cases hk
    obtain ⟨hqueue, hstored, hbook, htaken, hserial⟩ := hw
    split at hstep
    next hnone =>
      cases hstep
      rw [hset]
      exact ⟨⟨h.calls, .worker ⟨hqueue, hstored, .inr rfl, htaken, hserial⟩, h.others⟩, fun _ => id,
        fun _ => id⟩
    next book hsome hcurrent =>
      split at hstep
      next => cases hstep
      next order rest hchannel =>
        cases hstep
        rw [hset]
        refine ⟨⟨h.calls, .worker ⟨hqueue, hstored, ?_, ?_, ?_⟩, h.others_update hqueue _⟩,
          fun _ => id, fun _ => id⟩
        · rw [hsome] at hbook ⊢
          exact .inr (hbook.resolve_left nofun)
        · dsimp only
          rw [htaken, hchannel, update_self, append_assoc]
          rfl
        · rw [hcurrent, Option.toList_none, append_nil] at hserial
          exact congrArg (· ++ [order]) hserial
    next order hsome hcurrent =>
      cases hstep
      rw [hset]
      refine ⟨⟨h.calls, .worker ⟨hqueue, hstored, hbook, htaken, ?_⟩, h.others⟩, fun _ => id,
        fun _ => id⟩
      rw [hcurrent] at hserial
      exact hserial.trans (append_nil _).symm

theorem SymbolOk.oneWorker (h : SymbolOk s) : OneWorker s := by
  have hserved := h.served
  generalize hworkers : s.workers = workers at hserved
  cases hserved with
  | nobody => constructor <;> simp [hworkers]
  | worker hw =>
    constructor
    all_goals simp only [hworkers, mem_singleton, forall_eq]
    · exact Nat.le_refl 1
    · exact hw.queue
    · exact fun _ => hw.stored
    · exact hw.book
    · exact hw.taken ▸ prefix_append _ _
    · exact hw.serial

theorem enqueueStep_cases {s s' : String → SymbolQueue} {action : EnqueueAction}
    (hs : ∀ symbol, SymbolOk (s symbol)) (h : enqueueStep s action = some s') :
    ∃ symbol next, s' = update s symbol next ∧ SymbolOk next ∧ SameObjects (s symbol) next := by
  cases action with
  | call order =>
    cases h
    have hok := hs order.symbol
    exact ⟨_, _, rfl, ⟨Run.forall_mem_concat hok.calls nofun, hok.served, hok.others⟩, fun _ => id,
      fun _ => id⟩
  | advance symbol k =>
    obtain ⟨next, hnext, rfl⟩ := Option.map_eq_some_iff.mp h
    exact ⟨_, _, rfl, (hs symbol).advance hnext⟩
  | work symbol k =>
    obtain ⟨next, hnext, rfl⟩ := Option.map_eq_some_iff.mp h
    exact ⟨_, _, rfl, (hs symbol).work hnext⟩

end

/-- In every interleaving of `enqueueOrder` calls with the workers they start, each symbol has one
worker at most, on one queue and one book, and it takes the orders in the order they were sent. -/
theorem one_worker_per_symbol (s : String → SymbolQueue)
    (hrun : Run.Reaches enqueueStep (fun _ _ => True) (fun _ => newSymbolQueue) s)
    (symbol : String) :
    OneWorker (s symbol) ∧
    ∀ action s', enqueueStep s action = some s' → SameObjects (s symbol) (s' symbol) := by
  have hok : ∀ symbol, SymbolOk (s symbol) := by
    refine hrun.invariant (I := fun s => ∀ symbol, SymbolOk (s symbol))
      (fun _ => ⟨nofun, .nobody rfl rfl, fun _ _ => rfl⟩) fun s action s' hs _ hstep => ?_
    obtain ⟨stepped, next, rfl, hnext, -⟩ := enqueueStep_cases hs hstep
    exact (forall_update_iff s (p := fun _ s => SymbolOk s)).mpr ⟨hnext, fun symbol _ => hs symbol⟩
  refine ⟨(hok symbol).oneWorker, fun action s' hstep => ?_⟩
  obtain ⟨stepped, next, rfl, -, hsame⟩ := enqueueStep_cases hok hstep
  rcases eq_or_ne symbol stepped with rfl | hne
  · rwa [update_self]
  · rw [update_of_ne hne]
    exact ⟨fun _ => id, fun _ => id⟩

/-- Two calls race for the queue and the book; the one that came second starts the worker. -/
theorem racing_calls_one_worker :
    ∃ s, Run.Reaches enqueueStep (fun _ _ => True) (fun _ => newSymbolQueue) s ∧
      (s "BTC").sent.map (·.orderID) = ["b", "a"] ∧
      (s "BTC").workers.map (·.begun.map (·.orderID)) = [["b"]] ∧ OneWorker (s "BTC") := by
  refine Run.exists_reaches ((["a", "b"].map fun id => .call ⟨id, "BTC", "buy", "1", "1", "u"⟩) ++
      ([0, 1, 1, 0, 1, 0].map fun k => .advance "BTC" k) ++ [.work "BTC" 0, .work "BTC" 0])
    (P := fun s => (s "BTC").sent.map (·.orderID) = ["b", "a"] ∧
      (s "BTC").workers.map (·.begun.map (·.orderID)) = [["b"]])
    (by decide +kernel) fun s hreach ⟨hsent, hbegun⟩ => ?_
  exact ⟨hsent, hbegun, (one_worker_per_symbol s hreach "BTC").1⟩

end CexHertz
