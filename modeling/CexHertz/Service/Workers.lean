import CexHertz.Service.EngineInvariant

/-!
# One worker per symbol

`enqueueOrder` starts a worker together with the symbol's book, and nothing else does. So a symbol
has one worker exactly when it has a book, and a match under way works on the side the book holds.
-/

namespace CexHertz

open List Function

variable {buyBefore sellBefore : Int → Int → Prop} [DecidableRel buyBefore]
  [DecidableRel sellBefore] {C : Containers buyBefore sellBefore} {cfg : EngineConfig}
  {s s' : EngineState C} {sh sh' : Shared C} {input : StepInput} {action : EngineAction}
  {th th' : Thread C} {started : List (Thread C)}

def Thread.workerSymbol : Thread C → Option String
  | .worker symbol _ => some symbol
  | .submit _ _ => none

def Thread.matching : Thread C → Option String
  | .worker symbol (.buying _ _) => some symbol
  | .worker symbol (.selling _ _) => some symbol
  | _ => none

def Thread.InBook (books : String → Option (OrderBook C)) : Thread C → Prop
  | .worker symbol (.buying _ st) => ∃ ob, books symbol = some ob ∧ ob.sells = st.levels
  | .worker symbol (.selling _ st) => ∃ ob, books symbol = some ob ∧ ob.buys = st.levels
  | _ => True

def workerSymbols (threads : List (Thread C)) : List String :=
  threads.filterMap Thread.workerSymbol

structure WorkersOk (s : EngineState C) : Prop where
  nodup : (workerSymbols s.threads).Nodup
  books : ∀ symbol, s.shared.orderBooks symbol ≠ none ↔ symbol ∈ workerSymbols s.threads
  inBook : ∀ th ∈ s.threads, th.InBook s.shared.orderBooks

/-! ## What a move does to workers and books -/

theorem ThreadMove.workerSymbol (h : ThreadMove cfg sh input th sh' th' started) :
    th'.workerSymbol = th.workerSymbol := by
  cases h <;> rfl

theorem storeBook_other (sh : Shared C) (ob : OrderBook C) {symbol symbol' : String}
    (hne : symbol' ≠ symbol) :
    (storeBook sh symbol ob).orderBooks symbol' = sh.orderBooks symbol' :=
  update_of_ne hne _ _

theorem storeBook_self (sh : Shared C) (symbol : String) (ob : OrderBook C) :
    (storeBook sh symbol ob).orderBooks symbol = some ob :=
  update_self _ _ _

theorem enqueueOrder_cases (sh : Shared C) (order : SubmitOrderMsg) :
    (sh.orderBooks order.symbol ≠ none ∧ (enqueueOrder sh order).1.orderBooks = sh.orderBooks ∧
      (enqueueOrder sh order).2 = []) ∨
    (sh.orderBooks order.symbol = none ∧ (enqueueOrder sh order).1.orderBooks =
        update sh.orderBooks order.symbol (some (newOrderBook C order.symbol)) ∧
      (enqueueOrder sh order).2 = [.worker order.symbol .idle]) := by
  unfold enqueueOrder
  dsimp only
  split
  next ob hob => exact .inl ⟨by rw [hob]; nofun, rfl, rfl⟩
  next hnone => exact .inr ⟨hnone, rfl, rfl⟩

theorem ThreadMove.book_other (h : ThreadMove cfg sh input th sh' th' started) {symbol : String}
    (hother : th.workerSymbol ≠ some symbol) (hbook : sh.orderBooks symbol ≠ none) :
    sh'.orderBooks symbol = sh.orderBooks symbol := by
  have hne : ∀ {symbol' : String}, some symbol' ≠ some symbol → symbol ≠ symbol' :=
    fun hneq heq => hneq (congrArg some heq.symm)
  cases h with
  | submitPublish order hcall | workerPublish symbol rest hcall =>
    rw [(Publish.step_sameMarket hcall).orderBooks]
  | enqueue order =>
    rcases enqueueOrder_cases sh order with ⟨-, hbooks, -⟩ | ⟨hnone, hbooks, -⟩
    · rw [hbooks]
    · rw [hbooks, update_of_ne]
      rintro rfl
      exact hbook hnone
  | buyTurn _ hturn | sellTurn _ hturn =>
    rw [storeBook_other _ _ (hne hother), (matchTurn_frame hturn).2.1]
  | buyDone | sellDone => exact storeBook_other _ _ (hne hother)
  | _ => rfl

theorem ThreadMove.books (h : ThreadMove cfg sh input th sh' th' started) :
    (started = [] ∧ ∀ symbol, sh'.orderBooks symbol ≠ none ↔ sh.orderBooks symbol ≠ none) ∨
    ∃ new, started = [.worker new .idle] ∧ sh.orderBooks new = none ∧
      ∀ symbol, sh'.orderBooks symbol ≠ none ↔ sh.orderBooks symbol ≠ none ∨ symbol = new := by
  have hstore : ∀ {sh : Shared C} {symbol : String} {ob : OrderBook C} (ob' : OrderBook C),
      sh.orderBooks symbol = some ob → ∀ symbol',
      (storeBook sh symbol ob').orderBooks symbol' ≠ none ↔ sh.orderBooks symbol' ≠ none := by
    intro sh symbol ob ob' hob symbol'
    rcases eq_or_ne symbol' symbol with rfl | hne
    · rw [storeBook_self, hob]
      exact ⟨fun _ => nofun, fun _ => nofun⟩
    · rw [storeBook_other _ _ hne]
  cases h with
  | submitPublish order hcall | workerPublish symbol rest hcall =>
    refine .inl ⟨rfl, fun symbol => ?_⟩
    rw [(Publish.step_sameMarket hcall).orderBooks]
  | enqueue order =>
    rcases enqueueOrder_cases sh order with ⟨-, hbooks, hstarted⟩ | ⟨hnone, hbooks, hstarted⟩
    · refine .inl ⟨hstarted, fun symbol => ?_⟩
      rw [hbooks]
    · refine .inr ⟨order.symbol, hstarted, hnone, fun symbol => ?_⟩
      rw [hbooks]
      rcases eq_or_ne symbol order.symbol with rfl | hne
      · rw [update_self]
        exact ⟨fun _ => .inr rfl, fun _ => nofun⟩
      · rw [update_of_ne hne]
        exact ⟨.inl, fun h => h.elim id fun heq => absurd heq hne⟩
  | buyTurn hob hturn | sellTurn hob hturn =>
    have hbooks := (matchTurn_frame hturn).2.1
    refine .inl ⟨rfl, fun symbol => ?_⟩
    rw [hstore _ (by rw [hbooks]; exact hob), hbooks]
  | buyDone hob | sellDone hob => exact .inl ⟨rfl, hstore _ hob⟩
  | _ => exact .inl ⟨rfl, fun _ => Iff.rfl⟩

theorem nextTrade_inBook (books : String → Option (OrderBook C)) (symbol : String)
    (trades : List TradeExecutedEvent) :
    (Thread.worker symbol (nextTrade trades : WorkerPhase C)).InBook books := by
  cases trades with
  | nil | cons => trivial

theorem ThreadMove.inBook (h : ThreadMove cfg sh input th sh' th' started) :
    th'.InBook sh'.orderBooks := by
  cases h with
  | beginBuy hob | beginSell hob => exact ⟨_, hob, rfl⟩
  | buyTurn | sellTurn => exact ⟨_, storeBook_self _ _ _, rfl⟩
  | buyDone | sellDone | published => exact nextTrade_inBook _ _ _
  | _ => trivial

/-! ## In every state -/

theorem workersOk_new (sequencer : Sequencer) : WorkersOk (newMatchEngine C sequencer) where
  nodup := nodup_nil
  books := fun _ => ⟨fun h => absurd rfl h, fun h => absurd h not_mem_nil⟩
  inBook := fun _ h => absurd h not_mem_nil

theorem workerSymbols_append (threads threads' : List (Thread C)) :
    workerSymbols (threads ++ threads') = workerSymbols threads ++ workerSymbols threads' :=
  filterMap_append

-- A move leaves the list of workers alone.
theorem workerSymbols_set {threads : List (Thread C)} {k : Nat} (hk : threads[k]? = some th)
    (h : th'.workerSymbol = th.workerSymbol) :
    workerSymbols (threads.set k th') = workerSymbols threads := by
  obtain ⟨pre, post, hpool, hset⟩ := Run.set_split hk
  rw [hset, hpool]
  unfold workerSymbols
  rw [filterMap_append, filterMap_append, filterMap_cons, filterMap_cons, h]

theorem WorkersOk.other (h : WorkersOk s) {pre post : List (Thread C)}
    (hpool : s.threads = pre ++ th :: post) {symbol : String}
    (hth : th.workerSymbol = some symbol) :
    ∀ t, t ∈ pre ∨ t ∈ post → t.workerSymbol ≠ some symbol := by
  intro t ht hsame
  have hnodup := h.nodup
  unfold workerSymbols at hnodup
  rw [hpool, filterMap_append, filterMap_cons_some hth, nodup_append] at hnodup
  obtain ⟨-, hpost, hdisjoint⟩ := hnodup
  rcases ht with hpre | hmem
  · exact hdisjoint symbol (mem_filterMap.mpr ⟨t, hpre, hsame⟩) symbol mem_cons_self rfl
  · exact (nodup_cons.mp hpost).1 (mem_filterMap.mpr ⟨t, hmem, hsame⟩)

theorem Thread.InBook.keep (h : th.InBook sh.orderBooks)
    (hbooks : ∀ symbol, th.workerSymbol = some symbol → sh.orderBooks symbol ≠ none →
      sh'.orderBooks symbol = sh.orderBooks symbol) : th.InBook sh'.orderBooks := by
  cases th with
  | submit order phase => trivial
  | worker symbol phase =>
    cases phase with
    | buying | selling =>
      obtain ⟨ob, hob, hlevels⟩ := h
      exact ⟨ob, (hbooks symbol rfl (by rw [hob]; nofun)).trans hob, hlevels⟩
    | _ => trivial

theorem submitOrder_workerSymbol (order : SubmitOrderMsg) :
    (submitOrder order : Thread C).workerSymbol = none :=
  submitOrder_cases order (fun _ => rfl) (fun _ _ => rfl) fun _ _ => rfl

theorem submitOrder_inBook (order : SubmitOrderMsg) (books : String → Option (OrderBook C)) :
    (submitOrder order : Thread C).InBook books :=
  submitOrder_cases order (fun _ => trivial) (fun _ _ => trivial) fun _ _ => trivial

theorem WorkersOk.step (h : WorkersOk s) (hstep : s.step cfg action = some s') : WorkersOk s' := by
  rcases EngineState.step_cases hstep with ⟨order, rfl, rfl⟩ |
    ⟨k, input, th, sh, th', started, rfl, hk, hmove, rfl⟩
  · have hsame : workerSymbols (s.threads ++ [submitOrder order]) = workerSymbols s.threads := by
      rw [workerSymbols_append]
      unfold workerSymbols
      rw [filterMap_cons_none (submitOrder_workerSymbol order), filterMap_nil, append_nil]
    exact ⟨hsame ▸ h.nodup, fun symbol => by rw [hsame]; exact h.books symbol,
      Run.forall_mem_concat h.inBook (submitOrder_inBook order _)⟩
  · have hset := workerSymbols_set hk hmove.workerSymbol
    obtain ⟨pre, post, hpool, hsplit⟩ := Run.set_split hk
    -- what the others do stays in their books
    have hothers : ∀ t, t ∈ pre ∨ t ∈ post → t.InBook sh.orderBooks := by
      intro t ht
      have hmem : t ∈ s.threads := by
        rw [hpool]
        rcases ht with ht | ht
        · exact mem_append_left _ ht
        · exact mem_append_right _ (mem_cons_of_mem _ ht)
      refine (h.inBook t hmem).keep fun symbol hsymbol hbook => hmove.book_other ?_ hbook
      exact fun hth => h.other hpool hth t ht hsymbol
    have hinBook : (∀ t ∈ started, t.InBook sh.orderBooks) →
        ∀ t ∈ s.threads.set k th' ++ started, t.InBook sh.orderBooks := by
      intro hstarted t ht
      rw [hsplit] at ht
      rcases mem_append.mp ht with ht | ht
      · rcases mem_append.mp ht with ht | ht
        · exact hothers t (.inl ht)
        · rcases mem_cons.mp ht with rfl | ht
          · exact hmove.inBook
          · exact hothers t (.inr ht)
      · exact hstarted t ht
    rcases hmove.books with ⟨rfl, hbooks⟩ | ⟨new, rfl, hnone, hbooks⟩
    · rw [append_nil] at hinBook ⊢
      refine ⟨hset.symm ▸ h.nodup, fun symbol => ?_, hinBook fun t ht => absurd ht not_mem_nil⟩
      rw [hset]
      exact (hbooks symbol).trans (h.books symbol)
    · have hnew : new ∉ workerSymbols s.threads := fun hmem => (h.books new).mpr hmem hnone
      have hsymbols : workerSymbols (s.threads.set k th' ++ [.worker new .idle]) =
          workerSymbols s.threads ++ [new] := by
        rw [workerSymbols_append, hset]
        rfl
      refine ⟨?_, fun symbol => ?_, hinBook fun t ht => ?_⟩
      · rw [hsymbols]
        refine nodup_append.mpr ⟨h.nodup, nodup_singleton _, fun a ha b hb => ?_⟩
        rw [mem_singleton.mp hb]
        rintro rfl
        exact hnew ha
      · rw [hsymbols, mem_append, mem_singleton, ← h.books symbol]
        exact hbooks symbol
      · rw [mem_singleton.mp ht]
        trivial

end CexHertz
