import CexHertz.Service.Delivery
import CexHertz.Service.EngineInvariant

/-!
# Which messages reach a book

`SubmitOrder` looks at three fields being present and at nothing else: it drops the errors of
`Sscanf`, and the book takes every side that is not `"buy"` for a sell. So an accepted message is as
it should be if and only if it is well formed.
-/

namespace CexHertz

open List EngineState

variable {buyBefore sellBefore : Int → Int → Prop} [DecidableRel buyBefore]
  [DecidableRel sellBefore] {C : Containers buyBefore sellBefore} {cfg : EngineConfig}
  {s s' : EngineState C} {action : EngineAction} {m : SubmitOrderMsg}

/-! ## Well-formed messages -/

def isExponent : List Char → Bool
  | [] => true
  | c :: rest =>
    let digits := (FloatText.readSign rest).2
    FloatText.oneOf ['e', 'E'] c && !digits.isEmpty && digits.all Char.isDigit

def isDecimal (s : String) : Bool :=
  let body := (FloatText.readSign s.toList).2
  let whole := body.takeWhile Char.isDigit
  match body.dropWhile Char.isDigit with
  | '.' :: rest =>
    !(whole ++ rest.takeWhile Char.isDigit).isEmpty && isExponent (rest.dropWhile Char.isDigit)
  | rest => !whole.isEmpty && isExponent rest

structure SubmitOrderMsg.WellFormed (conv : FloatText.IntConversion) (m : SubmitOrderMsg) :
    Prop where
  side : m.side = "buy" ∨ m.side = "sell"
  priceText : isDecimal m.price = true
  quantityText : isDecimal m.quantity = true
  price : 0 < parsePrice conv m.price
  quantity : 0 < parseQuantity conv m.quantity

def SameRequest (m msg : SubmitOrderMsg) : Prop :=
  msg = { m with orderID := msg.orderID } ∧ (m.orderID ≠ "" → msg.orderID = m.orderID)

theorem SameRequest.side {msg : SubmitOrderMsg} (h : SameRequest m msg) : msg.side = m.side := by
  rw [h.1]

-- An id is no required field.
theorem SameRequest.missing {msg : SubmitOrderMsg} (h : SameRequest m msg) :
    msg.Missing ↔ m.Missing := by
  rw [h.1]
  exact Iff.rfl

theorem SameRequest.wellFormed {msg : SubmitOrderMsg} {conv : FloatText.IntConversion}
    (h : SameRequest m msg) (hm : m.WellFormed conv) : msg.WellFormed conv := by
  rw [h.1]
  exact ⟨hm.side, hm.priceText, hm.quantityText, hm.price, hm.quantity⟩

/-! ## What should hold of a submission -/

def OnSide (side orderID : String) (t : TradeExecutedEvent) : Prop :=
  (t.takerOrderID = orderID → t.takerSide = side) ∧
  (t.makerOrderID = orderID →
    t.takerSide = "buy" ∧ side = "sell" ∨ t.takerSide = "sell" ∧ side = "buy")

/-- A message reaches `MatchOrder` only with a side, a price and a quantity that its texts spell
out, and then trades on its side; any other message is refused and never logged.  Trades name orders
by id only, so the trades of a message are known when no other message came with its id. -/
structure SubmissionOk (cfg : EngineConfig) (m : SubmitOrderMsg) (s : EngineState C) : Prop where
  entry : ∀ p ∈ s.shared.matched, SameRequest m p.1 →
    (p.2.side = "buy" ∨ p.2.side = "sell") ∧ 0 < p.2.price ∧ 0 < p.2.quantity ∧
      isDecimal p.1.price = true ∧ isDecimal p.1.quantity = true
  side : ∀ p ∈ s.shared.matched, SameRequest m p.1 →
    (∀ q ∈ s.shared.matched, q.1.orderID = p.1.orderID → SameRequest m q.1) →
    ∀ t ∈ s.shared.trades, OnSide m.side p.1.orderID t
  rejected : ¬ m.WellFormed cfg.conv → ∀ order err,
    .submit order (.returned err) ∈ s.threads → SameRequest m order → err ≠ none
  unlogged : ¬ m.WellFormed cfg.conv → ∀ k order phase input s',
    s.threads[k]? = some (.submit order phase) → SameRequest m order →
    s.step cfg (.advance k input) = some s' → s'.shared.log = s.shared.log

/-! ## Refused messages -/

def Thread.Refuses : Thread C → Prop
  | .submit order phase => order.Missing → ∃ e, phase = .returned (some e)
  | .worker _ _ => True

theorem submitOrder_refuses (order : SubmitOrderMsg) : (submitOrder order : Thread C).Refuses :=
  submitOrder_cases order (fun _ _ => ⟨_, rfl⟩) (fun hfields _ h => absurd h hfields)
    fun hfields _ h => absurd h hfields

theorem ThreadMove.refuses {sh sh' : Shared C} {input : StepInput} {th th' : Thread C}
    {started : List (Thread C)} (h : ThreadMove cfg sh input th sh' th' started)
    (hth : th.Carries fun order => ¬ order.Missing) :
    th'.Refuses := by
  cases h with
  | drawOrderID | drawSeq | submitPublish | accepted => exact fun h => absurd h hth
  | failed order e => exact fun _ => ⟨e, rfl⟩
  | enqueue order => exact fun h => absurd h hth
  | _ => trivial

/-- Only messages with all fields are on their way, and only such have been matched, each as the
entry `processOrder` builds. -/
structure Screened (cfg : EngineConfig) (s : EngineState C) : Prop where
  queues : QueuesOk (fun order => ¬ order.Missing) s
  refuses : ∀ th ∈ s.threads, th.Refuses
  matched : ∀ p ∈ s.shared.matched, ¬ p.1.Missing ∧
    ∃ symbol now seq, p.2 = bookEntry cfg symbol p.1 now seq

theorem screened_new (sequencer : Sequencer) : Screened cfg (newMatchEngine C sequencer) :=
  ⟨queuesOk_new sequencer, fun _ h => absurd h not_mem_nil, fun _ h => absurd h not_mem_nil⟩

-- Whatever passes the check of `SubmitOrder` has its fields, and a generated id takes none away.
theorem feeds_not_missing (h : QueuesOk (fun order => ¬ order.Missing) s) :
    Feeds (fun order => ¬ order.Missing) s action := by
  cases action with
  | submitOrder order => exact id
  | advance k input => exact fun order hk => h.threads _ (mem_of_getElem? hk)

theorem Screened.step (h : Screened cfg s) (hstep : s.step cfg action = some s') :
    Screened cfg s' := by
  refine ⟨h.queues.step (feeds_not_missing h.queues) hstep, ?_, ?_⟩
  · rcases step_cases hstep with ⟨order, rfl, rfl⟩ |
      ⟨k, input, th, sh, th', started, rfl, hk, hmove, rfl⟩
    · exact Run.forall_mem_concat h.refuses (submitOrder_refuses order)
    · have hmoved := hmove.refuses (h.queues.threads th (mem_of_getElem? hk))
      exact hmove.forall_threads k h.refuses hmoved fun _ => trivial
  · rcases step_matched hstep with heq | ⟨k, input, symbol, msg, rfl, hk, heq⟩
    · rw [heq]
      exact h.matched
    · rw [heq]
      exact Run.forall_mem_concat h.matched
        ⟨(h.queues.threads _ (mem_of_getElem? hk)).1, symbol, _, _, rfl⟩

/-! ## Trades -/

def SidedAs (orderID side : String) (_ : String) (x : OrderBookEntry) : Prop :=
  x.orderID = orderID → x.side = side

theorem sidedAs_stable (orderID side symbol : String) : Stable (SidedAs orderID side symbol) :=
  fun _ _ _ h => h

theorem TradeOk.onSide {orderID side : String} {t : TradeExecutedEvent}
    (h : TradeOk (SidedAs orderID side) t) (hside : side = "buy" ∨ side = "sell") :
    OnSide side orderID t := by
  obtain ⟨taker, maker, htaker, hmaker, ⟨ht, hts, hms⟩ | ⟨ht, hts, hms⟩⟩ := h
  · constructor
    · intro hid
      rw [ht.takerSide, ← htaker (ht.takerOrderID.symm.trans hid), hts]
    · intro hid
      have hmside := hmaker (ht.makerOrderID.symm.trans hid)
      rw [hmside] at hms
      exact .inl ⟨ht.takerSide, hside.resolve_left hms⟩
  · constructor
    · intro hid
      have htside := htaker (ht.takerOrderID.symm.trans hid)
      rw [htside] at hts
      rw [ht.takerSide, hside.resolve_left hts]
    · intro hid
      exact .inr ⟨ht.takerSide, by rw [← hmaker (ht.makerOrderID.symm.trans hid), hms]⟩

def Sided (m : SubmitOrderMsg) (orderID : String) (s : EngineState C) : Prop :=
  (∀ q ∈ s.shared.matched, q.1.orderID = orderID → SameRequest m q.1) →
    BooksOk (SidedAs orderID m.side) s ∧
    ∀ t ∈ s.shared.trades, TradeOk (SidedAs orderID m.side) t

theorem sided_new (sequencer : Sequencer) (orderID : String) :
    Sided m orderID (newMatchEngine C sequencer) :=
  fun _ => ⟨booksOk_new sequencer, fun _ h => absurd h not_mem_nil⟩

theorem Sided.step {orderID : String} (h : Sided m orderID s)
    (hstep : s.step cfg action = some s') : Sided m orderID s' := by
  intro hall
  have hadmits : Admits cfg (SidedAs orderID m.side) s action := by
    rcases step_cases hstep with ⟨order, rfl, rfl⟩ |
      ⟨k, input, th, sh, th', started, rfl, hk, hmove, rfl⟩
    · trivial
    · -- the message is among those matched after the step
      intro symbol msg hk' hid
      rw [hk, Option.some.injEq] at hk'
      subst hk'
      rw [hmove.matched_took] at hall
      exact (hall _ (mem_append_right _ (mem_singleton.mpr rfl)) hid).side
  obtain ⟨hbooks, htrades⟩ := h fun q hq => hall q (mem_matched_step hstep hq)
  obtain ⟨hbooks', new, hnew, hok⟩ :=
    hbooks.step (sidedAs_stable orderID m.side) hadmits hstep
  refine ⟨hbooks', fun t ht => ?_⟩
  rw [hnew] at ht
  rcases mem_append.mp ht with ht | ht
  · exact htrades t ht
  · exact hok t ht

/-! ## The criterion -/

theorem exists_append (cfg : EngineConfig) (C : Containers buyBefore sellBefore)
    (sequencer : Sequencer) (hfields : ¬ m.Missing) :
    ∃ (s : EngineState C) (order : SubmitOrderMsg) (event : MatchingEngineEvent),
      Run.Reaches (step cfg) (fun _ _ => True) (newMatchEngine C sequencer) s ∧
      SameRequest m order ∧ s.threads = [.submit order (.publish (.append event))] := by
  have hstart : Run.Reaches (step cfg) (fun _ _ => True)
      (newMatchEngine C sequencer) ⟨(newMatchEngine C sequencer).shared, [submitOrder m]⟩ :=
    .step (a := .submitOrder m) .refl trivial rfl
  by_cases hid : m.orderID = ""
  · have hcall : (submitOrder m : Thread C) = .submit m .drawOrderID := by
      unfold submitOrder
      rw [if_neg hfields, if_pos hid]
    rw [hcall] at hstart
    exact ⟨_, _, _, .step (a := .advance 0 ⟨0, none, 0⟩)
      (.step (a := .advance 0 ⟨0, none, 0⟩) hstart trivial rfl) trivial rfl,
      ⟨rfl, fun h => absurd hid h⟩, rfl⟩
  · have hcall : (submitOrder m : Thread C) = .submit m .drawSeq := by
      unfold submitOrder
      rw [if_neg hfields, if_neg hid]
    rw [hcall] at hstart
    exact ⟨_, _, _, .step (a := .advance 0 ⟨0, none, 0⟩) hstart trivial rfl,
      ⟨rfl, fun _ => rfl⟩, rfl⟩

-- The log accepts; this is where a malformed message becomes an event.
theorem step_append (cfg : EngineConfig) {k : Nat} {order : SubmitOrderMsg}
    {event : MatchingEngineEvent}
    (hk : s.threads[k]? = some (.submit order (.publish (.append event)))) :
    ∃ s', s.step cfg (.advance k ⟨0, none, 0⟩) = some s' ∧
      s'.shared.log = s.shared.log ++ [event] := by
  refine ⟨_, by rw [step, hk]; rfl, ?_⟩
  split <;> rfl

theorem SubmissionOk.of_missing (h : Screened cfg s) (hm : m.Missing) : SubmissionOk cfg m s := by
  -- the message never gets beyond the call that refuses it
  have hmatched : ∀ p ∈ s.shared.matched, ¬ SameRequest m p.1 :=
    fun p hp hsame => (h.matched p hp).1 (hsame.missing.mpr hm)
  refine ⟨fun p hp hsame => absurd hsame (hmatched p hp),
    fun p hp hsame => absurd hsame (hmatched p hp), fun _ order err hth hsame => ?_,
    fun _ k order phase input s' hk hsame hstep => ?_⟩
  · obtain ⟨e, he⟩ := h.refuses _ hth (hsame.missing.mpr hm)
    cases he
    exact Option.some_ne_none e
  · -- a call that has returned takes no more steps
    obtain ⟨e, rfl⟩ := h.refuses _ (mem_of_getElem? hk) (hsame.missing.mpr hm)
    rw [step, hk] at hstep
    cases hstep

theorem SubmissionOk.of_wellFormed (h : Screened cfg s) (hsided : ∀ id, Sided m id s)
    (hm : m.WellFormed cfg.conv) : SubmissionOk cfg m s := by
  refine ⟨fun p hp hsame => ?_, fun p hp hsame hall t ht => ?_, fun hn => absurd hm hn,
    fun hn => absurd hm hn⟩
  · obtain ⟨symbol, now, seq, heq⟩ := (h.matched p hp).2
    have hp' := hsame.wellFormed hm
    rw [heq]
    exact ⟨hp'.side, hp'.price, hp'.quantity, hp'.priceText, hp'.quantityText⟩
  · -- `"buy"` and `"sell"` are the two sides of the book
    exact ((hsided p.1.orderID hall).2 t ht).onSide hm.side

/-- What should hold of a submission holds in every run if and only if the message is refused for a
missing field or well formed. -/
theorem submissionOk_iff_missing_or_wellFormed (cfg : EngineConfig)
    (C : Containers buyBefore sellBefore) (sequencer : Sequencer) (m : SubmitOrderMsg) :
    (∀ s, Run.Reaches (step cfg) (fun _ _ => True) (newMatchEngine C sequencer) s →
      SubmissionOk cfg m s) ↔ m.Missing ∨ m.WellFormed cfg.conv := by
  constructor
  · intro h
    by_contra hn
    obtain ⟨hfields, hform⟩ := not_or.mp hn
    obtain ⟨s, order, event, hs, hsame, hthreads⟩ := exists_append cfg C sequencer hfields
    have hk : s.threads[0]? = some (.submit order (.publish (.append event))) := by
      rw [hthreads]
      rfl
    -- the log takes the event
    obtain ⟨s', hstep, hlog⟩ := step_append cfg hk
    rw [(h s hs).unlogged hform 0 order _ _ s' hk hsame hstep] at hlog
    exact cons_ne_nil event [] (self_eq_append_right.mp hlog)
  · intro hm s hs
    have hscreened : Screened cfg s := hs.invariant (screened_new sequencer)
      fun _ _ _ h _ hstep => h.step hstep
    have hsided : ∀ id, Sided m id s := fun id => hs.invariant (sided_new sequencer id)
      fun _ _ _ h _ hstep => h.step hstep
    rcases hm with hm | hm
    · exact .of_missing hscreened hm
    · exact .of_wellFormed hscreened hsided hm

def Thread.acceptedMsg : Thread C → Option SubmitOrderMsg
  | .submit order (.returned none) => some order
  | _ => none

theorem Thread.eq_of_acceptedMsg {th : Thread C} (h : th.acceptedMsg = some m) :
    th = .submit m (.returned none) := by
  unfold Thread.acceptedMsg at h
  split at h
  · cases h
    rfl
  · cases h

def upperCaseBuy : SubmitOrderMsg := ⟨"a", "BTC", "BUY", "1", "1", "u2"⟩

def twoBuyers : List EngineAction :=
  .submitOrder ⟨"b", "BTC", "buy", "1", "1", "u1"⟩ :: advanceBy 0 6 ++ advanceBy 1 3 ++
  .submitOrder upperCaseBuy :: advanceBy 2 6 ++ advanceBy 1 3

/-- `SubmitOrder` returns nil for the message, and it sells to the other buyer. -/
theorem upperCaseBuy_sells : ∃ s, Run.Reaches (step oneProcessor) (fun _ _ => True)
        (newMatchEngine sortedContainers newSequencer) s ∧
      s.threads[2]? = some (.submit upperCaseBuy (.returned none)) ∧
      (∃ t ∈ s.shared.trades, t.takerOrderID = "a" ∧ t.makerOrderID = "b" ∧ t.takerSide = "sell") ∧
      ¬ SubmissionOk oneProcessor upperCaseBuy s := by
  refine Run.exists_reaches twoBuyers
    (P := fun s => s.threads[2]?.bind Thread.acceptedMsg = some upperCaseBuy ∧
      ∃ t ∈ s.shared.trades, t.takerOrderID = "a" ∧ t.makerOrderID = "b" ∧ t.takerSide = "sell")
    (by decide +kernel) fun s _ ⟨haccepted, hsold⟩ => ?_
  have hreturned : s.threads[2]? = some (.submit upperCaseBuy (.returned none)) := by
    obtain ⟨th, hth, hmsg⟩ := Option.bind_eq_some_iff.mp haccepted
    rw [hth, Thread.eq_of_acceptedMsg hmsg]
  have hform : ¬ upperCaseBuy.WellFormed oneProcessor.conv := fun h => by
    have := h.side
    revert this
    decide
  exact ⟨hreturned, hsold, fun hok =>
    hok.rejected hform _ _ (mem_of_getElem? hreturned) ⟨rfl, fun _ => rfl⟩ rfl⟩

end CexHertz
