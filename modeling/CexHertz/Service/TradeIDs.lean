import CexHertz.Lib.DelimitedRecords
import CexHertz.Service.Delivery
import CexHertz.Service.EngineInvariant
import CexHertz.Service.TradeOnce

/-!
# Trade ids

The id of a trade is the symbol, the id of the taking order and the number of the trade within the
match, joined by hyphens. If no two calls bring the same text, every order is in one place at a
time, it is matched once, and no two trades have the same id.
-/

namespace CexHertz

open List EngineState Option Function Run

variable {buyBefore sellBefore : Int → Int → Prop} [DecidableRel buyBefore]
  [DecidableRel sellBefore] {C : Containers buyBefore sellBefore} {cfg : EngineConfig}
  {sh sh' : Shared C} {input : StepInput} {th th' : Thread C} {started : List (Thread C)}

/-! ## The text of an id -/

def idText (symbol orderID : String) : String := symbol ++ "-" ++ orderID

def tradeIDOf (text : String) (n : Nat) : String := text ++ "-" ++ toString n

theorem tradeIDOf_inj {text text' : String} {n n' : Nat}
    (h : tradeIDOf text n = tradeIDOf text' n') : text = text' ∧ n = n' := by
  have hlist := congrArg String.toList h
  unfold tradeIDOf at hlist
  simp only [String.toList_append, Nat.toString_eq_repr, Nat.toList_repr, append_assoc]
    at hlist
  have hsep : "-".toList = ['-'] := rfl
  rw [hsep, singleton_append, singleton_append] at hlist
  obtain ⟨htext, hdigits⟩ := Delimited.append_cons_inj_last
    (Delimited.minus_not_mem_toDigits n) (Delimited.minus_not_mem_toDigits n') hlist
  refine ⟨String.toList_injective htext, ?_⟩
  calc
    n = Nat.ofDigitChars 10 (Nat.toDigits 10 n) 0 := Nat.ofDigitChars_ten_toDigits.symm
    _ = Nat.ofDigitChars 10 (Nat.toDigits 10 n') 0 := by rw [hdigits]
    _ = n' := Nat.ofDigitChars_ten_toDigits

/-! ## Where an order is -/

def Thread.inHand : Thread C → Option (String × Nat)
  | .submit _ (.returned _) => none
  | .submit order _ => some (idText order.symbol order.orderID, 0)
  | .worker symbol (.took msg) => some (idText symbol msg.orderID, 0)
  | .worker symbol (.buying order st) => some (idText symbol order.orderID, st.events.length)
  | .worker symbol (.selling order st) => some (idText symbol order.orderID, st.events.length)
  | .worker _ .idle => none
  | .worker _ (.publish _ _) => none

def Thread.call? : Thread C → Option SubmitOrderMsg
  | .submit order _ => some order
  | .worker _ _ => none

inductive Place where
  | thread (k : Nat)
  | queue (symbol : String) (i : Nat)
  deriving DecidableEq

def EngineState.content (s : EngineState C) : Place → Option (String × Nat)
  | .thread k => s.threads[k]?.bind Thread.inHand
  | .queue symbol i =>
    (s.shared.orderQueues symbol)[i]?.map fun msg => (idText symbol msg.orderID, 0)

theorem content_thread (s : EngineState C) (k : Nat) :
    s.content (.thread k) = s.threads[k]?.bind Thread.inHand := rfl

theorem content_queue (s : EngineState C) (symbol : String) (i : Nat) :
    s.content (.queue symbol i) =
      (s.shared.orderQueues symbol)[i]?.map fun msg => (idText symbol msg.orderID, 0) := rfl

def EngineState.Called (s : EngineState C) (text : String) : Prop :=
  ∃ th ∈ s.threads, ∃ order ∈ th.call?, idText order.symbol order.orderID = text

instance (s : EngineState C) (text : String) : Decidable (s.Called text) :=
  inferInstanceAs (Decidable (∃ _ ∈ _, ∃ _ ∈ _, _))

def NewTexts (s : EngineState C) : EngineAction → Prop
  | .submitOrder order => order.orderID ≠ "" ∧ ¬ s.Called (idText order.symbol order.orderID)
  | .advance _ _ => True

instance (s : EngineState C) : (action : EngineAction) → Decidable (NewTexts s action)
  | .submitOrder _ => inferInstanceAs (Decidable (_ ∧ _))
  | .advance _ _ => isTrue trivial

/-! ## What a move does to the orders -/

inductive IDMove (sh sh' : Shared C) (th th' : Thread C) : Prop
  | keep (hqueues : sh'.orderQueues = sh.orderQueues) (htrades : sh'.trades = sh.trades)
      (hhand : th'.inHand = th.inHand ∨ th'.inHand = none)
  | enqueue (order : SubmitOrderMsg)
      (hqueues : sh'.orderQueues = update sh.orderQueues order.symbol
        (sh.orderQueues order.symbol ++ [order]))
      (htrades : sh'.trades = sh.trades)
      (hhand : th.inHand = some (idText order.symbol order.orderID, 0))
      (hhand' : th'.inHand = none)
  | take (symbol : String) (msg : SubmitOrderMsg) (rest : List SubmitOrderMsg)
      (hqueue : sh.orderQueues symbol = msg :: rest)
      (hqueues : sh'.orderQueues = update sh.orderQueues symbol rest)
      (htrades : sh'.trades = sh.trades) (hhand : th.inHand = none)
      (hhand' : th'.inHand = some (idText symbol msg.orderID, 0))
  | trade (text : String) (n : Nat) (t : TradeExecutedEvent)
      (hqueues : sh'.orderQueues = sh.orderQueues) (htrades : sh'.trades = sh.trades ++ [t])
      (hhand : th.inHand = some (text, n)) (hhand' : th'.inHand = some (text, n + 1))
      (hid : t.tradeID = tradeIDOf text n)

theorem matchTurn_id {before : Int → Int → Prop} [DecidableRel before] {L : Levels before}
    {stops : Int → Bool} {symbol takerSide : String} {order : OrderBookEntry} {now : Int}
    {st st' : MatchState L}
    (h : matchTurn sh (fun stamp => (matchLoop L stops symbol takerSide order stamp).body) now st =
      some (sh', st')) :
    (st'.events.length = st.events.length ∧ sh'.trades = sh.trades) ∨
    ∃ t, st'.events.length = st.events.length + 1 ∧ sh'.trades = sh.trades ++ [t] ∧
      t.tradeID = tradeIDOf (idText symbol order.orderID) st.events.length := by
  obtain ⟨hturn, -⟩ := matchTurn_eq_some h
  obtain ⟨_, _, _, _, -, he | ⟨qty, he⟩⟩ := matchBody_events hturn
  · refine .inl ⟨by rw [he], ?_⟩
    have htrades := matchTurn_trades h (by rw [he, append_nil])
    rwa [append_nil] at htrades
  · exact .inr ⟨_, by rw [he, length_append, length_singleton], matchTurn_trades h he, rfl⟩

theorem nextTrade_inHand (symbol : String) (trades : List TradeExecutedEvent) :
    (Thread.worker symbol (nextTrade trades : WorkerPhase C)).inHand = none := by
  cases trades <;> rfl

theorem ThreadMove.idMove (h : ThreadMove cfg sh input th sh' th' started)
    (hnamed : ∀ order, th ≠ .submit order .drawOrderID)
    (hbooks : ∀ symbol ob, sh.orderBooks symbol = some ob → ob.symbol = symbol) :
    IDMove sh sh' th th' := by
  cases h with
  | drawOrderID order => exact absurd rfl (hnamed order)
  | drawSeq order => exact .keep rfl rfl (.inl rfl)
  | submitPublish order hcall =>
    have hsame := Publish.step_sameMarket hcall
    exact .keep hsame.orderQueues hsame.trades (.inl rfl)
  | accepted order => exact .keep rfl rfl (.inl rfl)
  | failed order e => exact .keep rfl rfl (.inr rfl)
  | enqueue order =>
    exact .enqueue order (enqueueOrder_orderQueues sh order) (enqueueOrder_history sh order).2
      rfl rfl
  | take hqueue => exact .take _ _ _ hqueue rfl rfl rfl rfl
  | beginBuy hob horder | beginSell hob horder =>
    subst horder
    exact .keep rfl rfl (.inl rfl)
  | @buyTurn symbol ob order st st' _ hob hturn | @sellTurn symbol ob order st st' _ hob hturn =>
    have hqueues := (matchTurn_frame hturn).1
    have hsymbol := hbooks _ _ hob
    rcases matchTurn_id hturn with ⟨hlength, htrades⟩ | ⟨t, hlength, htrades, hid⟩
    · exact .keep hqueues htrades (.inl (by simp only [Thread.inHand, hlength]))
    · exact .trade _ _ t hqueues htrades rfl (by simp only [Thread.inHand, hlength])
        (hsymbol ▸ hid)
  | buyDone | sellDone | published => exact .keep rfl rfl (.inr (nextTrade_inHand _ _))
  | workerPublish symbol rest hcall =>
    have hsame := Publish.step_sameMarket hcall
    exact .keep hsame.orderQueues hsame.trades (.inl rfl)

theorem ThreadMove.call? (h : ThreadMove cfg sh input th sh' th' started)
    (hnamed : ∀ order, th ≠ .submit order .drawOrderID) : th'.call? = th.call? := by
  cases h with
  | drawOrderID order => exact absurd rfl (hnamed order)
  | _ => rfl

theorem ThreadMove.named (h : ThreadMove cfg sh input th sh' th' started)
    (order : SubmitOrderMsg) : th' ≠ .submit order .drawOrderID := by
  cases h with
  | buyDone | sellDone | published | _ => exact fun heq => by cases heq

/-! ## Every order in one place -/

/-- Every order is in one place on its way to the book, under a text that was brought by a call, and
its trades so far have the numbers below the one it has reached. -/
structure IDsOk (s : EngineState C) : Prop where
  named : ∀ th ∈ s.threads, ∀ order, th ≠ .submit order .drawOrderID
  single : ∀ a b text n m, s.content a = some (text, n) → s.content b = some (text, m) → a = b
  called : ∀ a text n, s.content a = some (text, n) → s.Called text
  trades : ∀ t ∈ s.shared.trades, ∃ text n, t.tradeID = tradeIDOf text n ∧ s.Called text ∧
    ∀ a m, s.content a = some (text, m) → n < m
  distinct : (s.shared.trades.map TradeExecutedEvent.tradeID).Nodup

section

variable {s s' : EngineState C} {action : EngineAction}

theorem idsOk_new (sequencer : Sequencer) : IDsOk (newMatchEngine C sequencer) := by
  have hcontent : ∀ a, (newMatchEngine C sequencer).content a = none := by
    intro a
    cases a <;> rfl
  constructor
  · exact nofun
  · intro a b text n m ha
    rw [hcontent] at ha
    cases ha
  · intro a text n ha
    rw [hcontent] at ha
    cases ha
  · exact nofun
  · exact nodup_nil

theorem content_queue_congr (hqueues : s'.shared.orderQueues = s.shared.orderQueues)
    (symbol : String) (i : Nat) : s'.content (.queue symbol i) = s.content (.queue symbol i) := by
  rw [content_queue, content_queue, hqueues]

/-- Thread `k` has moved: the others have in hand what they had, or have just been started. -/
structure Advanced (s s' : EngineState C) (k : Nat) : Prop where
  others : ∀ j x, j ≠ k → s'.content (.thread j) = some x → s.content (.thread j) = some x
  called : ∀ text, s.Called text → s'.Called text
  named : ∀ th ∈ s'.threads, ∀ order, th ≠ .submit order .drawOrderID

section

variable {k : Nat}

/-- Orders move on without a trade: what is in a place was in another one before, and no two places
got theirs from the same. -/
theorem IDsOk.moved (hok : IDsOk s) (hadv : Advanced s s' k)
    (htrades : s'.shared.trades = s.shared.trades) (origin : Place → Place)
    (hmap : ∀ a text m', s'.content a = some (text, m') →
      ∃ m, m ≤ m' ∧ s.content (origin a) = some (text, m))
    (hinj : ∀ a b text m m', s'.content a = some (text, m) → s'.content b = some (text, m') →
      origin a = origin b → a = b) : IDsOk s' := by
  constructor
  · exact hadv.named
  · intro a b text n m ha hb
    obtain ⟨n', -, ha'⟩ := hmap a text n ha
    obtain ⟨m', -, hb'⟩ := hmap b text m hb
    exact hinj a b text n m ha hb (hok.single _ _ text n' m' ha' hb')
  · intro a text n ha
    obtain ⟨n', -, ha'⟩ := hmap a text n ha
    exact hadv.called text (hok.called _ text n' ha')
  · rw [htrades]
    intro t ht
    obtain ⟨text, n, hid, hcall, hlt⟩ := hok.trades t ht
    refine ⟨text, n, hid, hadv.called text hcall, fun a m ha => ?_⟩
    obtain ⟨m', hle, ha'⟩ := hmap a text m ha
    have hn := hlt _ m' ha'
    omega
  · rw [htrades]
    exact hok.distinct

theorem IDsOk.traded (hok : IDsOk s) (hadv : Advanced s s' k) {n : Nat} {text : String}
    {t : TradeExecutedEvent} (hqueues : s'.shared.orderQueues = s.shared.orderQueues)
    (hcontent : s.content (.thread k) = some (text, n))
    (hcontent' : s'.content (.thread k) = some (text, n + 1))
    (htrades : s'.shared.trades = s.shared.trades ++ [t]) (hid : t.tradeID = tradeIDOf text n) :
    IDsOk s' := by
  -- but for the new trade the orders have only moved on, each in its place
  have hbefore : IDsOk (⟨{ s'.shared with trades := s.shared.trades }, s'.threads⟩ :
      EngineState C) := by
    refine hok.moved ⟨hadv.others, hadv.called, hadv.named⟩ rfl id ?_ fun a b _ _ _ _ _ h => h
    intro a text' m' ha
    have ha' : s'.content a = some (text', m') := ha
    cases a with
    | queue symbol i =>
      rw [content_queue_congr hqueues] at ha'
      exact ⟨m', Nat.le_refl _, ha'⟩
    | thread j =>
      by_cases hj : j = k
      · subst hj
        rw [hcontent'] at ha'
        cases ha'
        exact ⟨n, Nat.le_succ n, hcontent⟩
      · exact ⟨m', Nat.le_refl _, hadv.others j _ hj ha'⟩
  constructor
  · exact hadv.named
  · exact hbefore.single
  · exact hbefore.called
  · rw [htrades]
    refine forall_mem_concat hbefore.trades
      ⟨text, n, hid, hadv.called text (hok.called _ text n hcontent), fun a m ha => ?_⟩
    have hak := hbefore.single a (.thread k) text m (n + 1) ha hcontent'
    rw [hak, hcontent'] at ha
    cases ha
    exact Nat.lt_succ_self n
  · rw [htrades, map_append, map_singleton]
    refine nodup_append.mpr ⟨hok.distinct, nodup_singleton _, fun id hmem id' hmem' => ?_⟩
    obtain ⟨t', ht', rfl⟩ := mem_map.mp hmem
    rw [mem_singleton.mp hmem', hid]
    intro heq
    -- an earlier trade of this order has a smaller number
    obtain ⟨text', n', hid', -, hlt⟩ := hok.trades t' ht'
    obtain ⟨htext, hn⟩ := tradeIDOf_inj (hid'.symm.trans heq)
    subst htext hn
    exact Nat.lt_irrefl _ (hlt _ _ hcontent)

theorem content_thread_advance {k j : Nat} {x : String × Nat}
    (hstarted : ∀ t ∈ started, ∃ symbol, t = .worker symbol .idle)
    (h : (mk sh' (s.threads.set k th' ++ started)).content (.thread j) = some x) :
    (j = k ∧ th'.inHand = some x) ∨ (j ≠ k ∧ s.content (.thread j) = some x) := by
  obtain ⟨t, ht, hhand⟩ := bind_eq_some_iff.mp h
  rw [List.getElem?_append] at ht
  split at ht
  · rcases getElem?_set_cases ht with ⟨rfl, rfl⟩ | ⟨hne, hj⟩
    · exact .inl ⟨rfl, hhand⟩
    · exact .inr ⟨hne, bind_eq_some_iff.mpr ⟨t, hj, hhand⟩⟩
  · obtain ⟨symbol, rfl⟩ := hstarted t (mem_of_getElem? ht)
    cases hhand

theorem content_thread_self {k : Nat} (hk : s.threads[k]? = some th) :
    (mk sh' (s.threads.set k th' ++ started)).content (.thread k) = th'.inHand := by
  rw [content_thread, getElem?_set_append hk]
  rfl

theorem called_advance {k : Nat} (hk : s.threads[k]? = some th) (hcall : th'.call? = th.call?)
    {text : String} (h : s.Called text) :
    (mk sh' (s.threads.set k th' ++ started)).Called text := by
  rcases exists_mem_set hk h th' with ⟨order, horder, htext⟩ | ⟨t, ht, hcalled⟩
  · exact ⟨th', mem_append_left _ (mem_of_getElem? (getElem?_set_self hk th')), order,
      by rw [hcall]; exact horder, htext⟩
  · exact ⟨t, mem_append_left _ ht, hcalled⟩

def enqueueOrigin (k length : Nat) (symbol : String) : Place → Place
  | .thread j => .thread j
  | .queue symbol' i =>
    if symbol' = symbol ∧ i = length then .thread k else .queue symbol' i

def takeOrigin (k : Nat) (symbol : String) : Place → Place
  | .thread j => if j = k then .queue symbol 0 else .thread j
  | .queue symbol' i => if symbol' = symbol then .queue symbol' (i + 1) else .queue symbol' i

theorem takeOrigin_injective (k : Nat) (symbol : String) :
    Function.Injective (takeOrigin k symbol) := by
  intro a b h
  cases a <;> cases b <;> simp only [takeOrigin] at h <;> split at h <;> split at h <;> grind

theorem IDsOk.enqueue (hok : IDsOk s) (hadv : Advanced s s' k)
    (htrades : s'.shared.trades = s.shared.trades) (order : SubmitOrderMsg)
    (hqueues : s'.shared.orderQueues = update s.shared.orderQueues order.symbol
      (s.shared.orderQueues order.symbol ++ [order]))
    (hhand : s.content (.thread k) = some (idText order.symbol order.orderID, 0))
    (hhand' : s'.content (.thread k) = none) : IDsOk s' := by
  have hthread : ∀ {j x}, s'.content (.thread j) = some x → j ≠ k := by
    rintro j x hj rfl
    rw [hhand'] at hj
    cases hj
  refine hok.moved hadv htrades
    (enqueueOrigin k (s.shared.orderQueues order.symbol).length order.symbol) ?_ ?_
  · intro a text m ha
    refine ⟨m, Nat.le_refl m, ?_⟩
    cases a with
    | thread j => exact hadv.others j _ (hthread ha) ha
    | queue symbol i =>
      obtain ⟨msg, hmsg, hx⟩ := map_eq_some_iff.mp ha
      rw [hqueues] at hmsg
      dsimp only [enqueueOrigin]
      by_cases hsymbol : symbol = order.symbol
      · subst hsymbol
        rw [update_self] at hmsg
        rcases getElem?_concat_cases hmsg with hold | ⟨hi, hnew⟩
        · obtain ⟨hlt, -⟩ := List.getElem?_eq_some_iff.mp hold
          rw [if_neg (fun h => Nat.ne_of_lt hlt h.2)]
          exact map_eq_some_iff.mpr ⟨msg, hold, hx⟩
        · rw [if_pos ⟨rfl, hi⟩, hhand, ← hx, hnew]
      · rw [update_of_ne hsymbol] at hmsg
        rw [if_neg (fun h => hsymbol h.1)]
        exact map_eq_some_iff.mpr ⟨msg, hmsg, hx⟩
  · intro a b text m m' ha hb heq
    cases a <;> cases b <;> simp only [enqueueOrigin] at heq
    · exact heq
    · split at heq
      · cases heq
        exact absurd rfl (hthread ha)
      · cases heq
    · split at heq
      · cases heq
        exact absurd rfl (hthread hb)
      · cases heq
    · split at heq <;> split at heq <;> grind

theorem IDsOk.take (hok : IDsOk s) (hadv : Advanced s s' k)
    (htrades : s'.shared.trades = s.shared.trades) {symbol : String} {msg : SubmitOrderMsg}
    {rest : List SubmitOrderMsg} (hqueue : s.shared.orderQueues symbol = msg :: rest)
    (hqueues : s'.shared.orderQueues = update s.shared.orderQueues symbol rest)
    (hhand' : s'.content (.thread k) = some (idText symbol msg.orderID, 0)) : IDsOk s' := by
  refine hok.moved hadv htrades (takeOrigin k symbol) ?_
    fun a b _ _ _ _ _ h => takeOrigin_injective k symbol h
  intro a text m ha
  refine ⟨m, Nat.le_refl m, ?_⟩
  unfold takeOrigin
  cases a with
  | thread j =>
    dsimp only
    by_cases hj : j = k
    · subst hj
      rw [if_pos rfl, ← ha, hhand', content_queue, hqueue]
      rfl
    · rw [if_neg hj]
      exact hadv.others j _ hj ha
  | queue symbol' i =>
    dsimp only
    rw [content_queue, hqueues] at ha
    by_cases hsymbol : symbol' = symbol
    · subst hsymbol
      rw [update_self] at ha
      rwa [if_pos rfl, content_queue, hqueue, List.getElem?_cons_succ]
    · rw [update_of_ne hsymbol] at ha
      rwa [if_neg hsymbol]

theorem IDsOk.advance (hok : IDsOk s)
    (hbooks : ∀ symbol ob, s.shared.orderBooks symbol = some ob → ob.symbol = symbol)
    (hk : s.threads[k]? = some th) (hmove : ThreadMove cfg s.shared input th sh' th' started) :
    IDsOk ⟨sh', s.threads.set k th' ++ started⟩ := by
  have hth := hok.named th (mem_of_getElem? hk)
  have hhandk : s.content (.thread k) = th.inHand := by
    rw [content_thread, hk]
    rfl
  have hhandk' : (EngineState.mk sh' (s.threads.set k th' ++ started)).content (.thread k) =
      th'.inHand := content_thread_self hk
  have hadv : Advanced s ⟨sh', s.threads.set k th' ++ started⟩ k := by
    constructor
    · intro j x hj hx
      rcases content_thread_advance hmove.started_idle hx with ⟨heq, -⟩ | ⟨-, hold⟩
      · exact absurd heq hj
      · exact hold
    · exact fun _ => called_advance hk (hmove.call? hth)
    · exact hmove.forall_threads k hok.named hmove.named fun symbol order heq => by cases heq
  cases hmove.idMove hth hbooks with
  | keep hqueues htrades hhand =>
    refine hok.moved hadv htrades id ?_ fun a b _ _ _ _ _ h => h
    intro a text m ha
    refine ⟨m, Nat.le_refl m, ?_⟩
    cases a with
    | queue symbol i => rwa [content_queue_congr hqueues] at ha
    | thread j =>
      by_cases hj : j = k
      · subst hj
        rw [hhandk'] at ha
        rcases hhand with hhand | hhand
        · rw [id_eq, hhandk, ← hhand, ha]
        · rw [hhand] at ha
          cases ha
      · exact hadv.others j _ hj ha
  | enqueue order hqueues htrades hhand hhand' =>
    exact hok.enqueue hadv htrades order hqueues (hhandk.trans hhand) (hhandk'.trans hhand')
  | take symbol msg rest hqueue hqueues htrades hhand hhand' =>
    exact hok.take hadv htrades hqueue hqueues (hhandk'.trans hhand')
  | trade text n t hqueues htrades hhand hhand' hid =>
    exact hok.traded hadv hqueues (hhandk.trans hhand) (hhandk'.trans hhand') htrades hid

end

theorem inHand_submitOrder (order : SubmitOrderMsg) :
    ∀ x ∈ (submitOrder order : Thread C).inHand, x = (idText order.symbol order.orderID, 0) :=
  submitOrder_cases order (fun _ x hx => by cases hx) (fun _ _ x hx => (Option.some.inj hx).symm)
    fun _ _ x hx => (Option.some.inj hx).symm

theorem call?_submitOrder (order : SubmitOrderMsg) :
    (submitOrder order : Thread C).call? = some order :=
  submitOrder_cases order (fun _ => rfl) (fun _ _ => rfl) fun _ _ => rfl

theorem submitOrder_named {order : SubmitOrderMsg} (hid : order.orderID ≠ "")
    (order' : SubmitOrderMsg) : (submitOrder order : Thread C) ≠ .submit order' .drawOrderID :=
  submitOrder_cases order (fun _ heq => by cases heq) (fun _ hempty => absurd hempty hid)
    fun _ _ heq => by cases heq

theorem IDsOk.submit (hok : IDsOk s) {order : SubmitOrderMsg} (hid : order.orderID ≠ "")
    (hnew : ¬ s.Called (idText order.symbol order.orderID)) :
    IDsOk { s with threads := s.threads ++ [submitOrder order] } := by
  let s' : EngineState C := { s with threads := s.threads ++ [submitOrder order] }
  -- the new call is the only new place, and its text is new
  have hplace : ∀ a x, s'.content a = some x → s.content a = some x ∨
      (a = .thread s.threads.length ∧ x = (idText order.symbol order.orderID, 0)) := by
    intro a x ha
    cases a with
    | queue symbol i => exact .inl ha
    | thread j =>
      obtain ⟨t, ht, hhand⟩ := bind_eq_some_iff.mp ha
      rcases getElem?_concat_cases ht with hold | ⟨rfl, rfl⟩
      · exact .inl (bind_eq_some_iff.mpr ⟨t, hold, hhand⟩)
      · exact .inr ⟨rfl, inHand_submitOrder order x hhand⟩
  have hcalled : ∀ text, s.Called text → s'.Called text := by
    rintro text ⟨t, ht, hcall⟩
    exact ⟨t, mem_append_left _ ht, hcall⟩
  have hfresh : ∀ a n, s.content a ≠ some (idText order.symbol order.orderID, n) :=
    fun a n ha => hnew (hok.called a _ n ha)
  constructor
  · exact forall_mem_concat hok.named (submitOrder_named hid)
  · intro a b text n m ha hb
    rcases hplace a _ ha with ha' | ⟨rfl, hx⟩ <;> rcases hplace b _ hb with hb' | ⟨rfl, hy⟩
    · exact hok.single a b text n m ha' hb'
    · cases hy
      exact absurd ha' (hfresh a n)
    · cases hx
      exact absurd hb' (hfresh b m)
    · rfl
  · intro a text n ha
    rcases hplace a _ ha with ha' | ⟨rfl, hx⟩
    · exact hcalled text (hok.called a text n ha')
    · cases hx
      exact ⟨submitOrder order, mem_append_right _ (mem_singleton_self _), order,
        call?_submitOrder order, rfl⟩
  · intro t ht
    obtain ⟨text, n, htid, hcall, hlt⟩ := hok.trades t ht
    refine ⟨text, n, htid, hcalled text hcall, fun a m ha => ?_⟩
    rcases hplace a _ ha with ha' | ⟨rfl, hx⟩
    · exact hlt a m ha'
    · cases hx
      exact absurd hcall hnew
  · exact hok.distinct

theorem IDsOk.step (hok : IDsOk s)
    (hbooks : ∀ symbol ob, s.shared.orderBooks symbol = some ob → ob.symbol = symbol)
    (hnew : NewTexts s action) (hstep : s.step cfg action = some s') : IDsOk s' := by
  rcases step_cases hstep with ⟨order, rfl, rfl⟩ |
    ⟨k, input, th, sh', th', started, rfl, hk, hmove, rfl⟩
  · exact hok.submit hnew.1 hnew.2
  · exact hok.advance hbooks hk hmove

theorem IDsOk.reaches {sequencer : Sequencer}
    (h : Run.Reaches (EngineState.step cfg) NewTexts (newMatchEngine C sequencer) s) : IDsOk s := by
  have hinv : BooksOk (fun _ _ => True) s ∧ IDsOk s :=
    h.invariant (I := fun s => BooksOk (fun _ _ => True) s ∧ IDsOk s)
      ⟨booksOk_new sequencer, idsOk_new sequencer⟩
      fun _ _ _ hs hnew hstep => ⟨hs.1.step_any hstep,
        hs.2.step (fun symbol ob hob => (hs.1.books symbol ob hob).1) hnew hstep⟩
  exact hinv.2

end

/-! ## The deduplication of the position processor -/

def OthersDelivered (trades : List TradeExecutedEvent) (i : Nat) :
    OutboxSystem → OutboxAction → Prop
  | _, .deliver event _ => ∃ j < trades.length, j ≠ i ∧ trades[j]? = some event
  | _, _ => True

theorem eventIDs_delivered {pp : PositionProcessor} {od : OutboxDispatcher} {o o' : OutboxSystem}
    {action : OutboxAction} {Q : String → Prop} (h : ∀ id ∈ o.db.eventIDs, Q id)
    (hdelivers : ∀ event input, action = .deliver event input → Q event.tradeID)
    (hstep : o.step pp od action = some o') : ∀ id ∈ o'.db.eventIDs, Q id := by
  rcases OutboxSystem.step_cases hstep with ⟨event, input, rfl, rfl⟩ |
    ⟨retentionDays, input, rfl⟩ | ⟨hids, -, -⟩
  · rcases o.deliver_cases pp event input with heq | ⟨db', -, hids, heq⟩
    · rwa [heq]
    · rw [heq]
      rw [hids]
      exact forall_mem_concat h (hdelivers event input rfl)
  · exact fun id hid => h id ((o.cleanupPublished_eventIDs od retentionDays input).2.1.subset hid)
  · rwa [hids]

/-- In every run of calls with new texts, over all books and all interleavings, no two trades have
the same id.  So whatever has been delivered, published and cleaned up of the others, the position
processor does not take a trade for one that it has processed. -/
theorem trade_ids_unique (cfg : EngineConfig) (sequencer : Sequencer) (s : EngineState C)
    (h : Run.Reaches (step cfg) NewTexts (newMatchEngine C sequencer) s) :
    (∀ (i j : Nat) (t t' : TradeExecutedEvent), i ≠ j → s.shared.trades[i]? = some t →
      s.shared.trades[j]? = some t' → t.tradeID ≠ t'.tradeID) ∧
    ∀ (pp : PositionProcessor) (od : OutboxDispatcher) (positions : List Position) (i : Nat)
      (t : TradeExecutedEvent) (o : OutboxSystem),
      s.shared.trades[i]? = some t →
      Run.Reaches (OutboxSystem.step pp od) (OthersDelivered s.shared.trades i)
        (newOutboxSystem positions) o →
      ¬ o.db.Processed t.tradeID := by
  have hdistinct := (IDsOk.reaches h).distinct
  have hne : ∀ (i j : Nat) (t t' : TradeExecutedEvent), i ≠ j → s.shared.trades[i]? = some t →
      s.shared.trades[j]? = some t' → t.tradeID ≠ t'.tradeID := by
    intro i j t t' hij ht ht' heq
    obtain ⟨hi, -⟩ := List.getElem?_eq_some_iff.mp ht
    refine hij ((List.getElem?_inj (by rw [length_map]; exact hi) hdistinct).mp ?_)
    rw [List.getElem?_map, List.getElem?_map, ht, ht', map_some, map_some, heq]
  refine ⟨hne, fun pp od positions i t o ht hrun hprocessed => ?_⟩
  have hrows : ∀ id ∈ o.db.eventIDs, id ≠ t.tradeID := by
    refine hrun.invariant (I := fun o => ∀ id ∈ o.db.eventIDs, id ≠ t.tradeID)
      (nofun) ?_
    intro o action o' ho hallowed hstep
    refine eventIDs_delivered ho ?_ hstep
    rintro event input rfl
    obtain ⟨j, -, hj, hevent⟩ := hallowed
    exact hne j i event t hj hevent ht
  exact hrows _ (mem_eventIDs.mpr hprocessed) rfl

/-! ## Two users choose the same id -/

instance (trades : List TradeExecutedEvent) (i : Nat) (o : OutboxSystem) :
    (action : OutboxAction) → Decidable (OthersDelivered trades i o action)
  | .deliver _ _ => inferInstanceAs (Decidable (∃ _, _ ∧ _))
  | .dispatchBatch | .advance _ _ | .cleanupPublished _ _ => isTrue trivial

def NamedCalls (_ : EngineState C) : EngineAction → Prop
  | .submitOrder order => order.orderID ≠ ""
  | .advance _ _ => True

instance (s : EngineState C) : (action : EngineAction) → Decidable (NamedCalls s action)
  | .submitOrder _ => inferInstanceAs (Decidable (_ ≠ _))
  | .advance _ _ => isTrue trivial

def twoPurchasesAs (first second : String) : List EngineAction :=
  .submitOrder ⟨"a", "BTC", "sell", "1", "1", "alice"⟩ :: advanceBy 0 6 ++ advanceBy 1 3 ++
  .submitOrder ⟨"b", "BTC", "sell", "1", "1", "alice"⟩ :: advanceBy 2 6 ++ advanceBy 1 3 ++
  .submitOrder ⟨first, "BTC", "buy", "1", "1", "bob"⟩ :: advanceBy 3 6 ++ advanceBy 1 8 ++
  .submitOrder ⟨second, "BTC", "buy", "1", "1", "carol"⟩ :: advanceBy 4 6 ++ advanceBy 1 8

def coinSoldTo (user orderID makerOrderID : String) (seq : Nat) : TradeExecutedEvent :=
  { seq := seq, timestamp := 0, tradeID := "BTC-" ++ orderID ++ "-0", symbolStr := "BTC",
    takerOrderID := orderID, makerOrderID := makerOrderID, takerUser := user,
    makerUser := "alice", price := 10 ^ 8, quantity := 10 ^ 8, takerSide := "buy" }

/-- Two users call their order `1`.  Their trades have one id, and the position processor skips the
second one without an error: the coin is neither taken from the seller nor given to the buyer. -/
theorem reused_order_id_discards_trade : ∃ s, Run.Reaches (step oneProcessor) NamedCalls
        (newMatchEngine sortedContainers newSequencer) s ∧
      ∃ t t', s.shared.trades = [t, t'] ∧ t ≠ t' ∧ t.tradeID = t'.tradeID ∧
      ∃ o, Run.Reaches (OutboxSystem.step amd64Processor utcDispatcher)
          (OthersDelivered [t, t'] 1) fiveCoins o ∧
        o.db.holding "alice" "BTC" = 4 * 10 ^ 8 ∧ o.db.holding t'.takerUser "BTC" = 0 ∧
        amd64Processor.processEvent ⟨0, 0, fun _ => none⟩ o.db (.tradeExecuted t') =
          (o.db, none) := by
  refine exists_reaches (twoPurchasesAs "1" "1")
    (P := fun s => s.shared.trades = [coinSoldTo "bob" "1" "a" 7, coinSoldTo "carol" "1" "b" 10])
    (by decide +kernel) fun _ _ htrades => ?_
  exact ⟨_, _, htrades, by decide, rfl, exists_reaches
    [.deliver (coinSoldTo "bob" "1" "a" 7) ⟨0, 0, fun _ => none⟩] (by decide +kernel)
    fun _ _ h => h⟩

/-- Under different ids the second trade is not taken for the first. -/
theorem own_order_ids_not_skipped : ∃ s, Run.Reaches (step oneProcessor) NewTexts
        (newMatchEngine sortedContainers newSequencer) s ∧
      ∃ t t', s.shared.trades = [t, t'] ∧ t.tradeID ≠ t'.tradeID ∧
      ∃ o, Run.Reaches (OutboxSystem.step amd64Processor utcDispatcher)
          (OthersDelivered s.shared.trades 1) fiveCoins o ∧
        o.db.holding "alice" "BTC" = 4 * 10 ^ 8 ∧ ¬ o.db.Processed t'.tradeID := by
  refine exists_reaches (twoPurchasesAs "1" "2")
    (P := fun s => s.shared.trades = [coinSoldTo "bob" "1" "a" 7, coinSoldTo "carol" "2" "b" 10])
    (by decide +kernel) fun s hs htrades => ?_
  obtain ⟨hne, hnew⟩ := trade_ids_unique oneProcessor newSequencer s hs
  have hfirst : s.shared.trades[0]? = some (coinSoldTo "bob" "1" "a" 7) := by rw [htrades]; rfl
  have hsecond : s.shared.trades[1]? = some (coinSoldTo "carol" "2" "b" 10) := by rw [htrades]; rfl
  refine ⟨_, _, htrades, hne 0 1 _ _ (by decide) hfirst hsecond, ?_⟩
  rw [htrades] at hnew hsecond ⊢
  exact exists_reaches [.deliver (coinSoldTo "bob" "1" "a" 7) ⟨0, 0, fun _ => none⟩]
    (P := fun o => o.db.holding "alice" "BTC" = 4 * 10 ^ 8) (by decide +kernel)
    fun o ho hholding => ⟨hholding, hnew _ _ _ 1 _ o hsecond ho⟩

end CexHertz
