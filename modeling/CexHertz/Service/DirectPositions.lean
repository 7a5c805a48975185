import CexHertz.Service.PositionTransactions

/-!
# Positions without a transaction

`handleTradeExecuted`, the path of a `PositionProcessor` without an outbox: two independent calls,
and a marker of the trade. With a `ProcessedRepo` the marker is a row that is inserted before the
legs and deleted when one fails; without, an entry of a map that is set after both. A delivery that
fails between the legs leaves the first one in place and the trade unmarked.
-/

namespace CexHertz

open List

/-! ## The processor -/

structure DirectInput where
  writeIfNotExists : Option String
  buyPositionFn : Option String
  sellPositionFn : Option String
  delete : Option String

def PositionLeg.isBuy : PositionLeg → Bool
  | .buy _ _ _ _ => true
  | .sell _ _ _ => false

def DirectInput.answer (input : DirectInput) : PositionLeg → Option String
  | .buy _ _ _ _ => input.buyPositionFn
  | .sell _ _ _ => input.sellPositionFn

/-- The trades marked in the map, and in the table if there is one.  Two history variables: the legs
that have taken effect, with their trade, and the trades of which a delivery has returned nil. -/
structure DirectProcessor where
  processedTrades : List String
  processedRepo : Option (List String)
  effects : List (String × PositionLeg)
  acknowledged : List String
  deriving DecidableEq

def newDirectProcessor (withRepo : Bool) : DirectProcessor where
  processedTrades := []
  processedRepo := if withRepo then some [] else none
  effects := []
  acknowledged := []

/-- `ProcessedRepo.WriteIfNotExists`: the answer tells whether a row was added. -/
def writeIfNotExists (rows : List String) (fault : Option String) (eventID : String) :
    Except String (Bool × List String) :=
  match fault with
  | some err => .error err
  | none => if eventID ∈ rows then .ok (false, rows) else .ok (true, rows ++ [eventID])

/-- `ProcessedRepo.Delete`; its caller drops the error. -/
def deleteProcessed (rows : List String) (fault : Option String) (eventID : String) : List String :=
  match fault with
  | some _ => rows
  | none => rows.filter fun row => row ≠ eventID

def applyLegs (input : DirectInput) : List PositionLeg → List PositionLeg × Option String
  | [] => ([], none)
  | leg :: rest =>
    match input.answer leg with
    | some err => ([], some err)
    | none => (leg :: (applyLegs input rest).1, (applyLegs input rest).2)

namespace DirectProcessor

def handleTradeExecuted (s : DirectProcessor) (input : DirectInput) (e : TradeExecutedEvent) :
    DirectProcessor × Option String :=
  let (applied, opErr) := applyLegs input e.legs
  let effects := s.effects ++ applied.map fun leg => (e.tradeID, leg)
  match s.processedRepo with
  | some rows =>
    match writeIfNotExists rows input.writeIfNotExists e.tradeID with
    | .error perr => (s, some perr)
    | .ok (false, _) => (s, none)
    | .ok (true, rows) =>
      match opErr with
      | some err =>
        ({ s with
          processedRepo := some (deleteProcessed rows input.delete e.tradeID)
          effects := effects }, some err)
      | none => ({ s with processedRepo := some rows, effects := effects }, none)
  | none =>
    if e.tradeID ∈ s.processedTrades then (s, none)
    else
      match opErr with
      | some err => ({ s with effects := effects }, some err)
      | none =>
        ({ s with
          processedTrades := s.processedTrades ++ [e.tradeID], effects := effects }, none)

end DirectProcessor

structure DirectDelivery where
  event : TradeExecutedEvent
  input : DirectInput

namespace DirectDelivery

def first (d : DirectDelivery) : Option String :=
  if d.event.takerSide = "buy" then d.input.buyPositionFn else d.input.sellPositionFn

def second (d : DirectDelivery) : Option String :=
  if d.event.takerSide = "buy" then d.input.sellPositionFn else d.input.buyPositionFn

/-- The delivery gets nowhere, does both legs, or does none and takes its marker back. -/
def Whole (withRepo : Bool) (d : DirectDelivery) : Prop :=
  (withRepo = true ∧ d.input.writeIfNotExists ≠ none) ∨
  (d.first = none ∧ d.second = none) ∨
  (d.first ≠ none ∧ (withRepo = true → d.input.delete = none))

instance (withRepo : Bool) (d : DirectDelivery) : Decidable (d.Whole withRepo) :=
  inferInstanceAs (Decidable (_ ∨ _ ∨ _))

end DirectDelivery

namespace DirectProcessor

def step (s : DirectProcessor) (d : DirectDelivery) : Option DirectProcessor :=
  let (s', err) := s.handleTradeExecuted d.input d.event
  some
    { s' with
      acknowledged :=
        if err = none then s.acknowledged ++ [d.event.tradeID] else s.acknowledged }

def times (s : DirectProcessor) (buys : Bool) (tradeID : String) : Nat :=
  s.effects.countP fun effect => effect.1 = tradeID ∧ effect.2.isBuy = buys

/-- Every leg at most once, and both once a delivery of the trade has returned nil. -/
def LegsOnce (s : DirectProcessor) : Prop :=
  ∀ tradeID buys, s.times buys tradeID ≤ 1 ∧ (tradeID ∈ s.acknowledged → s.times buys tradeID = 1)

def Marked (s : DirectProcessor) (tradeID : String) : Prop :=
  match s.processedRepo with
  | some rows => tradeID ∈ rows
  | none => tradeID ∈ s.processedTrades

end DirectProcessor

/-! ## What a delivery does -/

theorem DirectDelivery.legs_eq (d : DirectDelivery) :
    ∃ a b, d.event.legs = [a, b] ∧ d.input.answer a = d.first ∧ d.input.answer b = d.second ∧
      b.isBuy = !a.isBuy := by
  unfold TradeExecutedEvent.legs first second
  split
  · exact ⟨_, _, rfl, rfl, rfl, rfl⟩
  · exact ⟨_, _, rfl, rfl, rfl, rfl⟩

def DirectDelivery.outcome (d : DirectDelivery) : List PositionLeg × Option String :=
  applyLegs d.input d.event.legs

section

variable {d : DirectDelivery}

theorem outcome_none (h : d.first ≠ none) : ∃ err, d.outcome = ([], some err) := by
  obtain ⟨a, b, hlegs, ha, -, -⟩ := d.legs_eq
  obtain ⟨err, herr⟩ := Option.ne_none_iff_exists'.mp h
  refine ⟨err, ?_⟩
  unfold DirectDelivery.outcome
  rw [hlegs, applyLegs, ha, herr]

theorem outcome_half (hfirst : d.first = none) (hsecond : d.second ≠ none) :
    ∃ leg err, d.outcome = ([leg], some err) := by
  obtain ⟨a, b, hlegs, ha, hb, -⟩ := d.legs_eq
  obtain ⟨err, herr⟩ := Option.ne_none_iff_exists'.mp hsecond
  refine ⟨a, err, ?_⟩
  unfold DirectDelivery.outcome
  rw [hlegs, applyLegs, ha, hfirst]
  rw [applyLegs, hb, herr]

theorem outcome_whole (hfirst : d.first = none) (hsecond : d.second = none) :
    ∃ a b, d.outcome = ([a, b], none) ∧ b.isBuy = !a.isBuy := by
  obtain ⟨a, b, hlegs, ha, hb, hkind⟩ := d.legs_eq
  refine ⟨a, b, ?_, hkind⟩
  unfold DirectDelivery.outcome
  rw [hlegs, applyLegs, ha, hfirst]
  rw [applyLegs, hb, hsecond, applyLegs]

end

namespace DirectProcessor

variable {withRepo : Bool} {s s' : DirectProcessor} {d : DirectDelivery}

inductive Move (withRepo : Bool) (s : DirectProcessor) (d : DirectDelivery) : DirectProcessor → Prop
  | failed (hrepo : withRepo = true) (hinsert : d.input.writeIfNotExists ≠ none) :
      Move withRepo s d s
  | skipped (hinsert : withRepo = true → d.input.writeIfNotExists = none)
      (hmarked : s.Marked d.event.tradeID) :
      Move withRepo s d { s with acknowledged := s.acknowledged ++ [d.event.tradeID] }
  | called {s' : DirectProcessor} (hinsert : withRepo = true → d.input.writeIfNotExists = none)
      (hnew : ¬ s.Marked d.event.tradeID) (hrepo : s'.processedRepo.isSome = withRepo)
      (heffects : s'.effects = s.effects ++ d.outcome.1.map fun leg => (d.event.tradeID, leg))
      (hmarked : ∀ tradeID, s'.Marked tradeID ↔ s.Marked tradeID ∨ tradeID = d.event.tradeID ∧
        (d.outcome.2 = none ∨ withRepo = true ∧ d.input.delete ≠ none))
      (hack : s'.acknowledged =
        if d.outcome.2 = none then s.acknowledged ++ [d.event.tradeID] else s.acknowledged) :
      Move withRepo s d s'

theorem mem_deleteProcessed_append {rows : List String} {eventID : String} (hnew : eventID ∉ rows)
    (fault : Option String) (tradeID : String) :
    tradeID ∈ deleteProcessed (rows ++ [eventID]) fault eventID ↔
      tradeID ∈ rows ∨ tradeID = eventID ∧ fault ≠ none := by
  unfold deleteProcessed
  cases fault with
  | some err => simp
  | none =>
    have hfilter : (rows ++ [eventID]).filter (fun row => row ≠ eventID) = rows := by
      rw [filter_append, filter_cons_of_neg (by simp), filter_nil, append_nil, filter_eq_self]
      intro row hrow
      exact decide_eq_true fun heq => hnew (heq ▸ hrow)
    rw [hfilter]
    simp

theorem step_move_repo {rows : List String} (hrepo : s.processedRepo = some rows)
    (h : s.step d = some s') : Move true s d s' := by
  obtain ⟨trades, repo, effects, acknowledged⟩ := s
  cases hrepo
  obtain ⟨applied, opErr, hout⟩ : ∃ applied opErr, d.outcome = (applied, opErr) := ⟨_, _, rfl⟩
  have hlegs : applyLegs d.input d.event.legs = (applied, opErr) := hout
  unfold step handleTradeExecuted at h
  rw [hlegs] at h
  cases hinsert : d.input.writeIfNotExists with
  | some err =>
    rw [hinsert] at h
    cases h
    exact .failed rfl (by rw [hinsert]; exact Option.some_ne_none err)
  | none =>
    rw [hinsert] at h
    unfold writeIfNotExists at h
    dsimp only at h
    by_cases hmem : d.event.tradeID ∈ rows
    · rw [if_pos hmem] at h
      cases h
      exact .skipped (fun _ => hinsert) hmem
    · rw [if_neg hmem] at h
      cases opErr with
      | none =>
        cases h
        refine .called (fun _ => hinsert) hmem rfl (by rw [hout]) (fun tradeID => ?_)
          (by rw [hout])
        show tradeID ∈ rows ++ [d.event.tradeID] ↔ _
        rw [hout, mem_append, mem_singleton]
        simp [Marked]
      | some err =>
        cases h
        refine .called (fun _ => hinsert) hmem rfl (by rw [hout]) (fun tradeID => ?_)
          (by rw [hout])
        show tradeID ∈ deleteProcessed _ _ _ ↔ _
        rw [mem_deleteProcessed_append hmem, hout]
        simp [Marked]

theorem step_move_map (hrepo : s.processedRepo = none) (h : s.step d = some s') :
    Move false s d s' := by
  obtain ⟨trades, repo, effects, acknowledged⟩ := s
  cases hrepo
  obtain ⟨applied, opErr, hout⟩ : ∃ applied opErr, d.outcome = (applied, opErr) := ⟨_, _, rfl⟩
  have hlegs : applyLegs d.input d.event.legs = (applied, opErr) := hout
  unfold step handleTradeExecuted at h
  rw [hlegs] at h
  dsimp only at h
  by_cases hmem : d.event.tradeID ∈ trades
  · rw [if_pos hmem] at h
    cases h
    exact .skipped (fun hrepo => by cases hrepo) hmem
  · rw [if_neg hmem] at h
    cases opErr with
    | none =>
      cases h
      refine .called (fun hrepo => by cases hrepo) hmem rfl (by rw [hout]) (fun tradeID => ?_)
        (by rw [hout])
      show tradeID ∈ trades ++ [d.event.tradeID] ↔ _
      rw [hout, mem_append, mem_singleton]
      simp [Marked]
    | some err =>
      cases h
      refine .called (fun hrepo => by cases hrepo) hmem rfl (by rw [hout]) (fun tradeID => ?_)
        (by rw [hout])
      show tradeID ∈ trades ↔ _
      rw [hout]
      simp [Marked]

theorem step_move (hrepo : s.processedRepo.isSome = withRepo) (h : s.step d = some s') :
    Move withRepo s d s' := by
  subst hrepo
  cases hrows : s.processedRepo with
  | some rows => exact step_move_repo hrows h
  | none => exact step_move_map hrows h

/-! ## Whole deliveries -/

theorem times_append {legs : List PositionLeg} {tradeID : String}
    (h : s'.effects = s.effects ++ legs.map fun leg => (tradeID, leg)) (buys : Bool) (t : String) :
    s'.times buys t =
      s.times buys t + if t = tradeID then legs.countP fun leg => leg.isBuy = buys else 0 := by
  unfold times
  rw [h, countP_append, countP_map]
  congr 1
  split
  next heq => exact countP_congr fun leg _ => by simp [heq]
  next hne => exact List.countP_eq_zero.mpr fun leg _ => by simp [Ne.symm hne]

structure Ok (withRepo : Bool) (s : DirectProcessor) : Prop where
  repo : s.processedRepo.isSome = withRepo
  marked : ∀ tradeID, s.Marked tradeID → ∀ buys, s.times buys tradeID = 1
  unmarked : ∀ tradeID, ¬ s.Marked tradeID → ∀ buys, s.times buys tradeID = 0
  acknowledged : ∀ tradeID ∈ s.acknowledged, s.Marked tradeID

theorem Ok.new (withRepo : Bool) : Ok withRepo (newDirectProcessor withRepo) := by
  have hnone : ∀ tradeID, ¬ (newDirectProcessor withRepo).Marked tradeID := by
    intro tradeID
    cases withRepo <;> exact not_mem_nil
  constructor
  · cases withRepo <;> rfl
  · exact fun tradeID h => absurd h (hnone tradeID)
  · exact fun _ _ _ => rfl
  · exact nofun

theorem Ok.legsOnce (h : Ok withRepo s) : s.LegsOnce := by
  intro tradeID buys
  by_cases hmarked : s.Marked tradeID
  · have honce := h.marked tradeID hmarked buys
    exact ⟨honce.le, fun _ => honce⟩
  · have hnone := h.unmarked tradeID hmarked buys
    exact ⟨hnone.trans_le (Nat.zero_le 1), fun hack => absurd (h.acknowledged _ hack) hmarked⟩

-- Each of the two legs is counted once.
theorem countP_whole {a b : PositionLeg} (h : b.isBuy = !a.isBuy) (buys : Bool) :
    [a, b].countP (fun leg => leg.isBuy = buys) = 1 := by
  simp only [countP_cons, countP_nil, h]
  cases a.isBuy <;> cases buys <;> rfl

theorem Ok.step (h : Ok withRepo s) (hwhole : d.Whole withRepo) (hstep : s.step d = some s') :
    Ok withRepo s' := by
  cases step_move h.repo hstep with
  | failed => exact h
  | skipped hinsert hmarked =>
    refine ⟨h.repo, h.marked, h.unmarked, fun tradeID hack => ?_⟩
    rcases List.mem_append.mp hack with hold | hnew
    · exact h.acknowledged tradeID hold
    · rwa [List.mem_singleton.mp hnew]
  | called hinsert hnew hrepo heffects hmarked hack =>
    rcases hwhole with ⟨hwith, hfailed⟩ | ⟨hfirst, hsecond⟩ | ⟨hfirst, hdelete⟩
    · exact absurd (hinsert hwith) hfailed
    · -- both legs take effect and the trade is marked
      obtain ⟨a, b, hout, hkind⟩ := outcome_whole hfirst hsecond
      rw [hout] at heffects hmarked hack
      have htimes := times_append heffects
      simp only [true_or, and_true, if_true] at hmarked hack
      refine ⟨hrepo, fun tradeID hm buys => ?_, fun tradeID hm buys => ?_, fun tradeID hm => ?_⟩
      · rw [htimes, countP_whole hkind]
        split
        next heq => rw [heq, h.unmarked _ hnew]
        next hne =>
          rw [h.marked tradeID (((hmarked tradeID).mp hm).resolve_right hne)]
      · rw [hmarked, not_or] at hm
        rw [htimes, if_neg hm.2, h.unmarked tradeID hm.1]
      · rw [hmarked]
        rw [hack, mem_append, mem_singleton] at hm
        exact hm.imp_left (h.acknowledged tradeID)
    · -- neither does, and the marker is gone again
      obtain ⟨err, hout⟩ := outcome_none hfirst
      rw [hout] at heffects hmarked hack
      have hsame : ∀ tradeID, s'.Marked tradeID ↔ s.Marked tradeID := by
        intro tradeID
        rw [hmarked]
        refine or_iff_left ?_
        rintro ⟨-, hnone | ⟨hwith, hkept⟩⟩
        · cases hnone
        · exact hkept (hdelete hwith)
      have htimes : ∀ buys tradeID, s'.times buys tradeID = s.times buys tradeID := by
        intro buys tradeID
        rw [times_append heffects]
        split <;> rfl
      refine ⟨hrepo, fun tradeID hm buys => ?_, fun tradeID hm buys => ?_, fun tradeID hm => ?_⟩
      · rw [htimes, h.marked tradeID ((hsame tradeID).mp hm)]
      · rw [htimes, h.unmarked tradeID fun hold => hm ((hsame tradeID).mpr hold)]
      · rw [hsame]
        exact h.acknowledged tradeID (by rw [hack] at hm; exact hm)

/-! ## Two deliveries of a trade that is not whole -/

theorem not_legsOnce_of_marked (hinsert : withRepo = true → d.input.writeIfNotExists = none)
    (hrepo : s.processedRepo.isSome = withRepo) (hmarked : s.Marked d.event.tradeID) (buys : Bool)
    (hmissing : s.times buys d.event.tradeID = 0) (hstep : s.step d = some s') :
    ¬ s'.LegsOnce := by
  cases step_move hrepo hstep with
  | failed hwith hfailed => exact absurd (hinsert hwith) hfailed
  | skipped =>
    intro honce
    have hone := (honce d.event.tradeID buys).2 (mem_append_right _ mem_cons_self)
    exact absurd (hmissing.symm.trans hone) (by decide)
  | called _ hnew => exact absurd hmarked hnew

theorem not_legsOnce_of_twice (hbad : ¬ d.Whole withRepo) {s₁ s₂ : DirectProcessor}
    (h₁ : (newDirectProcessor withRepo).step d = some s₁) (h₂ : s₁.step d = some s₂) :
    ¬ s₂.LegsOnce := by
  unfold DirectDelivery.Whole at hbad
  rw [not_or, not_or] at hbad
  obtain ⟨hcalled, hnotBoth, hnotNone⟩ := hbad
  have hnew := Ok.new withRepo
  cases step_move hnew.repo h₁ with
  | failed hwith hfailed => exact absurd ⟨hwith, hfailed⟩ hcalled
  | skipped hinsert hmarked => exact absurd (hnew.marked _ hmarked true) (show ¬ 0 = 1 by decide)
  | called hinsert hunmarked hrepo heffects hmarked hack =>
    have htimes := times_append heffects
    by_cases hfirst : d.first = none
    · obtain ⟨leg, err, hout⟩ := outcome_half hfirst fun hsecond => hnotBoth ⟨hfirst, hsecond⟩
      rw [hout] at htimes hmarked
      simp only [reduceCtorEq, false_or] at hmarked
      by_cases hkept : withRepo = true ∧ d.input.delete ≠ none
      · -- the marker stays and the second leg is never called
        refine not_legsOnce_of_marked hinsert hrepo
          ((hmarked _).mpr (.inr ⟨rfl, hkept⟩)) (!leg.isBuy) ?_ h₂
        rw [htimes, hnew.unmarked _ hunmarked]
        simp
      · -- the marker is gone and the first leg is called again
        have hgone : ¬ s₁.Marked d.event.tradeID := fun hm =>
          ((hmarked _).mp hm).elim hunmarked fun h => hkept h.2
        cases step_move hrepo h₂ with
        | failed hwith hfailed => exact absurd ⟨hwith, hfailed⟩ hcalled
        | skipped _ hm => exact absurd hm hgone
        | called _ _ _ heffects₂ =>
          intro honce
          have hle := (honce d.event.tradeID leg.isBuy).1
          rw [times_append heffects₂, htimes, hout, hnew.unmarked _ hunmarked] at hle
          simp at hle
    · -- nothing was done and the marker stays
      have hkept : withRepo = true ∧ d.input.delete ≠ none := by
        by_contra hgone
        exact hnotNone ⟨hfirst, fun hwith => by_contra fun hdelete => hgone ⟨hwith, hdelete⟩⟩
      obtain ⟨err, hout⟩ := outcome_none hfirst
      refine not_legsOnce_of_marked hinsert hrepo
        ((hmarked _).mpr (.inr ⟨rfl, .inr hkept⟩)) true ?_ h₂
      rw [htimes, hnew.unmarked _ hunmarked, hout]
      simp

/-- For deliveries of a given kind: in every run each leg takes effect at most once, and both once a
delivery has returned nil, exactly when all these deliveries are whole. -/
theorem legsOnce_iff_whole (withRepo : Bool) (kind : DirectDelivery → Prop) :
    (∀ s, Run.Reaches step (fun _ d => kind d) (newDirectProcessor withRepo) s → s.LegsOnce) ↔
      ∀ d, kind d → d.Whole withRepo := by
  constructor
  · intro honce d hd
    by_contra hbad
    obtain ⟨s₁, h₁⟩ : ∃ s₁, (newDirectProcessor withRepo).step d = some s₁ := ⟨_, rfl⟩
    obtain ⟨s₂, h₂⟩ : ∃ s₂, s₁.step d = some s₂ := ⟨_, rfl⟩
    exact not_legsOnce_of_twice hbad h₁ h₂ (honce s₂ (.step (.step .refl hd h₁) hd h₂))
  · intro hwhole s hreach
    have hok : Ok withRepo s :=
      hreach.invariant (Ok.new withRepo) fun _ d _ h hd hstep => h.step (hwhole d hd) hstep
    exact hok.legsOnce

end DirectProcessor

def coinTrade : TradeExecutedEvent :=
  { seq := 1, timestamp := 0, tradeID := "t1", symbolStr := "BTC", takerOrderID := "o2",
    makerOrderID := "o1", takerUser := "alice", makerUser := "bob", price := 10 ^ 8,
    quantity := 10 ^ 8, takerSide := "buy" }

/-- Bob's position cannot be updated at first; the delivery is repeated and succeeds.  Alice has
bought twice from the one sale of bob. -/
theorem retry_repeats_first_leg (withRepo : Bool) :
    ∃ s, Run.Reaches DirectProcessor.step (fun _ _ => True) (newDirectProcessor withRepo) s ∧
      s.times true "t1" = 2 ∧ s.times false "t1" = 1 ∧ s.acknowledged = ["t1"] := by
  exact Run.exists_reaches
    [⟨coinTrade, ⟨none, none, some "timeout", none⟩⟩, ⟨coinTrade, ⟨none, none, none, none⟩⟩]
    (by cases withRepo <;> decide +kernel) fun _ _ h => h

theorem not_legsOnce_of_two {s : DirectProcessor} (h : s.times true "t1" = 2) : ¬ s.LegsOnce := by
  intro honce
  have hle := (honce "t1" true).1
  omega

/-- With the table and without. -/
theorem retried_trade_buys_twice :
    (∃ s, Run.Reaches DirectProcessor.step (fun _ _ => True) (newDirectProcessor true) s ∧
      s.times true "t1" = 2 ∧ s.acknowledged = ["t1"] ∧ ¬ s.LegsOnce) ∧
    ∃ s, Run.Reaches DirectProcessor.step (fun _ _ => True) (newDirectProcessor false) s ∧
      s.times true "t1" = 2 ∧ s.acknowledged = ["t1"] ∧ ¬ s.LegsOnce := by
  obtain ⟨s, hreach, htwice, -, hack⟩ := retry_repeats_first_leg true
  obtain ⟨s', hreach', htwice', -, hack'⟩ := retry_repeats_first_leg false
  exact ⟨⟨s, hreach, htwice, hack, not_legsOnce_of_two htwice⟩,
    s', hreach', htwice', hack', not_legsOnce_of_two htwice'⟩

end CexHertz
