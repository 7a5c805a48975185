import CexHertz.Service.Holdings

/-!
# Runs of trade deliveries

What a delivery should do, and which runs keep to it. A traded quantity travels to the position
tables as text; the runs that conserve holdings are those whose quantities come back unchanged.
-/

namespace CexHertz

open List

open Model (Survives)

/-! ## Deliveries -/

/-- One delivery of a trade event whose amounts are `int64` values, the quantity positive. -/
structure TradeDelivery where
  event : TradeExecutedEvent
  input : TxInput
  price_range : |event.price| ≤ 2 ^ 63
  quantity_pos : 0 < event.quantity
  quantity_lt : event.quantity < 2 ^ 63

def PositionDb.Processed (db : PositionDb) (eventID : String) : Prop :=
  ∃ row ∈ db.outbox, row.eventID = eventID

structure Transferred (pp : PositionProcessor) (db db' : PositionDb) (d : TradeDelivery) :
    Prop where
  outbox : db'.outbox = db.outbox ++ [outboxEntry pp d.input d.event]
  bought : d.event.buyer ≠ d.event.seller → db'.holding d.event.buyer d.event.symbolStr =
    db.holding d.event.buyer d.event.symbolStr + d.event.quantity
  sold : d.event.buyer ≠ d.event.seller → db'.holding d.event.seller d.event.symbolStr =
    db.holding d.event.seller d.event.symbolStr - d.event.quantity
  net_zero : d.event.buyer = d.event.seller → db'.holding d.event.buyer d.event.symbolStr =
    db.holding d.event.buyer d.event.symbolStr
  others : ∀ k, k ≠ (d.event.buyer, d.event.symbolStr) → k ≠ (d.event.seller, d.event.symbolStr) →
    Table.row Position.key k db'.positions = Table.row Position.key k db.positions

section

variable (pp : PositionProcessor) (db : PositionDb) (d : TradeDelivery)

def deliver : PositionDb × Option String :=
  pp.processEvent d.input db (.tradeExecuted d.event)

/-- A delivery fails without a trace, skips a duplicate, or transfers the traded quantity. -/
def Atomic : Prop :=
  ((deliver pp db d).2 ≠ none ∧ (deliver pp db d).1 = db) ∨
  ((deliver pp db d).2 = none ∧ db.Processed d.event.tradeID ∧ (deliver pp db d).1 = db) ∨
  ((deliver pp db d).2 = none ∧ ¬ db.Processed d.event.tradeID ∧
    Transferred pp db (deliver pp db d).1 d)

def FailsIfUncovered : Prop :=
  d.event.buyer ≠ d.event.seller → (∀ c, d.input.fault c = none) → ¬ db.Processed d.event.tradeID →
    ((deliver pp db d).2 ≠ none ↔ db.holding d.event.seller d.event.symbolStr < d.event.quantity)

def reserved : PositionDb :=
  { db with outbox := db.outbox ++ [outboxEntry pp d.input d.event] }

end

section

variable {pp : PositionProcessor} {db db' : PositionDb} {d : TradeDelivery}

theorem processed_iff_any (db : PositionDb) (eventID : String) :
    db.Processed eventID ↔ db.outbox.any (fun row => row.eventID = eventID) = true := by
  simp [PositionDb.Processed]

theorem handleTradeExecutedTransactional_cases (pp : PositionProcessor) (input : TxInput)
    (db : PositionDb) (e : TradeExecutedEvent) :
    (∃ msg, handleTradeExecutedTransactional pp input db e = (db, some msg)) ∨
    (db.Processed e.tradeID ∧ handleTradeExecutedTransactional pp input db e = (db, none)) ∨
    (∃ db', ¬ db.Processed e.tradeID ∧
      moveQuantity pp input { db with outbox := db.outbox ++ [outboxEntry pp input e] } e =
        .ok db' ∧
      handleTradeExecutedTransactional pp input db e = (db', none)) := by
  unfold handleTradeExecutedTransactional transaction
  dsimp only
  split
  · exact .inl ⟨_, rfl⟩
  · unfold tradeTransaction writeOutboxEntryIfNotExists
    rw [processed_iff_any]
    split
    · exact .inl ⟨_, rfl⟩
    next hbody =>
      split
      · exact .inl ⟨_, rfl⟩
      · split at hbody
        · cases hbody
        next heq =>
          split at heq
          · cases heq
          · split at heq
            next hany =>
              cases heq
              cases hbody
              exact .inr (.inl ⟨hany, rfl⟩)
            · cases heq
        next heq =>
          split at heq
          · cases heq
          · split at heq
            · cases heq
            next hany =>
              cases heq
              exact .inr (.inr ⟨_, hany, hbody, rfl⟩)

theorem deliver_cases (pp : PositionProcessor) (db : PositionDb) (d : TradeDelivery) :
    (∃ msg, deliver pp db d = (db, some msg)) ∨
    (db.Processed d.event.tradeID ∧ deliver pp db d = (db, none)) ∨
    (∃ db', ¬ db.Processed d.event.tradeID ∧
      moveQuantity pp d.input (reserved pp db d) d.event = .ok db' ∧
      deliver pp db d = (db', none)) :=
  handleTradeExecutedTransactional_cases pp d.input db d.event

-- A new trade without faults succeeds exactly when its move does.
theorem deliver_of_noFault (hfault : ∀ c, d.input.fault c = none)
    (hnew : ¬ db.Processed d.event.tradeID) :
    deliver pp db d = match moveQuantity pp d.input (reserved pp db d) d.event with
      | .error msg => (db, some msg)
      | .ok db' => (db', none) := by
  have hany : db.outbox.any (fun row => row.eventID = d.event.tradeID) = false := by
    rw [Bool.eq_false_iff]
    exact fun h => hnew ((processed_iff_any _ _).mpr h)
  unfold deliver PositionProcessor.processEvent handleTradeExecutedTransactional transaction
    tradeTransaction writeOutboxEntryIfNotExists
  simp only [hfault]
  rw [show (outboxEntry pp d.input d.event).eventID = d.event.tradeID from rfl, hany]
  rfl

theorem PositionDb.Sound.reserved (h : db.Sound) : (reserved pp db d).Sound :=
  ⟨h.unique, h.nonneg, h.total_lt⟩

-- The event's quantity is an `int64`, so the conversion loses nothing.
theorem TradeDelivery.toInt_quantity (d : TradeDelivery) :
    (Int64.ofInt d.event.quantity).toInt = d.event.quantity := by
  have hpos := d.quantity_pos
  exact Int64.toInt_ofInt_of_le (by omega) d.quantity_lt

theorem deliver_step (hsound : db.Sound) (hq : Survives pp.conv d.event.quantity) :
    Atomic pp db d ∧ (deliver pp db d).1.Sound ∧
      ∀ symbol, (deliver pp db d).1.total symbol = db.total symbol := by
  have hpos : 0 < (Int64.ofInt d.event.quantity).toInt := by
    rw [d.toInt_quantity]
    exact d.quantity_pos
  unfold Atomic
  rcases deliver_cases pp db d with ⟨msg, heq⟩ | ⟨hdup, heq⟩ | ⟨db', hnew, hmove, heq⟩
  · rw [heq]
    exact ⟨.inl ⟨nofun, rfl⟩, hsound, fun _ => rfl⟩
  · rw [heq]
    exact ⟨.inr (.inl ⟨rfl, hdup, rfl⟩), hsound, fun _ => rfl⟩
  · rw [heq]
    have hmoved := moveQuantity_moved hmove hq
    have hreserved : (reserved pp db d).Sound := hsound.reserved
    refine ⟨.inr (.inr ⟨rfl, hnew, ?_⟩), hmoved.sound hreserved hpos, ?_⟩
    · constructor
      · exact hmoved.outbox
      · intro hne
        have h := (hmoved.holdings hreserved hpos hne).1
        rwa [d.toInt_quantity] at h
      · intro hne
        have h := (hmoved.holdings hreserved hpos hne).2
        rwa [d.toInt_quantity] at h
      · exact fun hsame => congrArg Int64.toInt (hmoved.kept hsame)
      · exact hmoved.others
    · exact hmoved.total_eq hreserved hpos

theorem deliver_failsIfUncovered (hsound : db.Sound) (hq : Survives pp.conv d.event.quantity) :
    FailsIfUncovered pp db d := by
  intro hne hfault hnew
  have hpos : 0 < (Int64.ofInt d.event.quantity).toInt := by
    rw [d.toInt_quantity]
    exact d.quantity_pos
  have hreserved : (reserved pp db d).Sound := hsound.reserved
  have hiff := moveQuantity_ok_iff hreserved hfault hq hpos d.price_range hne
  rw [d.toInt_quantity] at hiff
  change _ ↔ d.event.quantity ≤ db.holding d.event.seller d.event.symbolStr at hiff
  rw [deliver_of_noFault hfault hnew]
  cases hmove : moveQuantity pp d.input (reserved pp db d) d.event with
  | error msg =>
    have hnot := mt hiff.mpr (by rw [hmove]; rintro ⟨_, h⟩; cases h)
    simp only [ne_eq, reduceCtorEq, not_false_eq_true, true_iff]
    omega
  | ok db' =>
    have hcovered := hiff.mp ⟨db', hmove⟩
    simp only [ne_eq, not_true_eq_false, false_iff]
    omega

end

/-! ## Runs -/

def deliverStep (pp : PositionProcessor) (db : PositionDb) (d : TradeDelivery) :
    Option PositionDb := some (deliver pp db d).1

/-- Every run of deliveries with these quantities moves positions atomically and keeps totals. -/
def ConservesHoldings (pp : PositionProcessor) (quantities : Int → Prop) : Prop :=
  ∀ db₀ db : PositionDb, db₀.Sound →
    Run.Reaches (deliverStep pp) (fun _ d => quantities d.event.quantity) db₀ db →
    db.NonNegative ∧ (∀ symbol, db.total symbol = db₀.total symbol) ∧
      ∀ d : TradeDelivery, quantities d.event.quantity → Atomic pp db d ∧ FailsIfUncovered pp db d

theorem sound_of_reaches {pp : PositionProcessor} {quantities : Int → Prop} {db₀ db : PositionDb}
    (hq : ∀ q, 0 < q → q < 2 ^ 63 → quantities q → Survives pp.conv q) (hsound : db₀.Sound)
    (h : Run.Reaches (deliverStep pp) (fun _ d => quantities d.event.quantity) db₀ db) :
    db.Sound ∧ ∀ symbol, db.total symbol = db₀.total symbol := by
  refine h.invariant (I := fun db => db.Sound ∧ ∀ symbol, db.total symbol = db₀.total symbol)
    ⟨hsound, fun _ => rfl⟩ ?_
  rintro s d s' ⟨hs, htotal⟩ hallowed hstep
  cases hstep
  obtain ⟨-, hs', htotal'⟩ :=
    deliver_step hs (hq _ d.quantity_pos d.quantity_lt hallowed)
  exact ⟨hs', fun symbol => (htotal' symbol).trans (htotal symbol)⟩

/-! ## Quantities that change on the way -/

def soleHolder (volume : Int64) : PositionDb where
  positions := [
    { userID := "alice", symbol := "BTC", volume := Model.nanoString volume.toInt, avgPrice := "0",
      volumeBigint := volume, avgPriceBigint := 0 }]
  outbox := []

def saleOf (q : Int) (hpos : 0 < q) (hlt : q < 2 ^ 63) : TradeDelivery where
  event :=
    { seq := 1, timestamp := 0, tradeID := "t1", symbolStr := "BTC", takerOrderID := "o2",
      makerOrderID := "o1", takerUser := "alice", makerUser := "bob", price := 10 ^ 8,
      quantity := q, takerSide := "sell" }
  input := { createdAt := 0, updatedAt := 0, fault := fun _ => none }
  price_range := show |(10 ^ 8 : Int)| ≤ 2 ^ 63 by decide
  quantity_pos := hpos
  quantity_lt := hlt

theorem soleHolder_sound {volume : Int64} (h : 0 ≤ volume.toInt) : (soleHolder volume).Sound where
  unique := nodup_singleton _
  nonneg := fun p hp => by
    rwa [mem_singleton.mp hp]
  total_lt := fun symbol => by
    have hlt := Int64.toInt_lt volume
    unfold PositionDb.total soleHolder
    simp only [map_cons, map_nil, sum_cons, sum_nil]
    split <;> omega

theorem soleHolder_holding (volume : Int64) :
    (soleHolder volume).holding "alice" "BTC" = volume.toInt := by
  unfold PositionDb.holding PositionDb.volumeOf Table.cell soleHolder
  simp only [Table.row_cons, Position.key, if_true, Option.map_some, Option.getD_some]

theorem survives_of_sale {pp : PositionProcessor} {q : Int} (hpos : 0 < q) (hlt : q < 2 ^ 63)
    (hatomic : Atomic pp (soleHolder Int64.maxValue) (saleOf q hpos hlt))
    (hfails : FailsIfUncovered pp (soleHolder Int64.maxValue) (saleOf q hpos hlt)) :
    Survives pp.conv q := by
  have hnew : ¬ (soleHolder Int64.maxValue).Processed "t1" := fun ⟨_, hrow, _⟩ => nomatch hrow
  have hholding := soleHolder_holding Int64.maxValue
  rw [Int64.toInt_maxValue] at hholding
  have hcovered := hfails (show "bob" ≠ "alice" by decide) (fun _ => rfl) hnew
  -- the sale is covered, so it goes through
  have hok : (deliver pp (soleHolder Int64.maxValue) (saleOf q hpos hlt)).2 = none := by
    by_contra herr
    have huncovered := hcovered.mp herr
    change (soleHolder Int64.maxValue).holding "alice" "BTC" < q at huncovered
    omega
  have habs : |q| ≤ 2 ^ 63 := by
    rw [abs_of_pos hpos]
    omega
  obtain ⟨v, hparse⟩ := Model.parseAmount_nanoString pp.conv "quantity" habs
  have hv : v.toInt = q := by
    rcases deliver_cases pp (soleHolder Int64.maxValue) (saleOf q hpos hlt) with
      ⟨msg, heq⟩ | ⟨hdup, _⟩ | ⟨db', _, hmove, heq⟩
    · rw [heq] at hok
      cases hok
    · exact absurd hdup hnew
    · rcases hatomic with ⟨herr, _⟩ | ⟨_, hdup, _⟩ | ⟨_, _, htransferred⟩
      · exact absurd hok herr
      · exact absurd hdup hnew
      · have hmoved := moveQuantity_moved hmove hparse
        have hsold := htransferred.sold (show "bob" ≠ "alice" by decide)
        rw [heq] at hsold
        change db'.holding "alice" "BTC" =
          (soleHolder Int64.maxValue).holding "alice" "BTC" - q at hsold
        have hbits : db'.volumeOf "alice" "BTC" =
            (soleHolder Int64.maxValue).volumeOf "alice" "BTC" - v :=
          hmoved.sold (show "bob" ≠ "alice" by decide)
        unfold PositionDb.holding at hsold hholding
        rw [hbits, Int64.toInt_sub, hholding, Int.bmod_def] at hsold
        have hlo := Int64.le_toInt v
        have hhi := Int64.toInt_lt v
        split at hsold <;> omega
  have hq : Int64.ofInt q = v := by
    rw [← hv, Int64.ofInt_toInt]
  unfold Survives
  rw [hq]
  exact hparse

/-- Positions move atomically and totals are kept, for every run over a set of quantities, exactly
when every quantity of the set survives being printed and parsed. -/
theorem conservesHoldings_iff_quantities_survive (pp : PositionProcessor)
    (quantities : Int → Prop) :
    ConservesHoldings pp quantities ↔
      ∀ q, 0 < q → q < 2 ^ 63 → quantities q → Survives pp.conv q := by
  constructor
  · intro h q hpos hlt hq
    have hsound : (soleHolder Int64.maxValue).Sound := soleHolder_sound (by decide)
    obtain ⟨-, -, hdeliver⟩ := h _ _ hsound .refl
    obtain ⟨hatomic, hfails⟩ := hdeliver (saleOf q hpos hlt) hq
    exact survives_of_sale hpos hlt hatomic hfails
  · intro hq db₀ db hsound hreach
    obtain ⟨hdb, htotal⟩ := sound_of_reaches hq hsound hreach
    refine ⟨hdb.nonneg, htotal, fun d hd => ?_⟩
    have hsurvives := hq _ d.quantity_pos d.quantity_lt hd
    exact ⟨(deliver_step hdb hsurvives).1, deliver_failsIfUncovered hdb hsurvives⟩

/-- The processor on a machine whose out-of-range conversions give the smallest `int64`. -/
def amd64Processor : PositionProcessor := ⟨FloatText.IntConversion.amd64, fun e => e.tradeID⟩

/-- Three units are sold, two are moved: `0.00000003 * 1e8` is just below three. -/
theorem threeUnits_move_two : (soleHolder 5).Sound ∧
      (deliver amd64Processor (soleHolder 5) (saleOf 3 (by decide) (by decide))).2 = none ∧
      (deliver amd64Processor (soleHolder 5) (saleOf 3 (by decide) (by decide))).1.holding
        "alice" "BTC" = 3 ∧
      ¬ Atomic amd64Processor (soleHolder 5) (saleOf 3 (by decide) (by decide)) := by
  have hok : (deliver amd64Processor (soleHolder 5) (saleOf 3 (by decide) (by decide))).2 =
      none := by decide +kernel
  have hholding : (deliver amd64Processor (soleHolder 5)
      (saleOf 3 (by decide) (by decide))).1.holding "alice" "BTC" = 3 := by decide +kernel
  refine ⟨soleHolder_sound (by decide), hok, hholding, ?_⟩
  rintro (⟨herr, _⟩ | ⟨_, ⟨_, hrow, _⟩, _⟩ | ⟨_, _, htransferred⟩)
  · exact herr hok
  · cases hrow
  · have hsold := htransferred.sold (show "bob" ≠ "alice" by decide)
    change _ = (soleHolder 5).holding "alice" "BTC" - 3 at hsold
    rw [soleHolder_holding] at hsold
    exact absurd (hholding.symm.trans hsold) (by decide)

end CexHertz
