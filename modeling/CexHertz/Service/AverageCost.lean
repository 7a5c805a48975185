import CexHertz.Lib.RunningMean
import CexHertz.Service.PositionRuns

/-!
# The average cost of a position

`BuyPositionTx` and `SellPositionTx` on one row. As long as the volume is an `int64`, they are the
buy and the sell of `RunningMean`. Past that the new quantity wraps around, and the average,
computed on unbounded integers, is divided by the wrapped quantity.
-/

namespace CexHertz

open RunningMean List Mean Table Model PositionDb Option

open PositionLeg (compute)

def PositionDb.after (db : PositionDb) : Except String PositionDb → PositionDb
  | .error _ => db
  | .ok db' => db'

def PositionDb.averageOf (db : PositionDb) (user symbol : String) : Int64 :=
  cell Position.key Position.avgPriceBigint 0 (user, symbol) db.positions

def PositionDb.mean (db : PositionDb) (user symbol : String) : Mean :=
  ⟨db.holding user symbol, (db.averageOf user symbol).toInt⟩

section

variable {pp : PositionProcessor} {input : TxInput} {db : PositionDb}
  {user symbol qtyStr priceStr : String} {q p : Int64}

theorem mean_of_row {pos : Position}
    (h : row Position.key (user, symbol) db.positions = some pos) :
    db.mean user symbol = ⟨pos.volumeBigint.toInt, pos.avgPriceBigint.toInt⟩ := by
  unfold mean holding volumeOf averageOf cell
  rw [h]
  rfl

theorem mean_of_first {id : Nat} {pos : Position}
    (h : first Position.key (user, symbol) db.positions = some (id, pos)) :
    db.mean user symbol = ⟨pos.volumeBigint.toInt, pos.avgPriceBigint.toInt⟩ :=
  mean_of_row (by rw [row, h]; rfl)

theorem mean_of_first_none (h : first Position.key (user, symbol) db.positions = none) :
    db.mean user symbol = .empty := by
  unfold mean holding volumeOf averageOf cell
    row
  rw [h]
  rfl

theorem mean_set {id : Nat} {old new : Position}
    (h : first Position.key (user, symbol) db.positions = some (id, old))
    (hkey : new.key = old.key) :
    ({ db with positions := db.positions.set id new } : PositionDb).mean user symbol =
      ⟨new.volumeBigint.toInt, new.avgPriceBigint.toInt⟩ := by
  have hnew : new.key = (user, symbol) := hkey.trans (key_of_first h)
  apply mean_of_row
  rw [← hnew]
  exact (put_set h hnew).row_self

theorem mean_append {new : Position}
    (h : first Position.key (user, symbol) db.positions = none)
    (hkey : new.key = (user, symbol)) :
    ({ db with positions := db.positions ++ [new] } : PositionDb).mean user symbol =
      ⟨new.volumeBigint.toInt, new.avgPriceBigint.toInt⟩ := by
  apply mean_of_row
  rw [← hkey]
  exact (put_append h hkey).row_self

/-! ## One buy -/

def BuyFaulted (input : TxInput) : Prop :=
  input.fault .firstBuy ≠ none ∨ input.fault .writeBuy ≠ none

instance (input : TxInput) : Decidable (BuyFaulted input) :=
  inferInstanceAs (Decidable (_ ∨ _))

def SellFaulted (input : TxInput) : Prop :=
  input.fault .firstSell ≠ none ∨ input.fault .writeSell ≠ none

instance (input : TxInput) : Decidable (SellFaulted input) :=
  inferInstanceAs (Decidable (_ ∨ _))

theorem not_buyFaulted (h : ¬ BuyFaulted input) :
    input.fault .firstBuy = none ∧ input.fault .writeBuy = none := by
  unfold BuyFaulted at h
  rwa [not_or, not_not, not_not] at h

theorem not_sellFaulted (h : ¬ SellFaulted input) :
    input.fault .firstSell = none ∧ input.fault .writeSell = none := by
  unfold SellFaulted at h
  rwa [not_or, not_not, not_not] at h

theorem write_faulted {fault : Option String} (h : fault ≠ none)
    (r : Except String (Option Nat × Position)) : ∃ msg, db.write fault r = .error msg := by
  obtain ⟨msg, rfl⟩ := ne_none_iff_exists'.mp h
  match r with
  | .error err => exact ⟨err, rfl⟩
  | .ok (none, _) | .ok (some _, _) => exact ⟨msg, rfl⟩

theorem buyPositionTx_faulted (hq : Model.parseQuantity pp.conv qtyStr = .ok q)
    (hp : Model.parsePrice pp.conv priceStr = .ok p) (h : BuyFaulted input) :
    ∃ msg, buyPositionTx pp input db user symbol qtyStr priceStr = .error msg := by
  rcases h with h | h
  · obtain ⟨msg, hmsg⟩ := ne_none_iff_exists'.mp h
    unfold buyPositionTx compute
    dsimp only
    rw [hq, hp, hmsg]
    exact ⟨msg, rfl⟩
  · exact write_faulted h _

def Position.rebought (pos : Position) (newQty : Int64) (newAvg : Int) : Position :=
  { pos with
    volumeBigint := newQty
    avgPriceBigint := Int64.ofInt newAvg
    volume := nanoString newQty.toInt
    avgPrice := nanoString newAvg }

theorem Position.rebought_key (pos : Position) (newQty : Int64) (newAvg : Int) :
    (pos.rebought newQty newAvg).key = pos.key := by
  rfl

theorem buyPositionTx_found {id : Nat} {pos : Position}
    (hfirst : first Position.key (user, symbol) db.positions = some (id, pos))
    (hfault : ¬ BuyFaulted input) (hq : Model.parseQuantity pp.conv qtyStr = .ok q)
    (hp : Model.parsePrice pp.conv priceStr = .ok p) {newQty newAvg : Int}
    (hnewQty : (pos.volumeBigint + q).toInt = newQty)
    (hnewAvg : (pos.volumeBigint.toInt * pos.avgPriceBigint.toInt + q.toInt * p.toInt) / newQty =
      newAvg) :
    buyPositionTx pp input db user symbol qtyStr priceStr =
      if newQty = 0 then .error "new quantity is zero"
      else if newAvg < -2 ^ 63 ∨ 2 ^ 63 ≤ newAvg then
        .error "price overflow when computing weighted average"
      else
        .ok { db with
          positions := db.positions.set id (pos.rebought (pos.volumeBigint + q) newAvg) } := by
  obtain ⟨hquery, hwrite⟩ := not_buyFaulted hfault
  subst hnewAvg hnewQty
  unfold buyPositionTx compute
  dsimp only
  rw [hq, hp, hquery, hwrite, first_noFault, hfirst]
  dsimp only
  split
  · rfl
  · split <;> rfl

theorem buyPositionTx_mean (hfault : ¬ BuyFaulted input)
    (hq : Model.parseQuantity pp.conv qtyStr = .ok q)
    (hp : Model.parsePrice pp.conv priceStr = .ok p) (hpos : 0 < q.toInt)
    (hvolume : 0 ≤ (db.mean user symbol).volume)
    (hfits : (db.mean user symbol).volume + q.toInt < 2 ^ 63) :
    ∃ db', buyPositionTx pp input db user symbol qtyStr priceStr = .ok db' ∧
      db'.mean user symbol = (db.mean user symbol).buy q.toInt p.toInt := by
  cases hfirst : first Position.key (user, symbol) db.positions with
  | none =>
    obtain ⟨hquery, hwrite⟩ := not_buyFaulted hfault
    rw [mean_of_first_none hfirst, buy_of_volume_zero rfl hpos]
    unfold buyPositionTx compute
    dsimp only
    rw [hq, hp, hquery, hwrite, first_noFault, hfirst]
    exact ⟨_, rfl, mean_append hfirst rfl⟩
  | some found =>
    obtain ⟨id, pos⟩ := found
    have hmean := mean_of_first hfirst
    have hsum : (pos.volumeBigint + q).toInt = pos.volumeBigint.toInt + q.toInt := by
      rw [hmean] at hvolume hfits
      dsimp only at hvolume hfits
      rw [Int64.toInt_add]
      exact Int.bmod_eq_of_le (by omega) (by omega)
    -- the average of two `int64` prices is one, so the overflow check passes
    have hlow := le_average_buy hvolume hpos
        (fun _ => Int64.le_toInt (db.averageOf user symbol)) (Int64.le_toInt p)
    have hhigh := average_buy_le hvolume hpos
        (fun _ => Int.le_sub_one_of_lt (Int64.toInt_lt (db.averageOf user symbol)))
        (Int.le_sub_one_of_lt (Int64.toInt_lt p))
    obtain ⟨avg, havg⟩ :
        ∃ avg, ((db.mean user symbol).buy q.toInt p.toInt).average = avg := ⟨_, rfl⟩
    rw [havg] at hlow hhigh
    have hquot : (pos.volumeBigint.toInt * pos.avgPriceBigint.toInt + q.toInt * p.toInt) /
        (pos.volumeBigint.toInt + q.toInt) = avg := by
      rw [← havg, hmean]
      rfl
    have hbuy := buyPositionTx_found hfirst hfault hq hp hsum hquot
    rw [hmean] at hvolume
    rw [if_neg (by dsimp only at hvolume; omega), if_neg (by omega)] at hbuy
    refine ⟨_, hbuy, (mean_set hfirst (pos.rebought_key _ _)).trans ?_⟩
    show mk (pos.volumeBigint + q).toInt (Int64.ofInt avg).toInt = _
    rw [hsum, Int64.toInt_ofInt_of_le hlow (by omega), ← havg, hmean]
    rfl

theorem buyPositionTx_wraps {id : Nat} {pos : Position}
    (hfirst : first Position.key (user, symbol) db.positions = some (id, pos))
    (hfault : ¬ BuyFaulted input) (hq : Model.parseQuantity pp.conv qtyStr = .ok q)
    (hp : Model.parsePrice pp.conv priceStr = .ok p)
    (hover : 2 ^ 63 ≤ pos.volumeBigint.toInt + q.toInt) {sum rest : Int}
    (hsum : pos.volumeBigint.toInt * pos.avgPriceBigint.toInt + q.toInt * p.toInt = sum)
    (hrest : rest = 2 ^ 64 - (pos.volumeBigint.toInt + q.toInt)) (hnonneg : 0 ≤ sum) :
    if 2 ^ 63 < sum / rest then
      ∃ msg, buyPositionTx pp input db user symbol qtyStr priceStr = .error msg
    else
      ∃ db', buyPositionTx pp input db user symbol qtyStr priceStr = .ok db' ∧
        db'.holding user symbol = pos.volumeBigint.toInt + q.toInt - 2 ^ 64 := by
  have hv := Int64.toInt_lt pos.volumeBigint
  have hq' := Int64.toInt_lt q
  have hwrapped : (pos.volumeBigint + q).toInt = -rest := by
    rw [Int64.toInt_add, Int.bmod_def]
    split <;> omega
  -- Euclidean division by a negative number
  have havg : (pos.volumeBigint.toInt * pos.avgPriceBigint.toInt + q.toInt * p.toInt) / -rest =
      -(sum / rest) := by rw [hsum, Int.ediv_neg]
  have hquot : 0 ≤ sum / rest := Int.ediv_nonneg hnonneg (by omega)
  have hbuy := buyPositionTx_found hfirst hfault hq hp hwrapped havg
  rw [if_neg (by omega)] at hbuy
  split
  next hlarge =>
    rw [if_pos (by omega)] at hbuy
    exact ⟨_, hbuy⟩
  next hsmall =>
    rw [if_neg (by omega)] at hbuy
    refine ⟨_, hbuy, (congrArg volume (mean_set hfirst (pos.rebought_key _ _))).trans ?_⟩
    show (pos.volumeBigint + q).toInt = _
    omega

/-! ## Exact or refused -/

/-- A buy of `q` at `p` into a row of volume `v` and average `a` is refused and leaves the table
alone, or it stores the exact volume and the exact average, rounded down. -/
def BuyExactOrRefused (db : PositionDb) (user symbol : String) (v a q p : Int)
    (result : Except String PositionDb) : Prop :=
  ((∃ msg, result = .error msg) ∧ (db.after result).positions = db.positions) ∨
  ∃ db', result = .ok db' ∧ db'.holding user symbol = v + q ∧
    (db'.averageOf user symbol).toInt = (v * a + q * p) / (v + q) ∧
    (0 < v → min a p ≤ (db'.averageOf user symbol).toInt ∧
      (db'.averageOf user symbol).toInt ≤ max a p)

theorem buy_exactOrRefused_of_error {v a : Int} {result : Except String PositionDb}
    (h : ∃ msg, result = .error msg) :
    BuyExactOrRefused db user symbol v a q.toInt p.toInt result := by
  refine .inl ⟨h, ?_⟩
  obtain ⟨msg, rfl⟩ := h
  rfl

/-- A buy is exact or refused unless the volume passes the range of an `int64` without the average
doing so as well. -/
theorem buy_exactOrRefused_iff {pos : Position}
    (hrow : row Position.key (user, symbol) db.positions = some pos)
    (hv : 0 ≤ pos.volumeBigint.toInt) (ha : 0 ≤ pos.avgPriceBigint.toInt)
    (hq : Model.parseQuantity pp.conv qtyStr = .ok q)
    (hp : Model.parsePrice pp.conv priceStr = .ok p) (hqpos : 0 < q.toInt)
    (hpnonneg : 0 ≤ p.toInt) :
    BuyExactOrRefused db user symbol pos.volumeBigint.toInt pos.avgPriceBigint.toInt q.toInt p.toInt
        (buyPositionTx pp input db user symbol qtyStr priceStr) ↔
      BuyFaulted input ∨ pos.volumeBigint.toInt + q.toInt < 2 ^ 63 ∨
        2 ^ 63 < (pos.volumeBigint.toInt * pos.avgPriceBigint.toInt + q.toInt * p.toInt) /
          (2 ^ 64 - (pos.volumeBigint.toInt + q.toInt)) := by
  obtain ⟨⟨id, found⟩, hfirst, rfl⟩ := map_eq_some_iff.mp hrow
  dsimp only at *
  by_cases hfault : BuyFaulted input
  · exact iff_of_true (buy_exactOrRefused_of_error (buyPositionTx_faulted hq hp hfault))
      (.inl hfault)
  by_cases hfits : found.volumeBigint.toInt + q.toInt < 2 ^ 63
  · refine iff_of_true ?_ (.inr (.inl hfits))
    have hmean := mean_of_first hfirst
    obtain ⟨db', hbuy, hmean'⟩ := buyPositionTx_mean hfault hq hp hqpos
      (by rw [hmean]; exact hv) (by rw [hmean]; exact hfits)
    rw [hmean] at hmean'
    have haverage := congrArg average hmean'
    refine .inr ⟨db', hbuy, congrArg volume hmean', haverage, fun hpos => ?_⟩
    constructor
    · exact (le_average_buy hv hqpos (fun _ => min_le_left _ _) (min_le_right _ _)).trans_eq
        haverage.symm
    · exact haverage.trans_le
        (average_buy_le hv hqpos (fun _ => le_max_left _ _) (le_max_right _ _))
  · have hsum := Int.add_nonneg (Int.mul_nonneg hv ha) (Int.mul_nonneg hqpos.le hpnonneg)
    have hwraps := buyPositionTx_wraps hfirst hfault hq hp (by omega) rfl rfl hsum
    split at hwraps
    next hlarge => exact iff_of_true (buy_exactOrRefused_of_error hwraps) (.inr (.inr hlarge))
    next hsmall =>
      obtain ⟨db', hbuy, hholding⟩ := hwraps
      refine iff_of_false ?_ (by rintro (h | h | h) <;> first | exact hfault h | omega)
      rintro (⟨⟨msg, herr⟩, -⟩ | ⟨db'', hok, hexact, -⟩)
      · rw [hbuy] at herr
        cases herr
      · rw [hbuy] at hok
        cases hok
        omega

end

def faultless : TxInput := ⟨0, 0, fun _ => none⟩

/-- A buy of one coin by a holder of five units is exact. -/
theorem oneCoin_exact : BuyExactOrRefused (soleHolder 5) "alice" "BTC" 5 0 (10 ^ 8) (10 ^ 8)
      (buyPositionTx amd64Processor faultless (soleHolder 5) "alice" "BTC" "1" "1") := by
  have hrow : row Position.key ("alice", "BTC") (soleHolder 5).positions =
      some ⟨"alice", "BTC", nanoString 5, "0", 5, 0⟩ := rfl
  have hq : Model.parseQuantity amd64Processor.conv "1" = .ok 100000000 := by decide +kernel
  have hp : Model.parsePrice amd64Processor.conv "1" = .ok 100000000 := by decide +kernel
  exact (buy_exactOrRefused_iff hrow (by decide) (by decide) hq hp (by decide) (by decide)).mpr
    (.inr (.inl (by decide)))

/-- The largest holder buys one coin more and is left with a negative volume. -/
theorem largestHolder_wraps :
    ∃ db', buyPositionTx amd64Processor faultless (soleHolder Int64.maxValue) "alice" "BTC" "1"
        "1" = .ok db' ∧
      db'.holding "alice" "BTC" = -9223372036754775809 ∧
      ¬ BuyExactOrRefused (soleHolder Int64.maxValue) "alice" "BTC" (2 ^ 63 - 1) 0 (10 ^ 8) (10 ^ 8)
        (buyPositionTx amd64Processor faultless (soleHolder Int64.maxValue) "alice" "BTC" "1" "1")
    := by
  have hwrapped : (buyPositionTx amd64Processor faultless (soleHolder Int64.maxValue) "alice" "BTC"
      "1" "1").toOption.any (fun db' => db'.holding "alice" "BTC" = -9223372036754775809) =
        true := by
    decide +kernel
  cases hbuy : buyPositionTx amd64Processor faultless (soleHolder Int64.maxValue) "alice" "BTC" "1"
      "1" with
  | error msg =>
    rw [hbuy] at hwrapped
    cases hwrapped
  | ok db' =>
    rw [hbuy] at hwrapped
    have hholding : db'.holding "alice" "BTC" = -9223372036754775809 :=
      of_decide_eq_true hwrapped
    refine ⟨db', rfl, hholding, ?_⟩
    rintro (⟨⟨msg, herr⟩, -⟩ | ⟨db'', hok, hexact, -⟩)
    · cases herr
    · cases hok
      omega

/-! ## One sell -/

section

variable {pp : PositionProcessor} {input : TxInput} {db : PositionDb}
  {user symbol qtyStr : String} {q : Int64}

theorem sellPositionTx_faulted (h : SellFaulted input) :
    ∃ msg, sellPositionTx pp input db user symbol qtyStr = .error msg := by
  rcases h with h | h
  · obtain ⟨msg, hmsg⟩ := ne_none_iff_exists'.mp h
    unfold sellPositionTx
    rw [hmsg]
    exact ⟨msg, rfl⟩
  · exact write_faulted h _

theorem sellPositionTx_mean (db : PositionDb) (user symbol : String)
    (hfault : ¬ SellFaulted input) (hq : Model.parseQuantity pp.conv qtyStr = .ok q)
    (hpos : 0 < q.toInt) :
    if q.toInt ≤ (db.mean user symbol).volume then
      ∃ db', sellPositionTx pp input db user symbol qtyStr = .ok db' ∧
        db'.mean user symbol = (db.mean user symbol).sell q.toInt
    else ∃ msg, sellPositionTx pp input db user symbol qtyStr = .error msg := by
  obtain ⟨hquery, hwrite⟩ := not_sellFaulted hfault
  unfold sellPositionTx compute
  dsimp only
  rw [hquery, hwrite, first_noFault, hq]
  cases hfirst : first Position.key (user, symbol) db.positions with
  | none =>
    rw [mean_of_first_none hfirst, if_neg (by show ¬ _ ≤ (0 : Int); omega)]
    exact ⟨_, rfl⟩
  | some found =>
    obtain ⟨id, pos⟩ := found
    have hmean := mean_of_first hfirst
    rw [hmean]
    dsimp only
    split
    next hcovered =>
      have hlt := Int64.toInt_lt pos.volumeBigint
      have hdiff : (pos.volumeBigint - q).toInt = pos.volumeBigint.toInt - q.toInt := by
        rw [Int64.toInt_sub]
        exact Int.bmod_eq_of_le (by omega) (by omega)
      have hzero : pos.volumeBigint - q = 0 ↔ pos.volumeBigint.toInt - q.toInt = 0 := by
        rw [← hdiff, ← Int64.toInt_inj, Int64.toInt_zero]
      rw [if_neg (by rw [Int64.lt_iff_toInt_lt]; omega)]
      refine ⟨_, rfl, (mean_set hfirst ?_).trans ?_⟩
      · rfl
      · unfold sell
        simp only [hdiff, hzero]
        split <;> rfl
    next huncovered =>
      rw [if_pos (by rw [Int64.lt_iff_toInt_lt]; omega)]
      exact ⟨_, rfl⟩

end

/-! ## Calls of one user -/

structure BuyCall (pp : PositionProcessor) where
  buyQtyStr : String
  buyPriceStr : String
  buyQty : Int64
  buyPrice : Int64
  input : TxInput
  parsed_qty : Model.parseQuantity pp.conv buyQtyStr = .ok buyQty
  parsed_price : Model.parsePrice pp.conv buyPriceStr = .ok buyPrice
  qty_pos : 0 < buyQty.toInt
  price_nonneg : 0 ≤ buyPrice.toInt

open BuyCall

structure SellCall (pp : PositionProcessor) where
  sellQtyStr : String
  sellQty : Int64
  input : TxInput
  parsed_qty : Model.parseQuantity pp.conv sellQtyStr = .ok sellQty
  qty_pos : 0 < sellQty.toInt

section

variable {pp : PositionProcessor} (user symbol : String)

def BuyCall.run (call : BuyCall pp) (db : PositionDb) : Except String PositionDb :=
  buyPositionTx pp call.input db user symbol call.buyQtyStr call.buyPriceStr

def SellCall.run (call : SellCall pp) (db : PositionDb) : Except String PositionDb :=
  sellPositionTx pp call.input db user symbol call.sellQtyStr

inductive AccountCall (pp : PositionProcessor) where
  | buy (call : BuyCall pp)
  | sell (call : SellCall pp)

/-- The table of positions, and two history variables: the exact volume, which is what the accepted
buys have added less what the accepted sells have taken, and the prices of the buys accepted since
that volume was last zero. -/
structure Account where
  db : PositionDb
  volume : Int
  prices : List Int

def Account.step (pp : PositionProcessor) (user symbol : String) (s : Account) :
    AccountCall pp → Option Account
  | .buy call =>
    match call.run user symbol s.db with
    | .error _ => some s
    | .ok db => some ⟨db, s.volume + call.buyQty.toInt, s.prices ++ [call.buyPrice.toInt]⟩
  | .sell call =>
    match call.run user symbol s.db with
    | .error _ => some s
    | .ok db =>
      let volume := s.volume - call.sellQty.toInt
      some ⟨db, volume, if volume = 0 then [] else s.prices⟩

def Account.InRange (s : Account) : AccountCall pp → Prop
  | .buy call => s.volume + call.buyQty.toInt < 2 ^ 63
  | .sell _ => True

instance (s : Account) : (call : AccountCall pp) → Decidable (s.InRange call)
  | .buy call => inferInstanceAs (Decidable (s.volume + call.buyQty.toInt < 2 ^ 63))
  | .sell _ => isTrue trivial

structure AccountOk (s : Account) : Prop where
  volume : (s.db.mean user symbol).volume = s.volume
  nonneg : 0 ≤ s.volume
  /-- Without a volume there is no average and no price. -/
  emptied : s.volume = 0 → (s.db.mean user symbol).average = 0 ∧ s.prices = []
  lowest : 0 < s.volume → ∃ p ∈ s.prices, p ≤ (s.db.mean user symbol).average
  highest : 0 < s.volume → ∃ p ∈ s.prices, (s.db.mean user symbol).average ≤ p

variable {user symbol} {s s' : Account}

theorem AccountOk.new {db : PositionDb}
    (h : row Position.key (user, symbol) db.positions = none) :
    AccountOk user symbol ⟨db, 0, []⟩ := by
  have hmean : db.mean user symbol = .empty := mean_of_first_none (map_eq_none_iff.mp h)
  constructor
  · exact congrArg Mean.volume hmean
  · exact Int.le_refl 0
  · exact fun _ => ⟨congrArg average hmean, rfl⟩
  · exact fun h => absurd h (Int.lt_irrefl 0)
  · exact fun h => absurd h (Int.lt_irrefl 0)

theorem AccountOk.buy (h : AccountOk user symbol s) {call : BuyCall pp}
    (hfits : s.volume + call.buyQty.toInt < 2 ^ 63) :
    if BuyFaulted call.input then ∃ msg, call.run user symbol s.db = .error msg
    else ∃ db, call.run user symbol s.db = .ok db ∧ AccountOk user symbol
        ⟨db, s.volume + call.buyQty.toInt, s.prices ++ [call.buyPrice.toInt]⟩ := by
  have hpos := call.qty_pos
  have hnonneg := h.nonneg
  split
  next hfault => exact buyPositionTx_faulted call.parsed_qty call.parsed_price hfault
  next hfault =>
    obtain ⟨db, hbuy, hmean⟩ := buyPositionTx_mean hfault call.parsed_qty call.parsed_price hpos
      (by rw [h.volume]; exact hnonneg) (by rw [h.volume]; exact hfits)
    have hvolume : 0 ≤ (s.db.mean user symbol).volume := by rw [h.volume]; exact hnonneg
    refine ⟨db, hbuy, ?_⟩
    constructor
    · rw [hmean, buy_volume, h.volume]
    · show 0 ≤ s.volume + call.buyQty.toInt
      omega
    · intro hzero
      change s.volume + call.buyQty.toInt = 0 at hzero
      omega
    · -- the lower of the old bound and the new price is a price
      intro _
      rw [hmean]
      by_cases hold : 0 < s.volume
      · obtain ⟨p, hp, hle⟩ := h.lowest hold
        rcases Int.le_total p call.buyPrice.toInt with hlow | hlow
        · exact ⟨p, mem_append_left _ hp, le_average_buy hvolume hpos (fun _ => hle) hlow⟩
        · exact ⟨_, mem_append_right _ mem_cons_self,
            le_average_buy hvolume hpos (fun _ => hlow.trans hle) (Int.le_refl _)⟩
      · refine ⟨_, mem_append_right _ mem_cons_self,
          le_average_buy hvolume hpos (fun hlt => ?_) (Int.le_refl _)⟩
        exact absurd (h.volume ▸ hlt) hold
    · intro _
      rw [hmean]
      by_cases hold : 0 < s.volume
      · obtain ⟨p, hp, hle⟩ := h.highest hold
        rcases Int.le_total call.buyPrice.toInt p with hhigh | hhigh
        · exact ⟨p, mem_append_left _ hp, average_buy_le hvolume hpos (fun _ => hle) hhigh⟩
        · exact ⟨_, mem_append_right _ mem_cons_self,
            average_buy_le hvolume hpos (fun _ => hle.trans hhigh) (Int.le_refl _)⟩
      · refine ⟨_, mem_append_right _ mem_cons_self,
          average_buy_le hvolume hpos (fun hlt => ?_) (Int.le_refl _)⟩
        exact absurd (h.volume ▸ hlt) hold

theorem AccountOk.sell (h : AccountOk user symbol s) (call : SellCall pp) :
    if SellFaulted call.input ∨ s.volume < call.sellQty.toInt then
      ∃ msg, call.run user symbol s.db = .error msg
    else ∃ db, call.run user symbol s.db = .ok db ∧
      AccountOk user symbol ⟨db, s.volume - call.sellQty.toInt,
        if s.volume - call.sellQty.toInt = 0 then [] else s.prices⟩ := by
  have hpos := call.qty_pos
  by_cases hfault : SellFaulted call.input
  · rw [if_pos (.inl hfault)]
    exact sellPositionTx_faulted hfault
  have hsell := sellPositionTx_mean s.db user symbol hfault call.parsed_qty hpos
  rw [h.volume] at hsell
  split at hsell
  next hcovered =>
    obtain ⟨db, hsell, hmean⟩ := hsell
    rw [if_neg (by rintro (hf | hlt); exacts [hfault hf, by omega])]
    refine ⟨db, hsell, ?_⟩
    have haverage : (db.mean user symbol).average =
        if s.volume - call.sellQty.toInt = 0 then 0 else (s.db.mean user symbol).average := by
      rw [hmean, ← h.volume]
      rfl
    constructor
    · rw [hmean, sell_volume, h.volume]
    · show 0 ≤ s.volume - call.sellQty.toInt
      omega
    · intro hzero
      exact ⟨haverage.trans (if_pos hzero), if_pos hzero⟩
    · intro (hleft : 0 < s.volume - call.sellQty.toInt)
      rw [haverage, if_neg hleft.ne.symm, if_neg hleft.ne.symm]
      exact h.lowest (by omega)
    · intro (hleft : 0 < s.volume - call.sellQty.toInt)
      rw [haverage, if_neg hleft.ne.symm, if_neg hleft.ne.symm]
      exact h.highest (by omega)
  next huncovered =>
    rwa [if_pos (.inr (by omega))]

theorem AccountOk.step (h : AccountOk user symbol s) {call : AccountCall pp}
    (hrange : s.InRange call) (hstep : s.step pp user symbol call = some s') :
    AccountOk user symbol s' := by
  unfold Account.step at hstep
  rcases call with call | call
  on_goal 1 => have hrun := h.buy hrange
  on_goal 2 => have hrun := h.sell call
  all_goals
    split at hrun
    next =>
      obtain ⟨msg, herr⟩ := hrun
      simp only [herr, Option.some.injEq] at hstep
      exact hstep ▸ h
    next =>
      obtain ⟨db, hok, hnext⟩ := hrun
      simp only [hok, Option.some.injEq] at hstep
      exact hstep ▸ hnext

def AccountCall.Right (user symbol : String) (s : Account) : AccountCall pp → Prop
  | .buy call => (∃ msg, call.run user symbol s.db = .error msg) ↔ BuyFaulted call.input
  | .sell call =>
    ((∃ msg, call.run user symbol s.db = .error msg) ↔
      SellFaulted call.input ∨ s.db.holding user symbol < call.sellQty.toInt) ∧
    ∀ db, call.run user symbol s.db = .ok db → db.holding user symbol = 0 →
      (db.averageOf user symbol).toInt = 0

theorem AccountOk.right (h : AccountOk user symbol s) {call : AccountCall pp}
    (hrange : s.InRange call) : call.Right user symbol s := by
  cases call with
  | buy call =>
    have hbuy := h.buy hrange
    split at hbuy
    next hfault => exact iff_of_true hbuy hfault
    next hfault =>
      obtain ⟨db, hok, -⟩ := hbuy
      refine iff_of_false ?_ hfault
      rintro ⟨msg, herr⟩
      rw [hok] at herr
      cases herr
  | sell call =>
    have hsell := h.sell call
    have hvolume : s.db.holding user symbol = s.volume := h.volume
    unfold AccountCall.Right
    rw [hvolume]
    split at hsell
    next hrefused =>
      refine ⟨iff_of_true hsell hrefused, fun db hok => ?_⟩
      obtain ⟨msg, herr⟩ := hsell
      rw [herr] at hok
      cases hok
    next haccepted =>
      obtain ⟨db, hok, hnext⟩ := hsell
      refine ⟨iff_of_false ?_ haccepted, fun db' hok' hzero => ?_⟩
      · rintro ⟨msg, herr⟩
        rw [hok] at herr
        cases herr
      · rw [hok] at hok'
        cases hok'
        exact (hnext.emptied (hnext.volume ▸ hzero)).1

end

/-- In every run of a user's calls in which the exact volume stays below `2 ^ 63`, the row has the
exact volume and an average between the prices paid; a buy is refused only by the database, a sell
only by the database or for want of volume; and a sell that empties the position resets the
average. -/
theorem averageCost_between_prices (pp : PositionProcessor) (user symbol : String)
    (db₀ : PositionDb) (hnew : row Position.key (user, symbol) db₀.positions = none)
    (s : Account)
    (hreach : Run.Reaches (Account.step pp user symbol) Account.InRange ⟨db₀, 0, []⟩ s) :
    s.db.holding user symbol = s.volume ∧ 0 ≤ s.volume ∧ (0 < s.db.holding user symbol →
        (∃ p ∈ s.prices, p ≤ (s.db.averageOf user symbol).toInt) ∧
        ∃ p ∈ s.prices, (s.db.averageOf user symbol).toInt ≤ p) ∧
      ∀ call : AccountCall pp, s.InRange call → call.Right user symbol s := by
  have hok : AccountOk user symbol s :=
    hreach.invariant (AccountOk.new hnew) fun _ _ _ h hrange hstep => h.step hrange hstep
  refine ⟨hok.volume, hok.nonneg, fun hpos => ?_, fun call hrange => hok.right hrange⟩
  have hvolume : 0 < s.volume := hok.volume ▸ hpos
  exact ⟨hok.lowest hvolume, hok.highest hvolume⟩

def noPositions : PositionDb := ⟨[], []⟩

def partialSale : List (AccountCall amd64Processor) :=
  [.buy ⟨"10", "1", 1000000000, 100000000, faultless, by decide +kernel, by decide +kernel,
      by decide, by decide⟩,
    .sell ⟨"1", 100000000, faultless, by decide +kernel, by decide⟩,
    .sell ⟨"10", 1000000000, faultless, by decide +kernel, by decide⟩]

theorem partialSale_between_prices : ∃ s : Account, s.volume = 900000000 ∧ s.prices = [100000000] ∧
      s.db.holding "alice" "BTC" = s.volume ∧
      ∃ p ∈ s.prices, p ≤ (s.db.averageOf "alice" "BTC").toInt := by
  have hrun : (Run.execute (Account.step amd64Processor "alice" "BTC") Account.InRange
      ⟨noPositions, 0, []⟩ partialSale).any
        (fun s => s.volume = 900000000 ∧ s.prices = [100000000]) = true := by
    decide +kernel
  obtain ⟨s, hreach, htest⟩ := Run.exists_reaches_of_any hrun
  obtain ⟨hvolume, hprices⟩ := of_decide_eq_true htest
  obtain ⟨hheld, -, hbetween, -⟩ :=
    averageCost_between_prices amd64Processor "alice" "BTC" noPositions rfl s hreach
  exact ⟨s, hvolume, hprices, hheld, (hbetween (by omega)).1⟩

/-! ## Drift -/

section

variable {pp : PositionProcessor} {user symbol : String}

def buyEach (user symbol : String) (db : PositionDb) (calls : List (BuyCall pp)) :
    Except String PositionDb :=
  calls.foldlM (fun db call => call.run user symbol db) db

theorem buyEach_cons {db next : PositionDb} {call : BuyCall pp} {rest : List (BuyCall pp)}
    (h : call.run user symbol db = .ok next) :
    buyEach user symbol db (call :: rest) = buyEach user symbol next rest := by
  unfold buyEach
  rw [foldlM_cons, h]
  rfl

def BuyCall.amounts (call : BuyCall pp) : Int × Int := (call.buyQty.toInt, call.buyPrice.toInt)

theorem amounts_pos (calls : List (BuyCall pp)) : ∀ buy ∈ calls.map amounts, 0 < buy.1 := by
  intro buy hbuy
  obtain ⟨call, -, rfl⟩ := List.mem_map.mp hbuy
  exact call.qty_pos

theorem buyEach_mean {db : PositionDb} {calls : List (BuyCall pp)}
    (hfault : ∀ call ∈ calls, ¬ BuyFaulted call.input)
    (hvolume : 0 ≤ (db.mean user symbol).volume)
    (hfits : (db.mean user symbol).volume + bought (calls.map amounts) < 2 ^ 63) :
    ∃ db', buyEach user symbol db calls = .ok db' ∧
      db'.mean user symbol = (db.mean user symbol).buyAll (calls.map amounts) := by
  induction calls generalizing db with
  | nil => exact ⟨db, rfl, rfl⟩
  | cons call rest ih =>
    have hpos := call.qty_pos
    have hrest : 0 ≤ bought (rest.map amounts) :=
      bought_nonneg (amounts_pos rest)
    have hbought : bought ((call :: rest).map amounts) =
        call.buyQty.toInt + bought (rest.map amounts) := bought_cons _ _
    obtain ⟨next, hrun, hmean⟩ := buyPositionTx_mean (hfault call mem_cons_self)
      call.parsed_qty call.parsed_price hpos hvolume (by omega)
    have hnext : (next.mean user symbol).volume =
        (db.mean user symbol).volume + call.buyQty.toInt := by rw [hmean, buy_volume]
    obtain ⟨db', hruns, hmean'⟩ := ih (fun c hc => hfault c (.tail _ hc))
      (show 0 ≤ (next.mean user symbol).volume by omega) (by omega)
    refine ⟨db', ?_, ?_⟩
    · exact (buyEach_cons hrun).trans hruns
    · rw [hmean', hmean, map_cons, buyAll_cons, amounts]

/-- After buys into an empty position the average is not above the exact one, and below it by less
than a unit for every buy but the first: all multiplied by the volume. -/
theorem averageCost_drift_bounded (user symbol : String) {db : PositionDb}
    {calls : List (BuyCall pp)}
    (hnew : row Position.key (user, symbol) db.positions = none) (hne : calls ≠ [])
    (hfault : ∀ call ∈ calls, ¬ BuyFaulted call.input)
    (hfits : bought (calls.map amounts) < 2 ^ 63) :
    ∃ db', buyEach user symbol db calls = .ok db' ∧ let volume := db'.holding user symbol
      let average := (db'.averageOf user symbol).toInt
      volume = bought (calls.map amounts) ∧ volume * average ≤ paid (calls.map amounts) ∧
        paid (calls.map amounts) ≤
          volume * average + (calls.length - 1) * (volume - 1) := by
  have hempty : db.mean user symbol = .empty := mean_of_first_none (map_eq_none_iff.mp hnew)
  have hzero : (db.mean user symbol).volume = 0 := congrArg volume hempty
  obtain ⟨db', hrun, hmean⟩ := buyEach_mean hfault hzero.ge (by omega)
  rw [hempty] at hmean
  obtain ⟨hlow, hhigh⟩ := buyAll_empty_loss (fun h => hne (List.map_eq_nil_iff.mp h))
    (amounts_pos calls)
  rw [← hmean, length_map] at hhigh
  rw [← hmean] at hlow
  refine ⟨db', hrun, ?_, hlow, hhigh⟩
  show (db'.mean user symbol).volume = _
  rw [hmean, buyAll_volume]
  exact Int.zero_add _

end

def driftingBuys : List (BuyCall amd64Processor) :=
  [⟨"10", "0", 1000000000, 0, faultless, by decide +kernel, by decide +kernel, by decide,
      by decide⟩,
    ⟨"1", "0.0000001", 100000000, 10, faultless, by decide +kernel, by decide +kernel, by decide,
      by decide⟩,
    ⟨"1", "0.00000011", 100000000, 11, faultless, by decide +kernel, by decide +kernel, by decide,
      by decide⟩]

/-- The average of `driftingBuys` is 0 instead of 1.75. -/
theorem threeBuys_drift : ∃ db, buyEach "alice" "BTC" noPositions driftingBuys = .ok db ∧
      (db.averageOf "alice" "BTC").toInt = 0 ∧
      4 * paid (driftingBuys.map amounts) =
        7 * bought (driftingBuys.map amounts) := by
  have hrun : (buyEach "alice" "BTC" noPositions driftingBuys).toOption.any
      (fun db => (db.averageOf "alice" "BTC").toInt = 0) = true := by decide +kernel
  cases hbuys : buyEach "alice" "BTC" noPositions driftingBuys with
  | error msg =>
    rw [hbuys] at hrun
    cases hrun
  | ok db =>
    rw [hbuys] at hrun
    exact ⟨db, rfl, of_decide_eq_true hrun, by decide⟩

/-- They lose no more than two units. -/
theorem threeBuys_drift_bounded : ∃ db, buyEach "alice" "BTC" noPositions driftingBuys = .ok db ∧
      paid (driftingBuys.map amounts) ≤
        db.holding "alice" "BTC" * (db.averageOf "alice" "BTC").toInt +
          2 * (db.holding "alice" "BTC" - 1) := by
  have hnew : row Position.key ("alice", "BTC") noPositions.positions = none := rfl
  have hfault : ∀ call ∈ driftingBuys, ¬ BuyFaulted call.input := by decide
  obtain ⟨db, hrun, -, -, hle⟩ :=
    averageCost_drift_bounded "alice" "BTC" hnew (cons_ne_nil _ _) hfault (by decide)
  exact ⟨db, hrun, hle⟩

end CexHertz
