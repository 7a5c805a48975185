import CexHertz.Service.Position

/-!
# Holdings

What one trade does to the positions table: a leg is described by the row it writes (`Leg`), a trade
is two legs over one parsed quantity (`Moved`).
-/

namespace CexHertz

open PositionDb Position Model Table

def PositionDb.volumeOf (db : PositionDb) (user symbol : String) : Int64 :=
  Table.cell key volumeBigint 0 (user, symbol) db.positions

def PositionDb.holding (db : PositionDb) (user symbol : String) : Int :=
  (db.volumeOf user symbol).toInt

def PositionDb.total (db : PositionDb) (symbol : String) : Int :=
  (db.positions.map fun p => if p.symbol = symbol then p.volumeBigint.toInt else 0).sum

def PositionDb.NonNegative (db : PositionDb) : Prop :=
  ∀ p ∈ db.positions, 0 ≤ p.volumeBigint.toInt

structure PositionDb.Sound (db : PositionDb) : Prop where
  unique : Table.Unique key db.positions
  nonneg : db.NonNegative
  total_lt : ∀ symbol, db.total symbol < 2 ^ 63

/-! ## What a leg computes -/

namespace PositionLeg

def amount (pp : PositionProcessor) : PositionLeg → Int
  | buy _ _ buyQtyStr _ =>
    match Model.parseQuantity pp.conv buyQtyStr with
    | .error _ => 0
    | .ok q => q.toInt
  | sell _ _ sellQtyStr =>
    match Model.parseQuantity pp.conv sellQtyStr with
    | .error _ => 0
    | .ok q => -q.toInt

variable {pp : PositionProcessor} {leg : PositionLeg} {query : Except QueryError (Nat × Position)}
  {target : Option Nat} {new : Position}

/-- A row is saved where it was found, with the volume changed by the leg, or it is created because
none was found. -/
theorem compute_eq_ok (h : leg.compute pp query = .ok (target, new)) :
    (∃ id pos, query = .ok (id, pos) ∧ target = some id ∧ new.key = pos.key ∧
      new.volumeBigint = pos.volumeBigint + Int64.ofInt (leg.amount pp)) ∨
    (query = .error .recordNotFound ∧ target = none ∧ new.key = leg.key ∧
      new.volumeBigint = Int64.ofInt (leg.amount pp)) := by
  cases leg with
  | buy userID symbol buyQtyStr buyPriceStr =>
    dsimp only [compute, amount] at h ⊢
    cases hq : Model.parseQuantity pp.conv buyQtyStr with
    | error msg =>
      rw [hq] at h
      cases h
    | ok buyQty =>
      rw [hq] at h
      dsimp only at h ⊢
      rw [Int64.ofInt_toInt]
      split at h
      · cases h
      · split at h
        · cases h
          exact .inr ⟨rfl, rfl, rfl, rfl⟩
        · cases h
        next id pos =>
          split at h
          · cases h
          · split at h
            · cases h
            · cases h
              exact .inl ⟨id, pos, rfl, rfl, rfl, rfl⟩
  | sell userID symbol sellQtyStr =>
    dsimp only [compute, amount] at h ⊢
    split at h
    · cases h
    next id pos =>
      cases hq : Model.parseQuantity pp.conv sellQtyStr with
      | error msg =>
        rw [hq] at h
        cases h
      | ok sellQty =>
        rw [hq] at h
        dsimp only at h ⊢
        split at h
        · cases h
        · cases h
          refine .inl ⟨id, pos, rfl, rfl, rfl, ?_⟩
          rw [Int64.ofInt_neg, Int64.ofInt_toInt, ← Int64.sub_eq_add_neg]

theorem amount_buy {userID symbol buyQtyStr buyPriceStr : String} {q : Int64}
    (hq : Model.parseQuantity pp.conv buyQtyStr = .ok q) :
    (buy userID symbol buyQtyStr buyPriceStr).amount pp = q.toInt := by
  dsimp only [amount]
  rw [hq]

theorem amount_sell {userID symbol sellQtyStr : String} {q : Int64}
    (hq : Model.parseQuantity pp.conv sellQtyStr = .ok q) :
    (sell userID symbol sellQtyStr).amount pp = -q.toInt := by
  dsimp only [amount]
  rw [hq]

theorem compute_sell {userID symbol sellQtyStr : String} {q : Int64} {id : Nat}
    {pos : Position} (hq : Model.parseQuantity pp.conv sellQtyStr = .ok q) :
    (∃ written, (sell userID symbol sellQtyStr).compute pp (.ok (id, pos)) = .ok written) ↔
      q.toInt ≤ pos.volumeBigint.toInt := by
  unfold compute
  dsimp only
  rw [hq]
  dsimp only
  split
  next h =>
    rw [Int64.lt_iff_toInt_lt] at h
    constructor
    · rintro ⟨_, h⟩
      cases h
    · intro hle
      omega
  next h =>
    rw [Int64.lt_iff_toInt_lt] at h
    constructor
    · intro _
      omega
    · intro _
      exact ⟨_, rfl⟩

end PositionLeg

open PositionLeg (compute compute_eq_ok compute_sell amount_buy amount_sell)

/-! ## One leg -/

structure Leg (db db' : PositionDb) (user symbol : String) (v : Int64) : Prop where
  outbox : db'.outbox = db.outbox
  put : ∃ new : Position, new.key = (user, symbol) ∧ new.volumeBigint = v ∧
    Table.Put key new db.positions db'.positions

section

variable {db db' : PositionDb} {user symbol : String} {v : Int64}

theorem Leg.volume_self (h : Leg db db' user symbol v) : db'.volumeOf user symbol = v := by
  obtain ⟨new, hkey, hv, hput⟩ := h.put
  unfold volumeOf cell
  rw [← hkey, hput.row_self, ← hv]
  rfl

theorem Leg.row_other (h : Leg db db' user symbol v) {k : String × String}
    (hk : k ≠ (user, symbol)) :
    row key k db'.positions = row key k db.positions := by
  obtain ⟨new, hkey, -, hput⟩ := h.put
  exact hput.row_other (by rw [hkey]; exact hk)

theorem Leg.volume_other (h : Leg db db' user symbol v) {user' : String} (hne : user' ≠ user) :
    db'.volumeOf user' symbol = db.volumeOf user' symbol := by
  unfold volumeOf cell
  rw [h.row_other (fun heq => hne (congrArg Prod.fst heq))]

theorem Leg.unique (h : Leg db db' user symbol v) (hdb : Table.Unique key db.positions) :
    Table.Unique key db'.positions := by
  obtain ⟨new, -, -, hput⟩ := h.put
  exact hput.unique hdb

theorem PositionDb.cell_symbol (db : PositionDb) (user symbol symbol' : String) :
    cell key (fun p => if p.symbol = symbol' then p.volumeBigint.toInt else 0) 0
      (user, symbol) db.positions = if symbol = symbol' then db.holding user symbol else 0 := by
  unfold holding volumeOf cell
  cases hrow : row key (user, symbol) db.positions with
  | none => split <;> rfl
  | some p =>
    have hsymbol : p.symbol = symbol := congrArg Prod.snd (row_eq_some hrow).2
    simp only [Option.map_some, Option.getD_some, hsymbol]

-- Only the written row moves the total, by its change.
theorem Leg.total (h : Leg db db' user symbol v) (symbol' : String) : db'.total symbol' =
      db.total symbol' + if symbol = symbol' then v.toInt - db.holding user symbol else 0 := by
  obtain ⟨new, hkey, hv, hput⟩ := h.put
  have hsymbol : new.symbol = symbol := congrArg Prod.snd hkey
  unfold PositionDb.total
  rw [hput.sum_map, hkey, db.cell_symbol, hsymbol, hv]
  split <;> omega

end

section

variable {pp : PositionProcessor} {input : TxInput} {db db' : PositionDb}
  {user symbol qtyStr priceStr : String} {q : Int64} {fault : Option String}
variable {id : Nat} {pos : Position}

theorem first_eq_ok (h : db.first fault user symbol = .ok (id, pos)) :
    first key (user, symbol) db.positions = some (id, pos) := by
  unfold PositionDb.first at h
  split at h
  · cases h
  · split at h
    · cases h
    next found hfound =>
      cases h
      exact hfound

theorem first_eq_notFound (h : db.first fault user symbol = .error .recordNotFound) :
    first key (user, symbol) db.positions = none := by
  unfold PositionDb.first at h
  split at h
  · cases h
  · split at h
    next hnone => exact hnone
    · cases h

-- Without a fault the query is the lookup.
theorem first_noFault (db : PositionDb) (user symbol : String) : db.first none user symbol =
      match first key (user, symbol) db.positions with
      | none => .error .recordNotFound
      | some found => .ok found := rfl

theorem volumeOf_of_first
    (h : first key (user, symbol) db.positions = some (id, pos)) :
    db.volumeOf user symbol = pos.volumeBigint := by
  unfold volumeOf cell row
  rw [h]
  rfl

theorem volumeOf_of_first_none (h : first key (user, symbol) db.positions = none) :
    db.volumeOf user symbol = 0 := by
  unfold volumeOf cell row
  rw [h]
  rfl

-- The row did not exist, so its holding went from zero to the new volume.
theorem create_leg (h : db.create fault pos = .ok db') (hkey : pos.key = (user, symbol))
    (hfirst : first key (user, symbol) db.positions = none) :
    Leg db db' user symbol pos.volumeBigint := by
  unfold create at h
  split at h
  · cases h
  · cases h
    exact ⟨rfl, pos, hkey, rfl, put_append hfirst hkey⟩

theorem key_of_first (h : first key (user, symbol) db.positions = some (id, pos)) :
    pos.key = (user, symbol) := by
  obtain ⟨_, _, _, _, hkey, _⟩ := first_eq_some h
  exact hkey

theorem save_leg {old : Position} (h : db.save fault id pos = .ok db')
    (hfirst : first key (user, symbol) db.positions = some (id, old))
    (hkey : pos.key = old.key) :
    Leg db db' user symbol pos.volumeBigint := by
  unfold save at h
  split at h
  · cases h
  · cases h
    have hpos : pos.key = (user, symbol) := hkey.trans (key_of_first hfirst)
    exact ⟨rfl, pos, hpos, rfl, put_set hfirst hpos⟩

theorem write_eq_ok {r : Except String (Option Nat × Position)} (h : db.write fault r = .ok db') :
    ∃ written, r = .ok written := by
  cases r with
  | error msg => cases h
  | ok written => exact ⟨written, rfl⟩

theorem write_leg {fault' : Option String} {leg : PositionLeg} (hkey : leg.key = (user, symbol))
    (h : db.write fault (leg.compute pp (db.first fault' user symbol)) = .ok db') :
    Leg db db' user symbol (db.volumeOf user symbol + Int64.ofInt (leg.amount pp)) := by
  obtain ⟨⟨target, new⟩, hcompute⟩ := write_eq_ok h
  rw [hcompute] at h
  rcases compute_eq_ok hcompute with
    ⟨id, pos, hquery, rfl, hnew, hvolume⟩ | ⟨hquery, rfl, hnew, hvolume⟩
  · have hfirst := first_eq_ok hquery
    rw [volumeOf_of_first hfirst, ← hvolume]
    exact save_leg h hfirst hnew
  · have hfirst := first_eq_notFound hquery
    rw [volumeOf_of_first_none hfirst, Int64.zero_add, ← hvolume]
    exact create_leg h (hnew.trans hkey) hfirst

theorem buyPositionTx_leg (h : buyPositionTx pp input db user symbol qtyStr priceStr = .ok db')
    (hq : Model.parseQuantity pp.conv qtyStr = .ok q) :
    Leg db db' user symbol (db.volumeOf user symbol + q) := by
  have hleg := write_leg rfl h
  rwa [amount_buy hq, Int64.ofInt_toInt] at hleg

theorem sellPositionTx_leg (h : sellPositionTx pp input db user symbol qtyStr = .ok db')
    (hq : Model.parseQuantity pp.conv qtyStr = .ok q) :
    q.toInt ≤ db.holding user symbol ∧ Leg db db' user symbol (db.volumeOf user symbol - q) := by
  have hleg := write_leg rfl h
  rw [amount_sell hq, Int64.ofInt_neg, Int64.ofInt_toInt, ← Int64.sub_eq_add_neg] at hleg
  refine ⟨?_, hleg⟩
  obtain ⟨written, hcompute⟩ := write_eq_ok h
  cases hquery : db.first (input.fault .firstSell) user symbol with
  | error err =>
    rw [hquery] at hcompute
    cases hcompute
  | ok found =>
    rw [hquery] at hcompute
    unfold holding
    rw [volumeOf_of_first (first_eq_ok hquery)]
    exact (compute_sell hq).mp ⟨written, hcompute⟩

theorem sellPositionTx_ok (hfault : ∀ c, input.fault c = none)
    (hq : Model.parseQuantity pp.conv qtyStr = .ok q) (hpos : 0 < q.toInt)
    (hcovered : q.toInt ≤ db.holding user symbol) :
    ∃ db', sellPositionTx pp input db user symbol qtyStr = .ok db' := by
  unfold sellPositionTx
  rw [hfault, hfault, first_noFault]
  unfold holding at hcovered
  cases hfirst : first key (user, symbol) db.positions with
  | none =>
    rw [volumeOf_of_first_none hfirst, Int64.toInt_zero] at hcovered
    omega
  | some found =>
    rw [volumeOf_of_first hfirst] at hcovered
    obtain ⟨⟨target, new⟩, hcompute⟩ := (compute_sell hq).mpr hcovered
    dsimp only
    rw [hcompute]
    cases target <;> exact ⟨_, rfl⟩

theorem weightedAverage_mem {a b x y lo hi : Int} (ha : 0 ≤ a) (hb : 0 < b) (hx : lo ≤ x ∧ x ≤ hi)
    (hy : lo ≤ y ∧ y ≤ hi) : lo ≤ (a * x + b * y) / (a + b) ∧ (a * x + b * y) / (a + b) ≤ hi := by
  have hpos : 0 < a + b := by omega
  constructor
  · rw [Int.le_ediv_iff_mul_le hpos]
    nlinarith
  · apply Int.le_of_lt_add_one
    rw [Int.ediv_lt_iff_lt_mul hpos]
    nlinarith

theorem buyPositionTx_ok (hfault : ∀ c, input.fault c = none)
    (hq : Model.parseQuantity pp.conv qtyStr = .ok q) (hpos : 0 < q.toInt) {price : Int64}
    (hprice : Model.parsePrice pp.conv priceStr = .ok price) (hnonneg : 0 ≤ db.holding user symbol)
    (hfits : db.holding user symbol + q.toInt < 2 ^ 63) :
    ∃ db', buyPositionTx pp input db user symbol qtyStr priceStr = .ok db' := by
  unfold buyPositionTx compute
  dsimp only
  rw [hq, hprice, hfault, hfault, first_noFault]
  unfold holding at hnonneg hfits
  cases hfirst : first key (user, symbol) db.positions with
  | none => exact ⟨_, rfl⟩
  | some found =>
    rw [volumeOf_of_first hfirst] at hnonneg hfits
    have hsum : (found.2.volumeBigint + q).toInt = found.2.volumeBigint.toInt + q.toInt := by
      rw [Int64.toInt_add]
      exact Int.bmod_eq_of_le (by omega) (by omega)
    have hold := And.intro (Int64.le_toInt found.2.avgPriceBigint)
      (Int.le_sub_one_of_lt (Int64.toInt_lt found.2.avgPriceBigint))
    have hnew := And.intro (Int64.le_toInt price) (Int.le_sub_one_of_lt (Int64.toInt_lt price))
    -- the average of two `int64` prices is one, so the overflow check passes
    have havg := weightedAverage_mem hnonneg hpos hold hnew
    dsimp only
    rw [hsum, if_neg (by omega), if_neg (by omega)]
    exact ⟨_, rfl⟩

end

/-! ## Both legs -/

def TradeExecutedEvent.buyer (e : TradeExecutedEvent) : String :=
  if e.takerSide = "buy" then e.takerUser else e.makerUser

def TradeExecutedEvent.seller (e : TradeExecutedEvent) : String :=
  if e.takerSide = "buy" then e.makerUser else e.takerUser

structure Moved (db db' : PositionDb) (buyer seller symbol : String) (q : Int64) : Prop where
  outbox : db'.outbox = db.outbox
  unique : Table.Unique key db.positions → Table.Unique key db'.positions
  others : ∀ k, k ≠ (buyer, symbol) → k ≠ (seller, symbol) →
    Table.row key k db'.positions = Table.row key k db.positions
  covered : buyer ≠ seller → q.toInt ≤ db.holding seller symbol
  bought : buyer ≠ seller → db'.volumeOf buyer symbol = db.volumeOf buyer symbol + q
  sold : buyer ≠ seller → db'.volumeOf seller symbol = db.volumeOf seller symbol - q
  kept : buyer = seller → db'.volumeOf buyer symbol = db.volumeOf buyer symbol
  total : ∀ symbol', db'.total symbol' = db.total symbol' +
    if symbol = symbol' ∧ buyer ≠ seller then
      (db'.holding buyer symbol - db.holding buyer symbol) +
        (db'.holding seller symbol - db.holding seller symbol)
    else 0

section

variable {pp : PositionProcessor} {input : TxInput} {db mid db' : PositionDb}
  {buyer seller symbol : String} {q : Int64} {e : TradeExecutedEvent}

-- The taker buys: the buyer's leg is written first and the seller's row is read after it.
theorem moved_of_buy_sell (hbuy : Leg db mid buyer symbol (db.volumeOf buyer symbol + q))
    (hcovered : q.toInt ≤ mid.holding seller symbol)
    (hsell : Leg mid db' seller symbol (mid.volumeOf seller symbol - q)) :
    Moved db db' buyer seller symbol q where
  outbox := hsell.outbox.trans hbuy.outbox
  unique := fun h => hsell.unique (hbuy.unique h)
  others := fun k hk hk' => (hsell.row_other hk').trans (hbuy.row_other hk)
  covered := by
    intro hne
    unfold holding at hcovered ⊢
    rwa [hbuy.volume_other hne.symm] at hcovered
  bought := fun hne => (hsell.volume_other hne).trans hbuy.volume_self
  sold := fun hne => by rw [hsell.volume_self, hbuy.volume_other hne.symm]
  kept := by
    rintro rfl
    rw [hsell.volume_self, hbuy.volume_self, Int64.add_sub_cancel]
  total := by
    intro symbol'
    rw [hsell.total, hbuy.total]
    unfold holding
    by_cases hne : buyer = seller
    · subst hne
      rw [hbuy.volume_self, Int64.add_sub_cancel]
      simp only [ne_eq, not_true_eq_false, and_false, if_false]
      split <;> omega
    · rw [hsell.volume_other hne, hbuy.volume_self, hsell.volume_self,
        hbuy.volume_other (Ne.symm hne)]
      simp only [ne_eq, hne, not_false_eq_true, and_true]
      split <;> omega

-- The taker sells: the seller's leg is written first.
theorem moved_of_sell_buy (hcovered : q.toInt ≤ db.holding seller symbol)
    (hsell : Leg db mid seller symbol (db.volumeOf seller symbol - q))
    (hbuy : Leg mid db' buyer symbol (mid.volumeOf buyer symbol + q)) :
    Moved db db' buyer seller symbol q where
  outbox := hbuy.outbox.trans hsell.outbox
  unique := fun h => hbuy.unique (hsell.unique h)
  others := fun k hk hk' => (hbuy.row_other hk).trans (hsell.row_other hk')
  covered := fun _ => hcovered
  bought := fun hne => by rw [hbuy.volume_self, hsell.volume_other hne]
  sold := fun hne => (hbuy.volume_other hne.symm).trans hsell.volume_self
  kept := by
    rintro rfl
    rw [hbuy.volume_self, hsell.volume_self, Int64.sub_add_cancel]
  total := by
    intro symbol'
    rw [hbuy.total, hsell.total]
    unfold holding
    by_cases hne : buyer = seller
    · subst hne
      rw [hsell.volume_self, Int64.sub_add_cancel]
      simp only [ne_eq, not_true_eq_false, and_false, if_false]
      split <;> omega
    · rw [hbuy.volume_other (Ne.symm hne), hsell.volume_self, hbuy.volume_self,
        hsell.volume_other hne]
      simp only [ne_eq, hne, not_false_eq_true, and_true]
      split <;> omega

theorem moveQuantity_moved (h : moveQuantity pp input db e = .ok db')
    (hq : Model.parseQuantity pp.conv (nanoString e.quantity) = .ok q) :
    Moved db db' e.buyer e.seller e.symbolStr q := by
  unfold moveQuantity at h
  unfold TradeExecutedEvent.buyer TradeExecutedEvent.seller
  dsimp only at h
  split at h
  next hside =>
    rw [if_pos hside, if_pos hside]
    split at h
    · cases h
    next mid hbuy =>
      obtain ⟨hcovered, hsell⟩ := sellPositionTx_leg h hq
      exact moved_of_buy_sell (buyPositionTx_leg hbuy hq) hcovered hsell
  next hside =>
    rw [if_neg hside, if_neg hside]
    split at h
    · cases h
    next mid hsell =>
      obtain ⟨hcovered, hsell⟩ := sellPositionTx_leg hsell hq
      exact moved_of_sell_buy hcovered hsell (buyPositionTx_leg h hq)

theorem PositionDb.Sound.holding_nonneg (h : db.Sound) (user symbol : String) :
    0 ≤ db.holding user symbol := by
  unfold holding volumeOf cell
  cases hrow : row key (user, symbol) db.positions with
  | none => exact Int.le_refl 0
  | some p => exact h.nonneg p (row_eq_some hrow).1

theorem PositionDb.Sound.holding_add_lt (h : db.Sound) (hne : buyer ≠ seller) (symbol : String) :
    db.holding buyer symbol + db.holding seller symbol < 2 ^ 63 := by
  let column (p : Position) : Int := if p.symbol = symbol then p.volumeBigint.toInt else 0
  have hcolumn : ∀ p ∈ db.positions, 0 ≤ column p := by
    intro p hp
    have := h.nonneg p hp
    dsimp only [column]
    split <;> omega
  have hle : cell key column 0 (buyer, symbol) db.positions +
      cell key column 0 (seller, symbol) db.positions ≤ db.total symbol :=
    cell_add_cell_le_sum hcolumn fun heq => hne (congrArg Prod.fst heq)
  rw [db.cell_symbol, db.cell_symbol, if_pos rfl, if_pos rfl] at hle
  exact Int.lt_of_le_of_lt hle (h.total_lt symbol)

theorem moveQuantity_ok_iff (hsound : db.Sound) (hfault : ∀ c, input.fault c = none)
    (hq : Model.parseQuantity pp.conv (nanoString e.quantity) = .ok q) (hpos : 0 < q.toInt)
    (hprice : |e.price| ≤ 2 ^ 63) (hne : e.buyer ≠ e.seller) :
    (∃ db', moveQuantity pp input db e = .ok db') ↔ q.toInt ≤ db.holding e.seller e.symbolStr := by
  constructor
  · rintro ⟨db', h⟩
    exact (moveQuantity_moved h hq).covered hne
  · intro hcovered
    obtain ⟨price, hparse⟩ := parseAmount_nanoString pp.conv "price" hprice
    have hnonneg := hsound.holding_nonneg e.buyer e.symbolStr
    have hlt := hsound.holding_add_lt hne e.symbolStr
    unfold moveQuantity
    unfold TradeExecutedEvent.buyer TradeExecutedEvent.seller at *
    dsimp only
    split
    next hside =>
      simp only [if_pos hside] at hne hcovered hnonneg hlt
      obtain ⟨mid, hbuy⟩ := buyPositionTx_ok hfault hq hpos hparse hnonneg (by omega)
      have hleg := buyPositionTx_leg hbuy hq
      rw [hbuy]
      apply sellPositionTx_ok hfault hq hpos
      unfold holding
      rwa [hleg.volume_other hne.symm]
    next hside =>
      simp only [if_neg hside] at hne hcovered hnonneg hlt
      obtain ⟨mid, hsell⟩ := sellPositionTx_ok hfault hq hpos hcovered
      have hleg := (sellPositionTx_leg hsell hq).2
      have hmaker : mid.holding e.makerUser e.symbolStr = db.holding e.makerUser e.symbolStr :=
        congrArg Int64.toInt (hleg.volume_other hne)
      rw [hsell]
      exact buyPositionTx_ok hfault hq hpos hparse (by omega) (by omega)

theorem Moved.holdings (h : Moved db db' buyer seller symbol q) (hsound : db.Sound)
    (hpos : 0 < q.toInt) (hne : buyer ≠ seller) :
    db'.holding buyer symbol = db.holding buyer symbol + q.toInt ∧
      db'.holding seller symbol = db.holding seller symbol - q.toInt := by
  have hcovered := h.covered hne
  have hlt := hsound.holding_add_lt hne symbol
  have hbuyer := hsound.holding_nonneg buyer symbol
  have hseller := hsound.holding_nonneg seller symbol
  unfold holding at *
  rw [h.bought hne, h.sold hne, Int64.toInt_add, Int64.toInt_sub]
  exact ⟨Int.bmod_eq_of_le (by omega) (by omega), Int.bmod_eq_of_le (by omega) (by omega)⟩

-- What one row gains the other loses; with one user for both, the row ends where it began.
theorem Moved.total_eq (h : Moved db db' buyer seller symbol q) (hsound : db.Sound)
    (hpos : 0 < q.toInt) (symbol' : String) : db'.total symbol' = db.total symbol' := by
  rw [h.total]
  split
  next hcond =>
    obtain ⟨hbuyer, hseller⟩ := h.holdings hsound hpos hcond.2
    omega
  next => omega

theorem Moved.holding_nonneg (h : Moved db db' buyer seller symbol q) (hsound : db.Sound)
    (hpos : 0 < q.toInt) :
    0 ≤ db'.holding buyer symbol ∧ 0 ≤ db'.holding seller symbol := by
  have hbuyer := hsound.holding_nonneg buyer symbol
  by_cases hne : buyer = seller
  · subst hne
    have hkept : db'.holding buyer symbol = db.holding buyer symbol :=
      congrArg Int64.toInt (h.kept rfl)
    omega
  · have hcovered := h.covered hne
    obtain ⟨hbuyer', hseller'⟩ := h.holdings hsound hpos hne
    omega

theorem Moved.sound (h : Moved db db' buyer seller symbol q) (hsound : db.Sound)
    (hpos : 0 < q.toInt) : db'.Sound where
  unique := h.unique hsound.unique
  total_lt := fun symbol' => by
    rw [h.total_eq hsound hpos]
    exact hsound.total_lt symbol'
  nonneg := by
    intro p hp
    have hrow := (h.unique hsound.unique).row_of_mem hp
    -- the volume of a row is the holding of its key
    have hvolume : ∀ user symbol, p.key = (user, symbol) →
        db'.holding user symbol = p.volumeBigint.toInt := by
      intro user symbol hkey
      unfold holding volumeOf cell
      rw [← hkey, hrow]
      rfl
    obtain ⟨hbuyer, hseller⟩ := h.holding_nonneg hsound hpos
    by_cases hkb : p.key = (buyer, symbol)
    · rwa [← hvolume _ _ hkb]
    · by_cases hks : p.key = (seller, symbol)
      · rwa [← hvolume _ _ hks]
      · rw [h.others _ hkb hks] at hrow
        exact hsound.nonneg p (row_eq_some hrow).1

end

end CexHertz
