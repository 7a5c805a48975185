import Mathlib.Data.String.Basic
import CexHertz.Lib.RunningBest
import CexHertz.Service.DatabaseProcessor

/-!
# K-lines

`kline_helper.go` keeps the K-lines up to date trade by trade and compares prices as texts;
`calculateKline` makes the K-line of a minute from all its trades and compares them as numbers.
-/

namespace CexHertz

open Binary64 FloatText RunningBest List Model Function

structure Kline where
  symbol : String
  period : String
  timestamp : Int
  open_ : String
  close : String
  high : String
  low : String
  volume : String
  deriving DecidableEq, Repr

def mustParseFloat (s : String) : F64 := (parseFloat s.toList).1

section

-- `strconv.FormatFloat(x, 'f', -1, 64)`, the shortest decimal that parses to `x`; of the volumes,
-- which alone go through it, only the text is kept, so any function will do.
variable (formatFloat : F64 → String)

/-! ## Trade by trade -/

def createNewKline (symbol period : String) (bucket : Int) (price qty : String) : Kline where
  symbol := symbol
  period := period
  timestamp := bucket
  open_ := price
  close := price
  high := price
  low := price
  volume := qty

def updateExistingKline (k : Kline) (price qty : String) : Kline :=
  { k with
    high := if k.high < price then price else k.high
    low := if price < k.low then price else k.low
    close := price
    volume :=
      match parseFloat k.volume.toList, parseFloat qty.toList with
      | (v, none), (q, none) => formatFloat (v.add q)
      | _, _ => k.volume }

def foldKline (symbol period : String) (bucket : Int) : List TradeRow → Option Kline
  | [] => none
  | t :: rest =>
    some (rest.foldl (fun k t => updateExistingKline formatFloat k t.price t.quantity)
      (createNewKline symbol period bucket t.price t.quantity))

/-- The rows by symbol, period and bucket. -/
abbrev KlineTable := String × String × Int → Option Kline

def klinePeriodSeconds : List (String × Int) :=
  [("1m", 60), ("5m", 300), ("15m", 900), ("30m", 1800), ("1h", 3600), ("4h", 14400),
    ("1d", 86400), ("1w", 604800), ("1M", 2592000)]

def upsertKline (symbol period : String) (bucket : Int) (price qty : String) :
    Option Kline → Kline
  | none => createNewKline symbol period bucket price qty
  | some k => updateExistingKline formatFloat k price qty

/-- `fails`: the periods for which `GetKline`, `CreateKline` or `UpdateKline` returns another error
than that there is no row; it is dropped, and nothing is stored. -/
def updateKlines (fails : String → Bool) (klines : KlineTable) (symbol price qty : String)
    (ts : Int) : KlineTable :=
  klinePeriodSeconds.foldl (fun klines p =>
    let bucket := ts.tdiv p.2 * p.2
    if fails p.1 then klines
    else update klines (symbol, p.1, bucket) (some (upsertKline formatFloat symbol p.1 bucket price
      qty (klines (symbol, p.1, bucket))))) klines

/-! ## All trades of a minute -/

structure KlineSums where
  high : String
  low : String
  volume : F64

def KlineSums.add (sums : KlineSums) (t : TradeRow) : KlineSums where
  high := if (mustParseFloat sums.high).lt (mustParseFloat t.price) then t.price else sums.high
  low := if (mustParseFloat t.price).lt (mustParseFloat sums.low) then t.price else sums.low
  volume := sums.volume.add (mustParseFloat t.quantity)

/-- `none`: the first of no trades is asked for.  With distinct times there is one sorted order. -/
def calculateKline (symbol : String) (trades : List TradeRow) (start : Int) : Option Kline :=
  match trades.mergeSort (fun a b => a.timestamp ≤ b.timestamp) with
  | [] => none
  | first :: rest =>
    let sums := (first :: rest).foldl KlineSums.add ⟨first.price, first.price, .finite 0⟩
    some
      { symbol := symbol
        period := "1m"
        timestamp := start
        open_ := first.price
        close := ((first :: rest).getLast (cons_ne_nil _ _)).price
        high := sums.high
        low := sums.low
        volume := formatFloat sums.volume }

end

/-! ## Runs -/

section

variable {formatFloat : F64 → String}

-- The nine turns write rows of nine different periods.
theorem updateKlines_apply (p : {p // p ∈ klinePeriodSeconds}) (fails : String → Bool)
    (klines : KlineTable) (symbol price qty : String) (ts : Int) (symbol' : String)
    (bucket : Int) :
    updateKlines formatFloat fails klines symbol price qty ts (symbol', p.1.1, bucket) =
      if fails p.1.1 = false ∧ symbol' = symbol ∧ bucket = ts.tdiv p.1.2 * p.1.2 then
        some (upsertKline formatFloat symbol' p.1.1 bucket price qty
          (klines (symbol', p.1.1, bucket)))
      else klines (symbol', p.1.1, bucket) := by
  have hstep : ∀ (klines : KlineTable) (period : String) (key : String × String × Int) row key',
      (if fails period then klines else update klines key row) key' =
        if fails period = false ∧ key' = key then row else klines key' := by
    intro klines period key row key'
    cases fails period <;> simp [update_apply]
  obtain ⟨p, hp⟩ := p
  simp only [klinePeriodSeconds, mem_cons, not_mem_nil, or_false] at hp
  rcases hp with rfl | rfl | rfl | rfl | rfl | rfl | rfl | rfl | rfl <;>
  · simp only [updateKlines, klinePeriodSeconds, foldl_cons, foldl_nil, hstep, Prod.mk.injEq]
    grind

/-- After any trades the row of a symbol, a period and a bucket is the K-line of the trades that
belong to it and were stored, in their order. -/
theorem updateKlines_run (p : {p // p ∈ klinePeriodSeconds}) (symbol : String) (bucket : Int)
    (trades : List (TradeRow × (String → Bool))) :
    trades.foldl (fun klines t => updateKlines formatFloat t.2 klines t.1.symbol t.1.price
        t.1.quantity t.1.timestamp) (fun _ => none) (symbol, p.1.1, bucket) =
      foldKline formatFloat symbol p.1.1 bucket ((trades.filter fun t => t.2 p.1.1 = false ∧
        symbol = t.1.symbol ∧ bucket = t.1.timestamp.tdiv p.1.2 * p.1.2).map Prod.fst) := by
  induction trades using reverseRecOn with
  | nil => rfl
  | append_singleton trades t ih =>
    rw [foldl_concat, updateKlines_apply, ih, filter_append, map_append]
    by_cases hkey : t.2 p.1.1 = false ∧ symbol = t.1.symbol ∧
        bucket = t.1.timestamp.tdiv p.1.2 * p.1.2
    · rw [if_pos hkey, filter_cons_of_pos (by simpa using hkey), filter_nil, map_cons, map_nil]
      cases (trades.filter _).map Prod.fst with
      | nil => rfl
      | cons first rest => exact Eq.symm (congrArg some (foldl_concat ..))
    · rw [if_neg hkey, filter_cons_of_neg (by simpa using hkey), filter_nil, map_nil, append_nil]

end

/-! ## Prices as texts -/

def priceText (n : Nat) : String :=
  String.ofList
    (fixedText false (Nat.toDigits 10 (n / 10 ^ 8)) (padDigits 8 (n % 10 ^ 8)))

theorem priceText_lt_iff {m n : Nat}
    (hlen : (Nat.toDigits 10 (m / 10 ^ 8)).length = (Nat.toDigits 10 (n / 10 ^ 8)).length) :
    priceText m < priceText n ↔ m < n := by
  unfold priceText
  rw [String.lt_iff_toList_lt, String.toList_ofList, String.toList_ofList]
  exact fixedText_lt_iff (by decide) hlen

theorem priceText_le_iff {m n : Nat}
    (hlen : (Nat.toDigits 10 (m / 10 ^ 8)).length = (Nat.toDigits 10 (n / 10 ^ 8)).length) :
    priceText m ≤ priceText n ↔ m ≤ n := by
  rw [← not_lt, ← not_lt, priceText_lt_iff hlen.symm]

/-! ## Both ways -/

/-- The prices of two K-lines are the same, and the high and the low are the largest and the
smallest price of the trades. -/
structure Kline.Agrees (nano : TradeRow → Nat) (trades : List TradeRow) (k k' : Kline) : Prop where
  open_ : k.open_ = k'.open_
  close : k.close = k'.close
  high : k.high = k'.high
  low : k.low = k'.low
  largest : ∃ t ∈ trades, k.high = t.price ∧ ∀ t' ∈ trades, nano t' ≤ nano t
  smallest : ∃ t ∈ trades, k.low = t.price ∧ ∀ t' ∈ trades, nano t ≤ nano t'

/-- No price has a text beyond that of the largest one, or one before that of the smallest. -/
structure TextsOrdered (nano : TradeRow → Nat) (trades : List TradeRow) : Prop where
  high : ∀ t ∈ trades, (∀ t' ∈ trades, nano t' ≤ nano t) → ∀ t' ∈ trades, t'.price ≤ t.price
  low : ∀ t ∈ trades, (∀ t' ∈ trades, nano t ≤ nano t') → ∀ t' ∈ trades, t.price ≤ t'.price

theorem textsOrdered_of_digits {nano : TradeRow → Nat} {trades : List TradeRow} (digits : Nat)
    (hprice : ∀ t ∈ trades, t.price = priceText (nano t))
    (hdigits : ∀ t ∈ trades, (Nat.toDigits 10 (nano t / 10 ^ 8)).length = digits) :
    TextsOrdered nano trades := by
  have hiff : ∀ t ∈ trades, ∀ t' ∈ trades, t.price ≤ t'.price ↔ nano t ≤ nano t' := by
    intro t ht t' ht'
    rw [hprice t ht, hprice t' ht']
    exact priceText_le_iff ((hdigits t ht).trans (hdigits t' ht').symm)
  exact ⟨fun t ht hmax t' ht' => (hiff t' ht' t ht).mpr (hmax t' ht'),
    fun t ht hmin t' ht' => (hiff t ht t' ht').mpr (hmin t' ht')⟩

section

variable {formatFloat : F64 → String} {t : TradeRow} {rest : List TradeRow} {k : Kline}

theorem foldl_price_eq_getLast (t : TradeRow) (rest : List TradeRow) :
    rest.foldl (fun _ t => t.price) t.price =
      ((t :: rest).getLast (cons_ne_nil _ _)).price := by
  induction rest generalizing t with
  | nil => rfl
  | cons t' rest ih => exact ih t'

theorem foldl_price_eq_best (better : String → String → Bool) (t : TradeRow)
    (rest : List TradeRow) :
    rest.foldl (fun m t => if better t.price m then t.price else m) t.price =
      (best (fun t t' => better t.price t'.price) t rest).price := by
  have hmap : best better t.price (rest.map TradeRow.price) =
      (best (fun t t' => better t.price t'.price) t rest).price := best_map fun _ _ => rfl
  rw [← hmap, best, foldl_map]

variable (formatFloat) in
theorem foldl_update_open (rest : List TradeRow) (k : Kline) :
    (rest.foldl (fun k t => updateExistingKline formatFloat k t.price t.quantity) k).open_ =
      k.open_ := by
  induction rest generalizing k with
  | nil => rfl
  | cons t rest ih => exact ih _

theorem foldKline_spec {symbol period : String} {bucket : Int}
    (h : foldKline formatFloat symbol period bucket (t :: rest) = some k) :
    k.open_ = t.price ∧ k.close = ((t :: rest).getLast (cons_ne_nil _ _)).price ∧
      k.high = (best (fun x m => decide (m.price < x.price)) t rest).price ∧
      k.low = (best (fun x m => decide (x.price < m.price)) t rest).price := by
  obtain rfl := (Option.some.inj h).symm
  refine ⟨foldl_update_open formatFloat rest _, ?_, ?_, ?_⟩
  · rw [← foldl_price_eq_getLast]
    exact (foldl_hom Kline.close fun _ _ => rfl).symm
  · rw [← foldl_price_eq_best fun x m => decide (m < x)]
    refine (foldl_hom Kline.high fun k t => ?_).symm
    simp [updateExistingKline]
  · rw [← foldl_price_eq_best fun x m => decide (x < m)]
    refine (foldl_hom Kline.low fun k t => ?_).symm
    simp [updateExistingKline]

theorem foldl_sums_spec (trades : List TradeRow) (t : TradeRow) (volume : F64) :
    let sums := trades.foldl KlineSums.add ⟨t.price, t.price, volume⟩
    sums.high = (best (fun x m => (mustParseFloat m.price).lt (mustParseFloat x.price)) t
        trades).price ∧
      sums.low = (best (fun x m => (mustParseFloat x.price).lt (mustParseFloat m.price)) t
        trades).price := by
  constructor
  · rw [← foldl_price_eq_best fun x m => (mustParseFloat m).lt (mustParseFloat x)]
    exact (foldl_hom KlineSums.high fun _ _ => rfl).symm
  · rw [← foldl_price_eq_best fun x m => (mustParseFloat x).lt (mustParseFloat m)]
    exact (foldl_hom KlineSums.low fun _ _ => rfl).symm

end

section

variable {formatFloat : F64 → String} {nano : TradeRow → Nat} {trades shuffled : List TradeRow}

theorem mergeSort_eq_of_time (htime : trades.Pairwise fun t t' => t.timestamp < t'.timestamp)
    (hshuffled : shuffled.Perm trades) :
    shuffled.mergeSort (fun a b => a.timestamp ≤ b.timestamp) = trades := by
  have hperm : (shuffled.mergeSort fun a b => a.timestamp ≤ b.timestamp).Perm trades :=
    (mergeSort_perm _ _).trans hshuffled
  have hdistinct : (trades.map TradeRow.timestamp).Nodup := by
    rw [List.Nodup, pairwise_map]
    exact htime.imp fun hlt => ne_of_lt hlt
  refine List.Perm.eq_of_pairwise (fun a b ha hb hab hba => ?_)
    (pairwise_mergeSort (fun a b c hab hbc => ?_) (fun a b => ?_) _)
    (htime.imp fun hlt => ?_) hperm
  · have hle := of_decide_eq_true hab
    have hge := of_decide_eq_true hba
    exact inj_on_of_nodup_map hdistinct (hperm.mem_iff.mp ha) hb (by omega)
  · have hab := of_decide_eq_true hab
    have hbc := of_decide_eq_true hbc
    exact decide_eq_true (by omega)
  · rw [Bool.or_eq_true, decide_eq_true_eq, decide_eq_true_eq]
    omega
  · exact decide_eq_true (by omega)

theorem calculateKline_spec {t : TradeRow} {rest : List TradeRow}
    (htime : (t :: rest).Pairwise fun t t' => t.timestamp < t'.timestamp)
    (hshuffled : shuffled.Perm (t :: rest))
    (hparse : ∀ x ∈ t :: rest, ∀ y ∈ t :: rest,
      (mustParseFloat x.price).lt (mustParseFloat y.price) = true ↔ nano x < nano y)
    (symbol : String) (start : Int) :
    ∃ k, calculateKline formatFloat symbol shuffled start = some k ∧ k.open_ = t.price ∧
      k.close = ((t :: rest).getLast (cons_ne_nil _ _)).price ∧
      (∃ x ∈ t :: rest, k.high = x.price ∧ ∀ y ∈ t :: rest, nano y ≤ nano x) ∧
      ∃ x ∈ t :: rest, k.low = x.price ∧ ∀ y ∈ t :: rest, nano x ≤ nano y := by
  have hmem : ∀ x, x ∈ t :: t :: rest ↔ x ∈ t :: rest := by simp
  obtain ⟨hhigh, hlow⟩ := foldl_sums_spec (t :: rest) t (.finite 0)
  unfold calculateKline
  rw [mergeSort_eq_of_time htime hshuffled]
  refine ⟨_, rfl, rfl, rfl, ⟨_, (hmem _).mp best_mem, hhigh, fun y hy => ?_⟩,
    ⟨_, (hmem _).mp best_mem, hlow, fun y hy => ?_⟩⟩
  · refine key_le_best nano (fun x hx y hy => ?_) y ((hmem y).mpr hy)
    exact hparse y ((hmem y).mp hy) x ((hmem x).mp hx)
  · refine key_le_best (fun t => OrderDual.toDual (nano t)) (fun x hx y hy => ?_) y
      ((hmem y).mpr hy)
    exact hparse x ((hmem x).mp hx) y ((hmem y).mp hy)

theorem foldKline_texts {t : TradeRow} {rest : List TradeRow} {symbol period : String}
    {bucket : Int} {k : Kline}
    (h : foldKline formatFloat symbol period bucket (t :: rest) = some k) :
    (∃ x ∈ t :: rest, k.high = x.price ∧ ∀ y ∈ t :: rest, y.price ≤ x.price) ∧
      ∃ x ∈ t :: rest, k.low = x.price ∧ ∀ y ∈ t :: rest, x.price ≤ y.price := by
  obtain ⟨-, -, hhigh, hlow⟩ := foldKline_spec h
  refine ⟨⟨_, best_mem, hhigh, ?_⟩, ⟨_, best_mem, hlow, ?_⟩⟩
  · exact key_le_best TradeRow.price fun x _ y _ => decide_eq_true_iff
  · refine key_le_best (fun t : TradeRow => OrderDual.toDual t.price) fun x _ y _ => ?_
    exact decide_eq_true_iff

end

/-- For all trades at distinct times, with prices of eight decimal places that `ParseFloat` reads in
their order: the K-line that is kept up to date trade by trade has the prices of the one that is
calculated from the trades in any order, and the largest and the smallest price as its high and low,
exactly when no text is beyond that of the largest price or before that of the smallest. -/
theorem klines_agree_iff (formatFloat : F64 → String) (nano : TradeRow → Nat)
    {trades shuffled : List TradeRow} (hne : trades ≠ [])
    (htime : trades.Pairwise fun t t' => t.timestamp < t'.timestamp)
    (hshuffled : shuffled.Perm trades) (hprice : ∀ t ∈ trades, t.price = priceText (nano t))
    (hparse : ∀ t ∈ trades, ∀ t' ∈ trades,
      (mustParseFloat t.price).lt (mustParseFloat t'.price) = true ↔ nano t < nano t')
    (symbol period : String) (bucket start : Int) :
    ∃ k k', foldKline formatFloat symbol period bucket trades = some k ∧
      calculateKline formatFloat symbol shuffled start = some k' ∧
      (k.Agrees nano trades k' ↔ TextsOrdered nano trades) := by
  cases trades with
  | nil => exact absurd rfl hne
  | cons t rest =>
    obtain ⟨k', hk', hopen', hclose', ⟨b, hb, hhigh', hmax⟩, ⟨d, hd, hlow', hmin⟩⟩ :=
      calculateKline_spec htime hshuffled hparse symbol start
    obtain ⟨k, hk⟩ : ∃ k, foldKline formatFloat symbol period bucket (t :: rest) = some k :=
      ⟨_, rfl⟩
    obtain ⟨hopen, hclose, -⟩ := foldKline_spec hk
    obtain ⟨⟨a, ha, hhigh, htop⟩, ⟨c, hc, hlow, hbottom⟩⟩ := foldKline_texts hk
    have hcongr : ∀ x ∈ t :: rest, ∀ y ∈ t :: rest, nano x = nano y → x.price = y.price := by
      intro x hx y hy heq
      rw [hprice x hx, hprice y hy, heq]
    have htexts : k.high = k'.high ↔ ∀ x ∈ t :: rest, (∀ y ∈ t :: rest, nano y ≤ nano x) →
        ∀ y ∈ t :: rest, y.price ≤ x.price := by
      rw [hhigh, hhigh']
      exact best_keys_eq_iff TradeRow.price nano ha htop hb hmax hcongr
    have htexts' : k.low = k'.low ↔ ∀ x ∈ t :: rest, (∀ y ∈ t :: rest, nano x ≤ nano y) →
        ∀ y ∈ t :: rest, x.price ≤ y.price := by
      rw [hlow, hlow']
      exact best_keys_eq_iff (fun t : TradeRow => OrderDual.toDual t.price)
        (fun t => OrderDual.toDual (nano t)) hc hbottom hd hmin hcongr
    refine ⟨k, k', hk, hk', fun h => ⟨htexts.mp h.high, htexts'.mp h.low⟩, fun h => ?_⟩
    have hsame := htexts.mpr h.high
    have hsame' := htexts'.mpr h.low
    exact ⟨hopen.trans hopen'.symm, hclose.trans hclose'.symm, hsame, hsame',
      ⟨b, hb, hsame.trans hhigh', hmax⟩, ⟨d, hd, hsame'.trans hlow', hmin⟩⟩

/-! ### Prices around ten -/

def tradeAt (n : Nat) (timestamp : Int) : TradeRow :=
  ⟨"t", "BTCUSDT", priceText n, "1.00000000", timestamp, "a", "b", "buy", "engine", "u", "v"⟩

def unitsOf (t : TradeRow) : Nat :=
  if t.price = "9.00000000" then 900000000
  else if t.price = "9.50000000" then 950000000 else 1000000000

/-- At 9.50 and then at 9.00, seen in the other order. -/
theorem klines_below_ten_agree :
    ∃ k k', foldKline sprintf8 "BTCUSDT" "1m" 0 [tradeAt 950000000 1, tradeAt 900000000 2] =
        some k ∧
      calculateKline sprintf8 "BTCUSDT" [tradeAt 900000000 2, tradeAt 950000000 1] 0 = some k' ∧
      k.Agrees unitsOf [tradeAt 950000000 1, tradeAt 900000000 2] k' := by
  have hprice : ∀ t ∈ [tradeAt 950000000 1, tradeAt 900000000 2],
      t.price = priceText (unitsOf t) := by
    decide +kernel
  obtain ⟨k, k', hk, hk', hiff⟩ := klines_agree_iff sprintf8 unitsOf
    (cons_ne_nil (tradeAt 950000000 1) [tradeAt 900000000 2]) (by decide +kernel)
    (List.Perm.swap _ _ _) hprice (by decide +kernel) "BTCUSDT" "1m" 0 0
  exact ⟨k, k', hk, hk', hiff.mpr (textsOrdered_of_digits 1 hprice (by decide +kernel))⟩

/-- At 9.00 and then at 10.00: kept up to date the high is 9.00 and the low 10.00. -/
theorem ten_is_below_nine : (∀ t ∈ [tradeAt 900000000 1, tradeAt 1000000000 2],
      ∀ t' ∈ [tradeAt 900000000 1, tradeAt 1000000000 2],
      (mustParseFloat t.price).lt (mustParseFloat t'.price) = true ↔ unitsOf t < unitsOf t') ∧
    ∃ k k', foldKline sprintf8 "BTCUSDT" "1m" 0 [tradeAt 900000000 1, tradeAt 1000000000 2] =
        some k ∧
      calculateKline sprintf8 "BTCUSDT" [tradeAt 900000000 1, tradeAt 1000000000 2] 0 = some k' ∧
      k.high = "9.00000000" ∧ k.low = "10.00000000" ∧
      k'.high = "10.00000000" ∧ k'.low = "9.00000000" := by
  refine ⟨by decide +kernel, ?_⟩
  have hfold : (foldKline sprintf8 "BTCUSDT" "1m" 0
      [tradeAt 900000000 1, tradeAt 1000000000 2]).any (fun k =>
        decide (k.high = "9.00000000" ∧ k.low = "10.00000000")) = true := by
    decide +kernel
  have hcalculated : (calculateKline sprintf8 "BTCUSDT"
      [tradeAt 900000000 1, tradeAt 1000000000 2] 0).any (fun k =>
        decide (k.high = "10.00000000" ∧ k.low = "9.00000000")) = true := by
    have htime : [tradeAt 900000000 1, tradeAt 1000000000 2].Pairwise
        fun t t' => t.timestamp < t'.timestamp := by
      decide +kernel
    unfold calculateKline
    rw [mergeSort_eq_of_time htime (.refl _)]
    decide +kernel
  obtain ⟨k, hk, htest⟩ := Run.exists_of_any hfold
  obtain ⟨k', hk', htest'⟩ := Run.exists_of_any hcalculated
  obtain ⟨hhigh, hlow⟩ := of_decide_eq_true htest
  obtain ⟨hhigh', hlow'⟩ := of_decide_eq_true htest'
  exact ⟨k, k', hk, hk', hhigh, hlow, hhigh', hlow'⟩

end CexHertz
