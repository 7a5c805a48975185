import CexHertz.Lib.MachineInt
import CexHertz.Model.Amount
import CexHertz.Service.PriceTime

/-!
# Market depth

`OrderBook.GetDepth`: the first levels of each side with the remaining quantities of their orders
added up in an `int64`: the sum is right up to a multiple of 2^64, and right exactly when it is
below 2^63.
-/

namespace CexHertz

open List

/-! ## The aggregation -/

def totalQty (queue : List OrderBookEntry) : Int :=
  queue.foldl
    (fun total order => wrapInt64 (total + wrapInt64 (order.quantity - order.filledQty))) 0

structure DepthLevel where
  price : Int
  quantity : Int
  deriving DecidableEq, Repr

open DepthLevel

def depthLoop (levels : Int) : Int → List (Int × List OrderBookEntry) → List DepthLevel
  | _, [] => []
  | i, (price, queue) :: rest =>
    if i < levels then ⟨price, totalQty queue⟩ :: depthLoop levels (i + 1) rest else []

section

variable {buyBefore sellBefore : Int → Int → Prop} [DecidableRel buyBefore]
  [DecidableRel sellBefore] {C : Containers buyBefore sellBefore}

def OrderBook.bidLevels (ob : OrderBook C) (levels : Int) : List DepthLevel :=
  depthLoop levels 0 (C.buys.elements ob.buys)

def OrderBook.askLevels (ob : OrderBook C) (levels : Int) : List DepthLevel :=
  depthLoop levels 0 (C.sells.elements ob.sells)

end

/-! ## Sums of a queue -/

def remainingTotal (queue : List OrderBookEntry) : Int :=
  queue.foldr (fun order total => order.quantity - order.filledQty + total) 0

theorem totalQty_eq (queue : List OrderBookEntry) :
    totalQty queue = wrapInt64 (remainingTotal queue) := by
  have hloop : ∀ total : Int, queue.foldl (fun total order =>
        wrapInt64 (total + wrapInt64 (order.quantity - order.filledQty))) (wrapInt64 total) =
      wrapInt64 (total + remainingTotal queue) := by
    induction queue with
    | nil =>
      intro total
      rw [foldl_nil, remainingTotal, foldr_nil, Int.add_zero]
    | cons order queue ih =>
      intro total
      rw [foldl_cons, wrapInt64_add_wrapInt64, wrapInt64_wrapInt64_add, ih,
        remainingTotal, remainingTotal, foldr_cons, Int.add_assoc]
  have h := hloop 0
  rwa [Int.zero_add] at h

theorem remainingTotal_pos {P : OrderBookEntry → Prop} {level : Int × List OrderBookEntry}
    (h : LevelOk P level) : 0 < remainingTotal level.2 := by
  have hnonneg : ∀ queue : List OrderBookEntry, (∀ x ∈ queue, x.filledQty < x.quantity) →
      0 ≤ remainingTotal queue := by
    intro queue
    induction queue with
    | nil => exact fun _ => Int.le_refl 0
    | cons order queue ih =>
      intro hqueue
      have hfirst := hqueue order mem_cons_self
      have hrest := ih fun x hx => hqueue x (.tail _ hx)
      show 0 ≤ order.quantity - order.filledQty + remainingTotal queue
      omega
  obtain ⟨price, queue⟩ := level
  cases queue with
  | nil => exact absurd rfl h.nonempty
  | cons order queue =>
    have hfirst := (h.entries order mem_cons_self).filled_lt
    have hrest := hnonneg queue fun x hx => (h.entries x (.tail _ hx)).filled_lt
    show 0 < order.quantity - order.filledQty + remainingTotal queue
    omega

/-! ## The levels that are visited -/

theorem depthLoop_eq (levels i : Int) (side : List (Int × List OrderBookEntry)) :
    depthLoop levels i side =
      (side.take (levels - i).toNat).map fun level => ⟨level.1, totalQty level.2⟩ := by
  induction side generalizing i with
  | nil => rw [depthLoop, take_nil, map_nil]
  | cons level side ih =>
    rw [depthLoop]
    split
    next h =>
      rw [ih, show (levels - i).toNat = (levels - (i + 1)).toNat + 1 by omega,
        take_succ_cons, map_cons]
    next h => rw [show (levels - i).toNat = 0 by omega, take_zero, map_nil]

/-- One side of a depth snapshot is what it should be: the best levels of the side, as many as were
asked for, best first, each with the sum of the remaining quantities there. -/
structure DepthExact (better : Int → Int → Prop) (side : List (Int × List OrderBookEntry))
    (levels : Int) (depth : List DepthLevel) : Prop where
  count : depth.length = min levels.toNat side.length
  visited : depth.map price = (side.take levels.toNat).map Prod.fst
  best_first : (depth.map price).Pairwise better
  best : ∀ d ∈ depth, ∀ level ∈ side, level.1 ∉ depth.map price → better d.price level.1
  sums : depth.map quantity = (side.take levels.toNat).map fun level => remainingTotal level.2
  positive : ∀ d ∈ depth, 0 < d.quantity

section

variable {before : Int → Int → Prop} {side : List (Int × List OrderBookEntry)} {levels : Int}

theorem depthLoop_prices (levels : Int) (side : List (Int × List OrderBookEntry)) :
    (depthLoop levels 0 side).map price = (side.take levels.toNat).map Prod.fst := by
  rw [depthLoop_eq, Int.sub_zero, map_map]
  rfl

theorem depthLoop_quantities (levels : Int) (side : List (Int × List OrderBookEntry)) :
    (depthLoop levels 0 side).map quantity =
      (side.take levels.toNat).map fun level => wrapInt64 (remainingTotal level.2) := by
  rw [depthLoop_eq, Int.sub_zero, map_map]
  apply map_congr_left
  intro level _
  exact totalQty_eq level.2

theorem depthLoop_best (h : Assoc.Ascending before side) {d : DepthLevel}
    (hd : d ∈ depthLoop levels 0 side) {level : Int × List OrderBookEntry} (hlevel : level ∈ side)
    (hnot : level.1 ∉ (depthLoop levels 0 side).map price) :
    before d.price level.1 := by
  have hprice : d.price ∈ (side.take levels.toNat).map Prod.fst := by
    rw [← depthLoop_prices]
    exact mem_map_of_mem hd
  obtain ⟨first, hfirst, heq⟩ := List.mem_map.mp hprice
  rw [depthLoop_prices] at hnot
  rw [← take_append_drop levels.toNat side] at h hlevel
  rcases List.mem_append.mp hlevel with hmem | hmem
  · exact absurd (mem_map_of_mem hmem) hnot
  · rw [← heq]
    exact (List.pairwise_append.mp h).2.2 first hfirst level hmem

theorem depthLoop_exact_iff {P : OrderBookEntry → Prop} (hasc : Assoc.Ascending before side)
    (hok : LevelsOk P side) :
    DepthExact before side levels (depthLoop levels 0 side) ↔
      ∀ level ∈ side.take levels.toNat, remainingTotal level.2 < 2 ^ 63 := by
  have hpos : ∀ level ∈ side.take levels.toNat, 0 < remainingTotal level.2 :=
    fun level h => remainingTotal_pos (hok level (mem_of_mem_take h))
  have hsums : (depthLoop levels 0 side).map quantity =
      (side.take levels.toNat).map (fun level => remainingTotal level.2) ↔
        ∀ level ∈ side.take levels.toNat, remainingTotal level.2 < 2 ^ 63 := by
    rw [depthLoop_quantities, map_inj_left]
    refine forall₂_congr fun level h => ?_
    exact wrapInt64_eq_self_iff (Int.le_of_lt (hpos level h))
  constructor
  · intro h
    exact hsums.mp h.sums
  · intro h
    have hquantities := hsums.mpr h
    exact {
      count := by rw [depthLoop_eq, length_map, Int.sub_zero, length_take]
      visited := depthLoop_prices levels side
      best_first := by
        rw [depthLoop_prices, pairwise_map]
        exact List.Pairwise.sublist (take_sublist _ _) hasc
      best := fun d hd level hlevel hnot => depthLoop_best hasc hd hlevel hnot
      sums := hquantities
      positive := by
        intro d hd
        have hmem := hquantities ▸ mem_map_of_mem hd
        obtain ⟨level, hlevel, heq⟩ := List.mem_map.mp hmem
        exact heq ▸ hpos level hlevel }

end

/-! ## Depth of a reachable book -/

/-- For every book that calls lead to and every number of levels, the depth is exact on both sides
exactly when no visited level holds 2^63 or more. -/
theorem getDepth_exact_iff (C : CompareContainers) (symbol : String) (calls : List BookCall)
    (levels : Int) :
    let ob := runCalls (newOrderBook C symbol) calls
    (DepthExact (· > ·) (C.buys.elements ob.buys) levels (ob.bidLevels levels) ∧
      DepthExact (· < ·) (C.sells.elements ob.sells) levels (ob.askLevels levels)) ↔
    (∀ level ∈ (C.buys.elements ob.buys).take levels.toNat, remainingTotal level.2 < 2 ^ 63) ∧
      ∀ level ∈ (C.sells.elements ob.sells).take levels.toNat,
        remainingTotal level.2 < 2 ^ 63 := by
  intro ob
  have hok : ob.Ok fun _ => True :=
    (newOrderBook_ok symbol).runCalls (fun _ _ _ h => h) calls fun _ _ _ => trivial
  have hbuys : Assoc.Ascending (· > ·) (C.buys.elements ob.buys) :=
    (C.buys.ascending ob.buys).imp fun h => priceComparatorDesc_compareBefore.mp h
  have hsells : Assoc.Ascending (· < ·) (C.sells.elements ob.sells) :=
    (C.sells.ascending ob.sells).imp fun h => priceComparatorAsc_compareBefore.mp h
  exact and_congr (depthLoop_exact_iff hbuys hok.buys) (depthLoop_exact_iff hsells hok.sells)

/-- Two orders of 2^62 at one price: the level reads -2^63. -/
theorem getDepth_wraps : let C : CompareContainers := Containers.sorted _ _
    let calls := [.matchOrder (.limit "a" "alice" "buy" 100 (2 ^ 62)) noStamp,
      .matchOrder (.limit "b" "bob" "buy" 100 (2 ^ 62)) noStamp]
    let ob := runCalls (newOrderBook C "BTC/USDT") calls
    ob.bidLevels 10 = [⟨100, -2 ^ 63⟩] ∧
      ¬ (DepthExact (· > ·) (C.buys.elements ob.buys) 10 (ob.bidLevels 10) ∧
        DepthExact (· < ·) (C.sells.elements ob.sells) 10 (ob.askLevels 10)) := by
  intro C calls ob
  have hbids : ob.bidLevels 10 = [⟨100, -2 ^ 63⟩] := by decide +kernel
  refine ⟨hbids, fun h => ?_⟩
  have hpos := h.1.positive ⟨100, -2 ^ 63⟩ (by rw [hbids]; exact mem_singleton_self _)
  exact absurd hpos (by decide)

end CexHertz
