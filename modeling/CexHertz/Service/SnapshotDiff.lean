import CexHertz.Service.StateSnapshot

/-!
# Comparing two snapshots

`CompareSnapshots` of `state_snapshot.go` looks for differences in fewer fields than go into the
checksum: a trade is only missed or found too many, and of an order book neither the symbol nor the
levels are compared.
-/

namespace CexHertz

open List

/-! ## Differences -/

structure CountMismatch where
  field : String
  expected : Int
  actual : Int
  deriving DecidableEq

inductive FieldValue where
  | int (n : Int)
  | text (s : String)
  deriving DecidableEq

structure OrderChange where
  orderID : String
  field : String
  expected : FieldValue
  actual : FieldValue
  deriving DecidableEq

structure PositionChange where
  userID : String
  field : String
  expected : Int
  actual : Int
  deriving DecidableEq

structure OrderBookDiff where
  bestBidMismatch : Bool
  bestAskMismatch : Bool
  bidDepthMismatch : Bool
  askDepthMismatch : Bool
  spreadMismatch : Bool
  preBestBid : Int
  postBestBid : Int
  preBestAsk : Int
  postBestAsk : Int
  preBidDepth : Int
  postBidDepth : Int
  preAskDepth : Int
  postAskDepth : Int
  preSpread : Int
  postSpread : Int
  deriving DecidableEq

structure SnapshotDiff where
  preChecksum : String
  postChecksum : String
  isIdentical : Bool
  eventCountMismatch : Option CountMismatch
  orderCountMismatch : Option CountMismatch
  tradeCountMismatch : Option CountMismatch
  positionCountMismatch : Option CountMismatch
  missingOrders : List String
  extraOrders : List String
  changedOrders : List OrderChange
  missingTrades : List String
  extraTrades : List String
  missingPositions : List String
  extraPositions : List String
  changedPositions : List PositionChange
  orderBookDiff : Option OrderBookDiff
  deriving DecidableEq

/-! ## The comparison -/

def countMismatch (field : String) (expected actual : Int) : Option CountMismatch :=
  if expected ≠ actual then some ⟨field, expected, actual⟩ else none

section

variable {ν β : Type}

def findMissing (pre post : AList fun _ : String => ν) : List String :=
  (pre.keys.filter fun id => id ∉ post).insertionSort (· ≤ ·)

def findChanged (changes : String → ν → ν → List β) (pre post : AList fun _ : String => ν) :
    List β :=
  pre.entries.flatMap fun e =>
    match post.lookup e.1 with
    | none => []
    | some v => changes e.1 e.2 v

end

def findMissingOrders (pre post : AList fun _ : String => OrderSnapshot) : List String :=
  findMissing pre post

def findExtraOrders (pre post : AList fun _ : String => OrderSnapshot) : List String :=
  findMissing post pre

def findMissingTrades (pre post : AList fun _ : String => TradeSnapshot) : List String :=
  findMissing pre post

def findExtraTrades (pre post : AList fun _ : String => TradeSnapshot) : List String :=
  findMissing post pre

def findMissingPositions (pre post : AList fun _ : String => PositionSnapshot) : List String :=
  findMissing pre post

def findExtraPositions (pre post : AList fun _ : String => PositionSnapshot) : List String :=
  findMissing post pre

def changeOf {α β : Type} [DecidableEq α] (change : α → α → β) (expected actual : α) : List β :=
  if expected ≠ actual then [change expected actual] else []

def orderChanges (id : String) (pre post : OrderSnapshot) : List OrderChange :=
  changeOf (fun e a => ⟨id, "Price", .int e, .int a⟩) pre.price post.price ++
    changeOf (fun e a => ⟨id, "Quantity", .int e, .int a⟩) pre.quantity post.quantity ++
    changeOf (fun e a => ⟨id, "FilledQty", .int e, .int a⟩) pre.filledQty post.filledQty ++
    changeOf (fun e a => ⟨id, "Status", .text e, .text a⟩) pre.status post.status

def positionChanges (id : String) (pre post : PositionSnapshot) : List PositionChange :=
  changeOf (fun e a => ⟨id, "QuantityHeld", e, a⟩) pre.quantityHeld post.quantityHeld ++
    changeOf (fun e a => ⟨id, "CostBase", e, a⟩) pre.costBase post.costBase ++
    changeOf (fun e a => ⟨id, "RealizedPnl", e, a⟩) pre.realizedPnl post.realizedPnl ++
    changeOf (fun e a => ⟨id, "UnrealizedPnl", e, a⟩) pre.unrealizedPnl post.unrealizedPnl

def findChangedOrders (pre post : AList fun _ : String => OrderSnapshot) : List OrderChange :=
  findChanged orderChanges pre post

def findChangedPositions (pre post : AList fun _ : String => PositionSnapshot) :
    List PositionChange :=
  findChanged positionChanges pre post

def compareOrderBooks (pre post : OrderBookSnapshot) : Option OrderBookDiff :=
  let diff : OrderBookDiff :=
    { bestBidMismatch := pre.bestBid ≠ post.bestBid
      bestAskMismatch := pre.bestAsk ≠ post.bestAsk
      bidDepthMismatch := pre.bidDepth ≠ post.bidDepth
      askDepthMismatch := pre.askDepth ≠ post.askDepth
      spreadMismatch := pre.spread ≠ post.spread
      preBestBid := pre.bestBid
      postBestBid := post.bestBid
      preBestAsk := pre.bestAsk
      postBestAsk := post.bestAsk
      preBidDepth := pre.bidDepth
      postBidDepth := post.bidDepth
      preAskDepth := pre.askDepth
      postAskDepth := post.askDepth
      preSpread := pre.spread
      postSpread := post.spread }
  if diff.bestBidMismatch || diff.bestAskMismatch || diff.bidDepthMismatch ||
      diff.askDepthMismatch || diff.spreadMismatch then some diff
  else none

def bookDiff (pre post : StateSnapshot) : Option OrderBookDiff :=
  match pre.orderBook, post.orderBook with
  | some preBook, some postBook => compareOrderBooks preBook postBook
  | _, _ => none

def compareSnapshots (hash : String → String) (pre post : StateSnapshot) : SnapshotDiff :=
  let preChecksum := pre.calculateChecksum hash
  let postChecksum := post.calculateChecksum hash
  if preChecksum = postChecksum then
    ⟨preChecksum, postChecksum, true, none, none, none, none, [], [], [], [], [], [], [], [], none⟩
  else
    { preChecksum := preChecksum
      postChecksum := postChecksum
      isIdentical := false
      eventCountMismatch := countMismatch "EventCount" pre.eventCount post.eventCount
      orderCountMismatch := countMismatch "OrderCount" pre.orderCount post.orderCount
      tradeCountMismatch := countMismatch "TradeCount" pre.tradeCount post.tradeCount
      positionCountMismatch := countMismatch "PositionCount" pre.positionCount post.positionCount
      missingOrders := findMissingOrders pre.orders post.orders
      extraOrders := findExtraOrders pre.orders post.orders
      changedOrders := findChangedOrders pre.orders post.orders
      missingTrades := findMissingTrades pre.trades post.trades
      extraTrades := findExtraTrades pre.trades post.trades
      missingPositions := findMissingPositions pre.positions post.positions
      extraPositions := findExtraPositions pre.positions post.positions
      changedPositions := findChangedPositions pre.positions post.positions
      orderBookDiff := bookDiff pre post }

/-! ## Explanations -/

def SnapshotDiff.Explained (d : SnapshotDiff) : Prop :=
  d.eventCountMismatch ≠ none ∨ d.orderCountMismatch ≠ none ∨ d.tradeCountMismatch ≠ none ∨
    d.positionCountMismatch ≠ none ∨ d.missingOrders ≠ [] ∨ d.extraOrders ≠ [] ∨
    d.changedOrders ≠ [] ∨ d.missingTrades ≠ [] ∨ d.extraTrades ≠ [] ∨ d.missingPositions ≠ [] ∨
    d.extraPositions ≠ [] ∨ d.changedPositions ≠ [] ∨ d.orderBookDiff ≠ none

def OrderSnapshot.field (e : OrderSnapshot) (name : String) : Option FieldValue :=
  if name = "Price" then some (.int e.price)
  else if name = "Quantity" then some (.int e.quantity)
  else if name = "FilledQty" then some (.int e.filledQty)
  else if name = "Status" then some (.text e.status)
  else none

def PositionSnapshot.field (e : PositionSnapshot) (name : String) : Option Int :=
  if name = "QuantityHeld" then some e.quantityHeld
  else if name = "CostBase" then some e.costBase
  else if name = "RealizedPnl" then some e.realizedPnl
  else if name = "UnrealizedPnl" then some e.unrealizedPnl
  else none

def CountMismatch.RealFor (m : Option CountMismatch) (expected actual : Int) : Prop :=
  ∀ mismatch, m = some mismatch →
    mismatch.expected = expected ∧ mismatch.actual = actual ∧ expected ≠ actual

def MissingReal {ν : Type} (ids : List String) (pre post : AList fun _ : String => ν) : Prop :=
  ∀ id ∈ ids, id ∈ pre ∧ id ∉ post

def OrderChange.Real (pre post : AList fun _ : String => OrderSnapshot) (c : OrderChange) : Prop :=
  ∃ e e', pre.lookup c.orderID = some e ∧ post.lookup c.orderID = some e' ∧
    e.field c.field = some c.expected ∧ e'.field c.field = some c.actual ∧ c.expected ≠ c.actual

def PositionChange.Real (pre post : AList fun _ : String => PositionSnapshot)
    (c : PositionChange) : Prop :=
  ∃ e e', pre.lookup c.userID = some e ∧ post.lookup c.userID = some e' ∧
    e.field c.field = some c.expected ∧ e'.field c.field = some c.actual ∧ c.expected ≠ c.actual

/-- What is said about the order books holds of them, and one of the fields differs. -/
structure OrderBookDiff.Real (pre post : OrderBookSnapshot) (d : OrderBookDiff) : Prop where
  bestBid : d.preBestBid = pre.bestBid ∧ d.postBestBid = post.bestBid ∧
    (d.bestBidMismatch = true ↔ pre.bestBid ≠ post.bestBid)
  bestAsk : d.preBestAsk = pre.bestAsk ∧ d.postBestAsk = post.bestAsk ∧
    (d.bestAskMismatch = true ↔ pre.bestAsk ≠ post.bestAsk)
  bidDepth : d.preBidDepth = pre.bidDepth ∧ d.postBidDepth = post.bidDepth ∧
    (d.bidDepthMismatch = true ↔ pre.bidDepth ≠ post.bidDepth)
  askDepth : d.preAskDepth = pre.askDepth ∧ d.postAskDepth = post.askDepth ∧
    (d.askDepthMismatch = true ↔ pre.askDepth ≠ post.askDepth)
  spread : d.preSpread = pre.spread ∧ d.postSpread = post.spread ∧
    (d.spreadMismatch = true ↔ pre.spread ≠ post.spread)
  differs : pre.bestBid ≠ post.bestBid ∨ pre.bestAsk ≠ post.bestAsk ∨
    pre.bidDepth ≠ post.bidDepth ∨ pre.askDepth ≠ post.askDepth ∨ pre.spread ≠ post.spread

structure SnapshotDiff.Real (pre post : StateSnapshot) (d : SnapshotDiff) : Prop where
  eventCount : CountMismatch.RealFor d.eventCountMismatch pre.eventCount post.eventCount
  orderCount : CountMismatch.RealFor d.orderCountMismatch pre.orderCount post.orderCount
  tradeCount : CountMismatch.RealFor d.tradeCountMismatch pre.tradeCount post.tradeCount
  positionCount : CountMismatch.RealFor d.positionCountMismatch pre.positionCount post.positionCount
  missingOrders : MissingReal d.missingOrders pre.orders post.orders
  extraOrders : MissingReal d.extraOrders post.orders pre.orders
  changedOrders : ∀ c ∈ d.changedOrders, c.Real pre.orders post.orders
  missingTrades : MissingReal d.missingTrades pre.trades post.trades
  extraTrades : MissingReal d.extraTrades post.trades pre.trades
  missingPositions : MissingReal d.missingPositions pre.positions post.positions
  extraPositions : MissingReal d.extraPositions post.positions pre.positions
  changedPositions : ∀ c ∈ d.changedPositions, c.Real pre.positions post.positions
  orderBook : ∀ diff, d.orderBookDiff = some diff →
    ∃ preBook postBook, pre.orderBook = some preBook ∧ post.orderBook = some postBook ∧
      diff.Real preBook postBook

/-! ## The compared fields -/

def OrderSnapshot.compared (e : OrderSnapshot) : Int × Int × Int × String :=
  (e.price, e.quantity, e.filledQty, e.status)

def PositionSnapshot.compared (e : PositionSnapshot) : Int × Int × Int × Int :=
  (e.quantityHeld, e.costBase, e.realizedPnl, e.unrealizedPnl)

def OrderBookSnapshot.compared (book : OrderBookSnapshot) : Int × Int × Int × Int × Int :=
  (book.bestBid, book.bestAsk, book.bidDepth, book.askDepth, book.spread)

/-- The snapshots agree in their counts, the keys of their maps, the compared fields of their orders
and positions, and those of their order books if both have one. -/
structure StateSnapshot.SameCompared (pre post : StateSnapshot) : Prop where
  eventCount : pre.eventCount = post.eventCount
  orderCount : pre.orderCount = post.orderCount
  tradeCount : pre.tradeCount = post.tradeCount
  positionCount : pre.positionCount = post.positionCount
  orders : ∀ id, (pre.orders.lookup id).map OrderSnapshot.compared =
    (post.orders.lookup id).map OrderSnapshot.compared
  trades : ∀ id, id ∈ pre.trades ↔ id ∈ post.trades
  positions : ∀ id, (pre.positions.lookup id).map PositionSnapshot.compared =
    (post.positions.lookup id).map PositionSnapshot.compared
  orderBook : ∀ preBook postBook, pre.orderBook = some preBook → post.orderBook = some postBook →
    preBook.compared = postBook.compared

/-! ## What each helper finds -/

theorem countMismatch_eq_none_iff {field : String} {expected actual : Int} :
    countMismatch field expected actual = none ↔ expected = actual := by
  simp [countMismatch]

theorem countMismatch_real (field : String) (expected actual : Int) :
    CountMismatch.RealFor (countMismatch field expected actual) expected actual := by
  intro mismatch h
  unfold countMismatch at h
  rw [Option.ite_none_right_eq_some] at h
  cases h.2
  exact ⟨rfl, rfl, h.1⟩

section

variable {ν β γ : Type} {pre post : AList fun _ : String => ν}

theorem mem_findMissing {id : String} : id ∈ findMissing pre post ↔ id ∈ pre ∧ id ∉ post := by
  unfold findMissing
  rw [mem_insertionSort, mem_filter, decide_eq_true_eq, ← AList.mem_keys]

theorem findMissing_real (pre post : AList fun _ : String => ν) :
    MissingReal (findMissing pre post) pre post := fun _ h => mem_findMissing.mp h

theorem findMissing_eq_nil_iff : findMissing pre post = [] ↔ ∀ id ∈ pre, id ∈ post := by
  simp only [eq_nil_iff_forall_not_mem, mem_findMissing, not_and, not_not]

variable {changes : String → ν → ν → List β}

theorem mem_findChanged {c : β} :
    c ∈ findChanged changes pre post ↔ ∃ id v v', pre.lookup id = some v ∧
      post.lookup id = some v' ∧ c ∈ changes id v v' := by
  unfold findChanged
  rw [mem_flatMap]
  constructor
  · rintro ⟨⟨id, v⟩, he, hc⟩
    split at hc
    next => cases hc
    next v' hv' => exact ⟨id, v, v', AList.mem_lookup_iff.mpr he, hv', hc⟩
  · rintro ⟨id, v, v', hv, hv', hc⟩
    refine ⟨⟨id, v⟩, AList.mem_lookup_iff.mp hv, ?_⟩
    rwa [hv']

theorem find_eq_nil_iff {compared : ν → γ}
    (hchanges : ∀ id v v', changes id v v' = [] ↔ compared v = compared v') :
    findMissing pre post = [] ∧ findMissing post pre = [] ∧ findChanged changes pre post = [] ↔
      ∀ id, (pre.lookup id).map compared = (post.lookup id).map compared := by
  rw [findMissing_eq_nil_iff, findMissing_eq_nil_iff]
  constructor
  · rintro ⟨hmissing, hextra, hchanged⟩ id
    cases hpre : pre.lookup id with
    | none =>
      have hpost : post.lookup id = none :=
        AList.lookup_eq_none.mpr fun h => AList.lookup_eq_none.mp hpre (hextra id h)
      rw [hpost]
    | some v =>
      have hmem : id ∈ pre := AList.lookup_isSome.mp (by rw [hpre]; rfl)
      obtain ⟨v', hpost⟩ := Option.isSome_iff_exists.mp
        (AList.lookup_isSome.mpr (hmissing id hmem))
      rw [hpost]
      refine congrArg some ((hchanges id v v').mp (List.eq_nil_iff_forall_not_mem.mpr ?_))
      intro c hc
      have hfound := mem_findChanged.mpr ⟨id, v, v', hpre, hpost, hc⟩
      rw [hchanged] at hfound
      cases hfound
  · intro h
    have hkeys : ∀ id, id ∈ pre ↔ id ∈ post := by
      intro id
      have hid := congrArg Option.isSome (h id)
      rw [Option.isSome_map, Option.isSome_map] at hid
      rw [← AList.lookup_isSome, ← AList.lookup_isSome, hid]
    refine ⟨fun id => (hkeys id).mp, fun id => (hkeys id).mpr, ?_⟩
    apply List.eq_nil_iff_forall_not_mem.mpr
    intro c hc
    obtain ⟨id, v, v', hv, hv', hmem⟩ := mem_findChanged.mp hc
    have hid := h id
    rw [hv, hv'] at hid
    rw [(hchanges id v v').mpr (Option.some.inj hid)] at hmem
    cases hmem

end

theorem changeOf_eq_nil_iff {α β : Type} [DecidableEq α] {change : α → α → β} {e a : α} :
    changeOf change e a = [] ↔ e = a := by
  simp [changeOf]

theorem mem_changeOf {α β : Type} [DecidableEq α] {change : α → α → β} {e a : α} {c : β} :
    c ∈ changeOf change e a ↔ e ≠ a ∧ c = change e a := by
  simp [changeOf]

theorem orderChanges_eq_nil_iff (id : String) (e e' : OrderSnapshot) :
    orderChanges id e e' = [] ↔ e.compared = e'.compared := by
  unfold orderChanges OrderSnapshot.compared
  simp only [append_eq_nil_iff, changeOf_eq_nil_iff, Prod.mk.injEq, and_assoc]

theorem positionChanges_eq_nil_iff (id : String) (e e' : PositionSnapshot) :
    positionChanges id e e' = [] ↔ e.compared = e'.compared := by
  unfold positionChanges PositionSnapshot.compared
  simp only [append_eq_nil_iff, changeOf_eq_nil_iff, Prod.mk.injEq, and_assoc]

theorem findChangedOrders_real (pre post : AList fun _ : String => OrderSnapshot) :
    ∀ c ∈ findChangedOrders pre post, c.Real pre post := by
  intro c hc
  obtain ⟨id, e, e', he, he', hmem⟩ := mem_findChanged.mp hc
  unfold orderChanges at hmem
  simp only [mem_append, mem_changeOf] at hmem
  rcases hmem with ((⟨hne, rfl⟩ | ⟨hne, rfl⟩) | ⟨hne, rfl⟩) | ⟨hne, rfl⟩
  on_goal 4 => exact ⟨e, e', he, he', rfl, rfl, fun h => hne (FieldValue.text.inj h)⟩
  all_goals exact ⟨e, e', he, he', rfl, rfl, fun h => hne (FieldValue.int.inj h)⟩

theorem findChangedPositions_real (pre post : AList fun _ : String => PositionSnapshot) :
    ∀ c ∈ findChangedPositions pre post, c.Real pre post := by
  intro c hc
  obtain ⟨id, e, e', he, he', hmem⟩ := mem_findChanged.mp hc
  unfold positionChanges at hmem
  simp only [mem_append, mem_changeOf] at hmem
  rcases hmem with ((⟨hne, rfl⟩ | ⟨hne, rfl⟩) | ⟨hne, rfl⟩) | ⟨hne, rfl⟩ <;>
    exact ⟨e, e', he, he', rfl, rfl, hne⟩

theorem compareOrderBooks_eq_none_iff {pre post : OrderBookSnapshot} :
    compareOrderBooks pre post = none ↔ pre.compared = post.compared := by
  unfold compareOrderBooks OrderBookSnapshot.compared
  simp only [ite_eq_right_iff, Bool.or_eq_true, decide_eq_true_eq, reduceCtorEq, imp_false, not_or,
    not_not, Prod.mk.injEq, and_assoc, ne_eq]

theorem compareOrderBooks_real {pre post : OrderBookSnapshot} {d : OrderBookDiff}
    (h : compareOrderBooks pre post = some d) : d.Real pre post := by
  unfold compareOrderBooks at h
  rw [Option.ite_none_right_eq_some] at h
  obtain ⟨hany, hd⟩ := h
  cases hd
  simp only [Bool.or_eq_true, decide_eq_true_eq, or_assoc] at hany
  exact ⟨⟨rfl, rfl, decide_eq_true_iff⟩, ⟨rfl, rfl, decide_eq_true_iff⟩,
    ⟨rfl, rfl, decide_eq_true_iff⟩, ⟨rfl, rfl, decide_eq_true_iff⟩,
    ⟨rfl, rfl, decide_eq_true_iff⟩, hany⟩

/-! ## What is found of two snapshots -/

section

variable {hash : String → String} {pre post : StateSnapshot}

theorem bookDiff_eq_some {d : OrderBookDiff} (h : bookDiff pre post = some d) :
    ∃ preBook postBook, pre.orderBook = some preBook ∧ post.orderBook = some postBook ∧
      d.Real preBook postBook := by
  unfold bookDiff at h
  split at h
  next preBook postBook hpre hpost =>
    exact ⟨preBook, postBook, hpre, hpost, compareOrderBooks_real h⟩
  next => cases h

theorem bookDiff_eq_none_iff :
    bookDiff pre post = none ↔ ∀ preBook postBook, pre.orderBook = some preBook →
      post.orderBook = some postBook → preBook.compared = postBook.compared := by
  unfold bookDiff
  cases hpre : pre.orderBook with
  | none => exact iff_of_true rfl fun _ _ h => by cases h
  | some preBook =>
    cases hpost : post.orderBook with
    | none => exact iff_of_true rfl fun _ _ _ h => by cases h
    | some postBook =>
      rw [compareOrderBooks_eq_none_iff]
      constructor
      · intro h _ _ heq heq'
        cases heq
        cases heq'
        exact h
      · exact fun h => h preBook postBook rfl rfl

theorem ne_of_not_identical (h : (compareSnapshots hash pre post).isIdentical = false) :
    pre.calculateChecksum hash ≠ post.calculateChecksum hash := by
  intro heq
  unfold compareSnapshots at h
  rw [if_pos heq] at h
  cases h

theorem compareSnapshots_real (h : (compareSnapshots hash pre post).isIdentical = false) :
    (compareSnapshots hash pre post).Real pre post := by
  have hdiff : compareSnapshots hash pre post = _ := if_neg (ne_of_not_identical h)
  rw [hdiff]
  exact
    { eventCount := countMismatch_real _ _ _
      orderCount := countMismatch_real _ _ _
      tradeCount := countMismatch_real _ _ _
      positionCount := countMismatch_real _ _ _
      missingOrders := findMissing_real _ _
      extraOrders := findMissing_real _ _
      changedOrders := findChangedOrders_real _ _
      missingTrades := findMissing_real _ _
      extraTrades := findMissing_real _ _
      missingPositions := findMissing_real _ _
      extraPositions := findMissing_real _ _
      changedPositions := findChangedPositions_real _ _
      orderBook := fun _ h => bookDiff_eq_some h }

theorem not_explained_iff (h : (compareSnapshots hash pre post).isIdentical = false) :
    ¬ (compareSnapshots hash pre post).Explained ↔ pre.SameCompared post := by
  have hdiff : compareSnapshots hash pre post = _ := if_neg (ne_of_not_identical h)
  rw [hdiff]
  unfold SnapshotDiff.Explained
  simp only [ne_eq, not_or, not_not, countMismatch_eq_none_iff]
  have horders : _ ↔ ∀ id, (pre.orders.lookup id).map _ = (post.orders.lookup id).map _ :=
    find_eq_nil_iff orderChanges_eq_nil_iff
  have hpositions : _ ↔ ∀ id, (pre.positions.lookup id).map _ = (post.positions.lookup id).map _ :=
    find_eq_nil_iff positionChanges_eq_nil_iff
  constructor
  · rintro ⟨hevent, horder, htrade, hposition, hmo, heo, hco, hmt, het, hmp, hep, hcp, hbook⟩
    exact
      { eventCount := hevent
        orderCount := horder
        tradeCount := htrade
        positionCount := hposition
        orders := horders.mp ⟨hmo, heo, hco⟩
        trades := fun id =>
          ⟨findMissing_eq_nil_iff.mp hmt id, findMissing_eq_nil_iff.mp het id⟩
        positions := hpositions.mp ⟨hmp, hep, hcp⟩
        orderBook := bookDiff_eq_none_iff.mp hbook }
  · intro hsame
    obtain ⟨hmo, heo, hco⟩ := horders.mpr hsame.orders
    obtain ⟨hmp, hep, hcp⟩ := hpositions.mpr hsame.positions
    exact ⟨hsame.eventCount, hsame.orderCount, hsame.tradeCount, hsame.positionCount, hmo, heo, hco,
      findMissing_eq_nil_iff.mpr fun id => (hsame.trades id).mp,
      findMissing_eq_nil_iff.mpr fun id => (hsame.trades id).mpr, hmp, hep, hcp,
      bookDiff_eq_none_iff.mpr hsame.orderBook⟩

end

/-- The difference of two snapshots that are not identical is explained, by real differences,
exactly when it is in a field that is compared. -/
theorem difference_explained_iff (hash : String → String) (pre post : StateSnapshot)
    (h : (compareSnapshots hash pre post).isIdentical = false) :
    ((compareSnapshots hash pre post).Explained ∧ (compareSnapshots hash pre post).Real pre post) ↔
      ¬ pre.SameCompared post := by
  rw [and_iff_left (compareSnapshots_real h), ← not_explained_iff h, not_not]

def snapshotOfTrade (price : Int) : StateSnapshot :=
  ⟨0, ∅, AList.singleton "t1" ⟨"t1", "alice", "bob", "BTCUSDT", price, 1, 0⟩, ∅, none, "", 1, 0, 1,
    0⟩

def emptySnapshot : StateSnapshot := ⟨0, ∅, ∅, ∅, none, "", 0, 0, 0, 0⟩

theorem missing_trade_explained :
    (compareSnapshots id (snapshotOfTrade 1) emptySnapshot).Explained ∧
      (compareSnapshots id (snapshotOfTrade 1) emptySnapshot).Real (snapshotOfTrade 1)
        emptySnapshot :=
  (difference_explained_iff id (snapshotOfTrade 1) emptySnapshot (by decide +kernel)).mpr fun h =>
    absurd h.eventCount (by decide)

/-- A trade whose price has changed: the snapshots are not identical and nothing is named. -/
theorem changed_trade_unexplained :
    (compareSnapshots id (snapshotOfTrade 1) (snapshotOfTrade 2)).isIdentical = false ∧
      ¬ (compareSnapshots id (snapshotOfTrade 1) (snapshotOfTrade 2)).Explained := by
  refine ⟨by decide +kernel, ?_⟩
  unfold SnapshotDiff.Explained
  decide +kernel

end CexHertz
