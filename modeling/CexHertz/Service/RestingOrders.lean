import CexHertz.Service.BookInvariant

/-!
# A side as one list

The orders of a side read front to back: appending to a level puts the order behind every order at
least as good, and cancelling filters. A side is known when its list is.
-/

namespace CexHertz

open List Assoc

variable {before : Int → Int → Prop} [DecidableRel before]

/-! ## Insertion behind equals -/

section

variable {α β : Type} (before) (price : α → Int)

def insertBehind (new : α) : List α → List α
  | [] => [new]
  | x :: rest =>
    if before (price new) (price x) then new :: x :: rest else x :: insertBehind new rest

variable {before price} {new : α} {l l' : List α}

theorem insertBehind_perm : (insertBehind before price new l).Perm (new :: l) := by
  induction l with
  | nil => exact .refl _
  | cons x rest ih =>
    rw [insertBehind]
    split
    · exact .refl _
    · exact (ih.cons x).trans (.swap _ _ _)

theorem map_insertBehind (f : α → β) (price' : β → Int) (hprice : ∀ x, price' (f x) = price x) :
    (insertBehind before price new l).map f = insertBehind before price' (f new) (l.map f) := by
  induction l with
  | nil => rfl
  | cons x rest ih =>
    rw [map_cons, insertBehind, insertBehind, hprice, hprice]
    split
    · rfl
    · rw [map_cons, ih]

-- Nothing of the first part lies behind the new order.
theorem insertBehind_append (h : ∀ x ∈ l, ¬ before (price new) (price x)) :
    insertBehind before price new (l ++ l') = l ++ insertBehind before price new l' := by
  induction l with
  | nil => rfl
  | cons x rest ih =>
    rw [cons_append, insertBehind, if_neg (h x mem_cons_self),
      ih fun y hy => h y (.tail _ hy), cons_append]

theorem insertBehind_of_before (h : ∀ x ∈ l, before (price new) (price x)) :
    insertBehind before price new l = new :: l := by
  cases l with
  | nil => rfl
  | cons x rest => rw [insertBehind, if_pos (h x mem_cons_self)]

end

/-! ## Levels from the list -/

def levelsOf : List OrderBookEntry → List (Int × List OrderBookEntry)
  | [] => []
  | x :: rest =>
    match levelsOf rest with
    | [] => [(x.price, [x])]
    | (price, queue) :: tl =>
      if x.price = price then (price, x :: queue) :: tl
      else (x.price, [x]) :: (price, queue) :: tl

section

variable {P : OrderBookEntry → Prop} {levels tl : List (Int × List OrderBookEntry)}
  {price : Int} {queue : List OrderBookEntry}
variable {x : OrderBookEntry} {orderID : String}

theorem levelsOf_queue (hne : queue ≠ []) (hprice : ∀ x ∈ queue, x.price = price)
    {rest : List OrderBookEntry} (hrest : ∀ level ∈ levelsOf rest, level.1 ≠ price) :
    levelsOf (queue ++ rest) = (price, queue) :: levelsOf rest := by
  induction queue with
  | nil => exact absurd rfl hne
  | cons x queue ih =>
    have hx : x.price = price := hprice x mem_cons_self
    rw [cons_append, levelsOf]
    by_cases hq : queue = []
    · subst hq
      rw [nil_append, hx]
      split
      next heq => rw [heq]
      next p q tl heq =>
        have hp : p ≠ price := hrest (p, q) (heq ▸ mem_cons_self)
        rw [if_neg (Ne.symm hp), heq]
    · rw [ih hq fun y hy => hprice y (.tail _ hy)]
      dsimp only
      rw [if_pos hx]

-- The flat list has the whole information: grouping it by price gives the levels back.
omit [DecidableRel before] in
theorem LevelsOk.levelsOf_restingOrders [IsStrictTotalOrder Int before] (hok : LevelsOk P levels)
    (hasc : Assoc.Ascending before levels) : levelsOf (restingOrders levels) = levels := by
  induction levels with
  | nil => rfl
  | cons level tl ih =>
    obtain ⟨p, q⟩ := level
    have hfirst := hok (p, q) mem_cons_self
    have htl := ih hok.tail (pairwise_cons.mp hasc).2
    change levelsOf (q ++ restingOrders tl) = _
    rw [levelsOf_queue hfirst.nonempty fun x hx => (hfirst.entries x hx).price_eq, htl]
    intro level hl
    rw [htl] at hl
    exact hasc.not_before_head hl

theorem LevelsOk.price_mem (hok : LevelsOk P levels) (hx : x ∈ restingOrders levels) :
    ∃ level ∈ levels, level.1 = x.price := by
  obtain ⟨level, hl, hx⟩ := mem_restingOrders.mp hx
  exact ⟨level, hl, ((hok level hl).entries x hx).price_eq.symm⟩

/-! ## Appending -/

theorem restingOrders_cons : restingOrders ((price, queue) :: tl) = queue ++ restingOrders tl := rfl

omit [DecidableRel before] in
theorem LevelsOk.before_of_tail (hok : LevelsOk P ((price, queue) :: tl))
    (hasc : Assoc.Ascending before ((price, queue) :: tl)) (hx : x ∈ restingOrders tl) :
    before price x.price := by
  obtain ⟨level, hl, heq⟩ := hok.tail.price_mem hx
  rw [← heq]
  exact (pairwise_cons.mp hasc).1 level hl

variable [IsStrictTotalOrder Int before]

-- Appending to a level is inserting behind all orders of the same price.
theorem LevelsOk.restingOrders_set (hok : LevelsOk P levels) (hasc : Assoc.Ascending before levels)
    (hx : x.price = price) :
    restingOrders (set before price ((get price levels).getD [] ++ [x]) levels) =
      insertBehind before OrderBookEntry.price x (restingOrders levels) := by
  induction levels with
  | nil => rfl
  | cons level tl ih =>
    obtain ⟨p, q⟩ := level
    have hfirst := hok (p, q) mem_cons_self
    have hbehind : ∀ y ∈ restingOrders tl, before p y.price := fun y => hok.before_of_tail hasc
    rw [Assoc.set, Assoc.get]
    by_cases heq : price = p
    · subst heq
      have hq : ∀ y ∈ q, ¬ before x.price y.price := by
        intro y hy
        rw [hx, (hfirst.entries y hy).price_eq]
        exact irrefl (r := before) _
      rw [if_pos rfl, if_pos rfl, Option.getD_some, restingOrders_cons, restingOrders_cons,
        insertBehind_append hq, insertBehind_of_before fun y hy => hx ▸ hbehind y hy,
        append_assoc, singleton_append]
    · rw [if_neg heq, if_neg heq]
      by_cases hlt : before price p
      · have hnone : get price tl = none := by
          rw [get_eq_none_iff]
          intro level hl hpe
          have hplt := (pairwise_cons.mp hasc).1 level hl
          exact irrefl (r := before) price (IsTrans.trans _ _ _ hlt (hpe ▸ hplt))
        rw [if_pos hlt, hnone, Option.getD_none, nil_append, restingOrders_cons,
          singleton_append, insertBehind_of_before]
        intro y hy
        rw [hx]
        rcases mem_append.mp hy with hy | hy
        · rwa [(hfirst.entries y hy).price_eq]
        · exact IsTrans.trans _ _ _ hlt (hbehind y hy)
      · have hq : ∀ y ∈ q, ¬ before x.price y.price := by
          intro y hy
          rwa [hx, (hfirst.entries y hy).price_eq]
        rw [if_neg hlt, restingOrders_cons, restingOrders_cons, insertBehind_append hq,
          ih hok.tail (pairwise_cons.mp hasc).2]

theorem restingOrders_appendToLevel {L : Levels before} {side : L.Carrier} {order : OrderBookEntry}
    {qty : Int} (hok : LevelsOk P (L.elements side)) :
    restingOrders (L.elements (appendToLevel L side order qty)) =
      insertBehind before OrderBookEntry.price { order with quantity := qty, filledQty := 0 }
        (restingOrders (L.elements side)) := by
  unfold appendToLevel
  rw [L.elements_set, L.get_eq]
  exact hok.restingOrders_set (L.ascending side) rfl

/-! ## Filtering -/

def cancels (price : Int) (orderID : String) (x : OrderBookEntry) : Bool :=
  x.price = price && x.orderID = orderID

omit [DecidableRel before] [IsStrictTotalOrder Int before] in
theorem filter_cancels_of_price_ne {l : List OrderBookEntry} (h : ∀ x ∈ l, x.price ≠ price) :
    (l.filter fun x => !cancels price orderID x) = l := by
  rw [filter_eq_self]
  intro x hx
  simp [cancels, h x hx]

-- Within the level the price test is always true.
omit [DecidableRel before] [IsStrictTotalOrder Int before] in
theorem filter_cancels_of_price_eq {l : List OrderBookEntry} (h : ∀ x ∈ l, x.price = price) :
    (l.filter fun x => !cancels price orderID x) = l.filter fun x => x.orderID ≠ orderID := by
  apply filter_congr
  intro x hx
  simp [cancels, h x hx]

omit [IsStrictTotalOrder Int before] in
theorem elements_setOrRemove_eq (L : Levels before) (side : L.Carrier) (price : Int)
    (queue : List OrderBookEntry) :
    L.elements (setOrRemove L side price queue) =
      if queue.length = 0 then remove price (L.elements side)
      else set before price queue (L.elements side) := by
  unfold setOrRemove
  split
  · exact L.elements_remove _ _
  · exact L.elements_set _ _ _

theorem LevelsOk.restingOrders_filter (hok : LevelsOk P levels)
    (hasc : Assoc.Ascending before levels) (hget : get price levels = some queue) :
    restingOrders
        (if (queue.filter fun q => q.orderID ≠ orderID).length = 0 then remove price levels
         else set before price (queue.filter fun q => q.orderID ≠ orderID) levels) =
      (restingOrders levels).filter fun x => !cancels price orderID x := by
  induction levels with
  | nil => simp [Assoc.get] at hget
  | cons level tl ih =>
    obtain ⟨p, q⟩ := level
    have hfirst := hok (p, q) mem_cons_self
    rw [Assoc.get] at hget
    rw [Assoc.remove, Assoc.set, restingOrders_cons, filter_append]
    by_cases heq : price = p
    · subst heq
      rw [if_pos rfl] at hget
      cases hget
      have htl : ∀ x ∈ restingOrders tl, x.price ≠ price := by
        intro x hx hpe
        have hlt := hok.before_of_tail hasc hx
        rw [hpe] at hlt
        exact irrefl (r := before) _ hlt
      rw [if_pos rfl, if_pos rfl, filter_cancels_of_price_ne htl,
        filter_cancels_of_price_eq fun x hx => (hfirst.entries x hx).price_eq]
      exact restingOrders_withQueue price _ tl
    · rw [if_neg heq] at hget
      -- the level is in the tail, so the order does not put it in front
      have hnlt : ¬ before price p := by
        intro hlt
        have hplt := (pairwise_cons.mp hasc).1 _ (mem_of_get hget)
        exact irrefl (r := before) _ (IsTrans.trans _ _ _ hlt hplt)
      have hq : ∀ x ∈ q, x.price ≠ price := fun x hx => by
        rw [(hfirst.entries x hx).price_eq]
        exact Ne.symm heq
      rw [filter_cancels_of_price_ne hq, ← ih hok.tail (pairwise_cons.mp hasc).2 hget,
        if_neg heq, if_neg heq, if_neg hnlt]
      split <;> rfl

theorem restingOrders_removeFromLevel {L : Levels before} {side : L.Carrier}
    (hok : LevelsOk P (L.elements side)) :
    restingOrders (L.elements (removeFromLevel L side price orderID)) =
      (restingOrders (L.elements side)).filter fun x => !cancels price orderID x := by
  unfold removeFromLevel
  rw [L.get_eq]
  cases hget : get price (L.elements side) with
  | none =>
    refine (filter_cancels_of_price_ne fun x hx hpe => ?_).symm
    obtain ⟨level, hl, heq⟩ := hok.price_mem hx
    exact get_eq_none_iff.mp hget level hl (heq.trans hpe)
  | some queue =>
    rw [elements_setOrRemove_eq]
    exact hok.restingOrders_filter (L.ascending side) hget

end

end CexHertz
