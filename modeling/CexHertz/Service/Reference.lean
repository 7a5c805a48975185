import CexHertz.Service.RestingOrders
import Mathlib.Data.List.Sort

/-!
# Price-time matching, by sorting

What a book is for, without levels or queues: a side is a collection of resting orders with the
numbers of their arrival. An incoming order meets the other side sorted by best price and then by
arrival, and takes from each while the limit admits its price.
-/

namespace CexHertz

open List

structure Resting where
  arrival : Nat
  entry : OrderBookEntry

abbrev restPrice (r : Resting) : Int := r.entry.price

structure Fill where
  maker : OrderBookEntry
  quantity : Int

section

variable (better : Int → Int → Prop) [DecidableRel better]

def noLater (a b : Resting) : Bool :=
  decide (better a.entry.price b.entry.price) ||
    (decide (a.entry.price = b.entry.price) && decide (a.arrival ≤ b.arrival))

def byPriority (side : List Resting) : List Resting := side.mergeSort (noLater better)

end

structure Consumed where
  fills : List Fill
  remaining : Int
  survivors : List Resting

/-- Take `min(remaining, maker's remaining)` from each order in turn while the limit admits it. -/
def consume (admits : Int → Bool) : Int → List Resting → Consumed
  | remaining, [] => ⟨[], remaining, []⟩
  | remaining, r :: rest =>
    if remaining ≤ 0 ∨ admits r.entry.price = false then ⟨[], remaining, r :: rest⟩
    else
      let makerLeft := r.entry.quantity - r.entry.filledQty
      let quantity := min remaining makerLeft
      let next := consume admits (remaining - quantity) rest
      { fills := ⟨r.entry, quantity⟩ :: next.fills
        remaining := next.remaining
        survivors :=
          if quantity = makerLeft then next.survivors
          else { r with entry := { r.entry with filledQty := r.entry.filledQty + quantity } } ::
            next.survivors }

structure RefBook where
  bids : List Resting
  asks : List Resting
  nextArrival : Nat
  orders : String → Option OrderBookEntry

structure RefResult where
  book : RefBook
  fills : List Fill
  remaining : Int

namespace RefBook

def new : RefBook := ⟨[], [], 0, fun _ => none⟩

def rest (ref : RefBook) (order : OrderBookEntry) (remaining : Int) : RefBook :=
  let entry := { order with quantity := remaining, filledQty := 0 }
  if order.side = "buy" then
    { ref with bids := ref.bids ++ [⟨ref.nextArrival, entry⟩], nextArrival := ref.nextArrival + 1 }
  else
    { ref with asks := ref.asks ++ [⟨ref.nextArrival, entry⟩], nextArrival := ref.nextArrival + 1 }

def settle (ref : RefBook) (order : OrderBookEntry) (c : Consumed) : RefResult :=
  let ref := if c.remaining > 0 then ref.rest order c.remaining else ref
  { book := { ref with orders := Function.update ref.orders order.orderID (some order) }
    fills := c.fills
    remaining := c.remaining }

def matchOrder (ref : RefBook) (order : OrderBookEntry) : RefResult :=
  if order.side = "buy" then
    let c := consume (fun ask => ask ≤ order.price) order.quantity (byPriority (· < ·) ref.asks)
    { ref with asks := c.survivors }.settle order c
  else
    let c := consume (fun bid => order.price ≤ bid) order.quantity (byPriority (· > ·) ref.bids)
    { ref with bids := c.survivors }.settle order c

def cancelOrder (ref : RefBook) (orderID : String) : RefBook :=
  match ref.orders orderID with
  | none => ref
  | some order =>
    if order.filledQty > 0 then ref
    else
      let ref' :=
        if order.side = "buy" then
          { ref with bids := ref.bids.filter fun r => !cancels order.price orderID r.entry }
        else { ref with asks := ref.asks.filter fun r => !cancels order.price orderID r.entry }
      { ref' with orders := Function.update ref.orders orderID none }

def apply (ref : RefBook) : BookCall → RefBook
  | .matchOrder order _ => (ref.matchOrder order).book
  | .cancelOrder orderID => ref.cancelOrder orderID

def run (calls : List BookCall) : RefBook := calls.foldl apply new

end RefBook

/-! ## Sorting by priority -/

section

variable {better : Int → Int → Prop} [DecidableRel better]

theorem noLater_iff {a b : Resting} :
    noLater better a b = true ↔ better a.entry.price b.entry.price ∨
      a.entry.price = b.entry.price ∧ a.arrival ≤ b.arrival := by
  simp only [noLater, Bool.or_eq_true, Bool.and_eq_true, decide_eq_true_eq]

variable [IsStrictTotalOrder Int better]

theorem noLater_trans (a b c : Resting) (hab : noLater better a b = true)
    (hbc : noLater better b c = true) : noLater better a c = true := by
  rw [noLater_iff] at *
  rcases hab with hab | ⟨hab, hab'⟩
  · rcases hbc with hbc | ⟨hbc, -⟩
    · exact .inl (IsTrans.trans _ _ _ hab hbc)
    · exact .inl (hbc ▸ hab)
  · rcases hbc with hbc | ⟨hbc, hbc'⟩
    · exact .inl (hab ▸ hbc)
    · exact .inr ⟨hab.trans hbc, hab'.trans hbc'⟩

theorem noLater_total (a b : Resting) : (noLater better a b || noLater better b a) = true := by
  rw [Bool.or_eq_true, noLater_iff, noLater_iff]
  rcases trichotomous (r := better) a.entry.price b.entry.price with h | h | h
  · exact .inl (.inl h)
  · rcases Nat.le_total a.arrival b.arrival with hle | hle
    · exact .inl (.inr ⟨h, hle⟩)
    · exact .inr (.inr ⟨h.symm, hle⟩)
  · exact .inr (.inl h)

-- Two orders that are both no later than the other arrived together.
theorem noLater_antisymm {a b : Resting} (hab : noLater better a b = true)
    (hba : noLater better b a = true) : a.arrival = b.arrival := by
  rw [noLater_iff] at *
  rcases hab with hab | ⟨hab, hab'⟩
  · rcases hba with hba | ⟨hba, -⟩
    · exact absurd (IsTrans.trans _ _ _ hab hba) (irrefl (r := better) _)
    · exact absurd (hba ▸ hab) (irrefl (r := better) _)
  · rcases hba with hba | ⟨-, hba'⟩
    · exact absurd (hab ▸ hba) (irrefl (r := better) _)
    · exact le_antisymm hab' hba'

def DistinctArrivals (side : List Resting) : Prop := (side.map Resting.arrival).Nodup

theorem pairwise_byPriority (side : List Resting) :
    (byPriority better side).Pairwise fun a b => noLater better a b = true :=
  pairwise_mergeSort noLater_trans noLater_total side

omit [IsStrictTotalOrder Int better] in
theorem byPriority_perm (side : List Resting) : (byPriority better side).Perm side :=
  mergeSort_perm side _

theorem byPriority_eq {side sorted : List Resting} (hperm : sorted.Perm side)
    (hsorted : sorted.Pairwise fun a b => noLater better a b = true)
    (hdistinct : DistinctArrivals side) : byPriority better side = sorted := by
  refine List.Perm.eq_of_pairwise ?_ (pairwise_byPriority side) hsorted
    ((byPriority_perm side).trans hperm.symm)
  intro a b ha hb hab hba
  have ha' : a ∈ side := (byPriority_perm side).mem_iff.mp ha
  have hb' : b ∈ side := hperm.mem_iff.mp hb
  exact inj_on_of_nodup_map hdistinct ha' hb' (noLater_antisymm hab hba)

/-! ### Arrivals -/

theorem insertBehind_pairwise {new : Resting} {l : List Resting}
    (hl : l.Pairwise fun a b => noLater better a b = true)
    (hlast : ∀ r ∈ l, r.arrival < new.arrival) :
    (insertBehind better restPrice new l).Pairwise fun a b => noLater better a b = true := by
  induction l with
  | nil => exact pairwise_singleton _ _
  | cons r rest ih =>
    obtain ⟨hr, hrest⟩ := pairwise_cons.mp hl
    rw [insertBehind]
    split
    next hbetter =>
      have hnew : noLater better new r = true := noLater_iff.mpr (.inl hbetter)
      refine pairwise_cons.mpr ⟨fun x hx => ?_, hl⟩
      rcases mem_cons.mp hx with rfl | hx
      · exact hnew
      · exact noLater_trans _ _ _ hnew (hr x hx)
    next hbetter =>
      refine pairwise_cons.mpr
        ⟨fun x hx => ?_, ih hrest fun y hy => hlast y (.tail _ hy)⟩
      rcases mem_cons.mp (insertBehind_perm.mem_iff.mp hx) with rfl | hx
      · -- not better than `r`, and later than it: the new order stands behind
        rw [noLater_iff]
        rcases trichotomous (r := better) r.entry.price x.entry.price with h | h | h
        · exact .inl h
        · exact .inr ⟨h, (hlast r mem_cons_self).le⟩
        · exact absurd h hbetter
      · exact hr x hx

omit [DecidableRel better] [IsStrictTotalOrder Int better] in
theorem distinctArrivals_append {side : List Resting} {new : Resting}
    (hdistinct : DistinctArrivals side) (hlast : ∀ r ∈ side, r.arrival < new.arrival) :
    DistinctArrivals (side ++ [new]) := by
  unfold DistinctArrivals at *
  rw [map_append, nodup_append]
  refine ⟨hdistinct, nodup_singleton _, ?_⟩
  intro a ha b hb heq
  obtain ⟨r, hr, rfl⟩ := mem_map.mp ha
  have hlt := hlast r hr
  simp only [map_cons, map_nil, mem_singleton] at hb
  omega

-- Arrival numbers grow, so a new order goes behind its equals.
theorem byPriority_append {side : List Resting} {new : Resting} (hdistinct : DistinctArrivals side)
    (hlast : ∀ r ∈ side, r.arrival < new.arrival) :
    byPriority better (side ++ [new]) =
      insertBehind better restPrice new (byPriority better side) := by
  apply byPriority_eq
  · refine insertBehind_perm.trans ?_
    refine ((byPriority_perm side).cons new).trans ?_
    exact (perm_append_singleton new side).symm
  · apply insertBehind_pairwise (pairwise_byPriority side)
    intro r hr
    exact hlast r ((byPriority_perm side).mem_iff.mp hr)
  · exact distinctArrivals_append hdistinct hlast

-- Filtering a sorted list keeps it sorted, and distinct arrivals make the order unique.
theorem byPriority_filter {side : List Resting} (keep : Resting → Bool)
    (hdistinct : DistinctArrivals side) :
    byPriority better (side.filter keep) = (byPriority better side).filter keep := by
  apply byPriority_eq
  · exact (byPriority_perm side).filter keep
  · exact (pairwise_byPriority side).filter _
  · exact hdistinct.sublist ((filter_sublist).map _)

/-! ### Survivors -/

omit [DecidableRel better] [IsStrictTotalOrder Int better] in
theorem consume_survivors (admits : Int → Bool) (remaining : Int) (l : List Resting) :
    ((consume admits remaining l).survivors.map fun r => (r.entry.price, r.arrival)).Sublist
      (l.map fun r => (r.entry.price, r.arrival)) := by
  induction l generalizing remaining with
  | nil => exact .refl _
  | cons r rest ih =>
    rw [consume]
    split
    · exact .refl _
    · dsimp only
      split
      · exact (ih _).cons _
      · exact (ih _).cons_cons _

omit [IsStrictTotalOrder Int better] in
theorem consume_survivors_sorted (admits : Int → Bool) (remaining : Int) {l : List Resting}
    (hl : l.Pairwise fun a b => noLater better a b = true) :
    (consume admits remaining l).survivors.Pairwise fun a b => noLater better a b = true := by
  let R : Int × Nat → Int × Nat → Prop := fun a b => better a.1 b.1 ∨ a.1 = b.1 ∧ a.2 ≤ b.2
  have hR : ∀ l : List Resting, (l.Pairwise fun a b => noLater better a b = true) ↔
      (l.map fun r => (r.entry.price, r.arrival)).Pairwise R := by
    intro l
    rw [pairwise_map]
    simp only [noLater_iff, R]
  rw [hR] at hl ⊢
  exact hl.sublist (consume_survivors admits remaining l)

omit [DecidableRel better] [IsStrictTotalOrder Int better] in
theorem consume_survivors_arrivals (admits : Int → Bool) (remaining : Int) (l : List Resting) :
    ((consume admits remaining l).survivors.map Resting.arrival).Sublist
      (l.map Resting.arrival) := by
  have h := (consume_survivors admits remaining l).map Prod.snd
  simpa only [map_map, Function.comp_def] using h

end

end CexHertz
