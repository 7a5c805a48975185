import Mathlib.Algebra.BigOperators.Group.Finset.Piecewise
import Mathlib.Algebra.Order.BigOperators.Group.Finset
import CexHertz.Service.IsolatedTransactions
import CexHertz.Service.PositionRuns

/-!
# Trades of several processes

Every process has its own mutex for a symbol, so two processes can read the same position and the
row written last is kept. Runs in which open transactions query different users lose nothing.
-/

namespace CexHertz

open List PositionRow Tables Option Run

open Model (Survives)

/-! ## Trades and what they move -/

def PositionRow.scannedVolume (r : PositionRow) : Int64 := r.scan.volumeBigint

def TxPhase.succeeded : TxPhase → Bool
  | committed | skipped => true
  | outbox | select | write _ _ | rolledBack _ => false

def PositionTx.bought (tx : PositionTx) (user symbol : String) : Int :=
  match tx.work with
  | .trade e =>
    if tx.phase.succeeded ∧ e.buyer = user ∧ e.symbolStr = symbol then e.quantity else 0
  | .calls _ => 0

def PositionTx.sold (tx : PositionTx) (user symbol : String) : Int :=
  match tx.work with
  | .trade e =>
    if tx.phase.succeeded ∧ e.seller = user ∧ e.symbolStr = symbol then e.quantity else 0
  | .calls _ => 0

namespace Tables

def bought (s : Tables) (user symbol : String) : Int :=
  (s.txs.map fun tx => tx.bought user symbol).sum

def sold (s : Tables) (user symbol : String) : Int :=
  (s.txs.map fun tx => tx.sold user symbol).sum

/-- Transactions are trades of a positive `int64` quantity, every trade with an id of its own. -/
def NewTrade (s : Tables) : TablesAction → Prop
  | .begin _ (.trade e) => 0 < e.quantity ∧ e.quantity < 2 ^ 63 ∧ e.tradeID ∉ s.outbox ∧
      ∀ tx ∈ s.txs, tx.work.eventID ≠ some e.tradeID
  | .begin _ (.calls _) => False
  | _ => True

instance (s : Tables) : (a : TablesAction) → Decidable (s.NewTrade a)
  | .begin _ (.trade _) => inferInstanceAs (Decidable (_ ∧ _ ∧ _ ∧ ∀ _ ∈ _, _))
  | .begin _ (.calls _) => isFalse id
  | .insertOutbox _ _ | .first _ _ | .write _ _ | .commit _ _ | .rollback _ _ => isTrue trivial

structure Start (s : Tables) : Prop where
  txs : s.txs = []
  below : Rows.Below s.rows s.nextID
  unique : Rows.Unique key s.rows

end Tables

def TablesAction.Survives (pp : PositionProcessor) : TablesAction → Prop
  | .begin _ (.trade e) => Model.Survives pp.conv e.quantity
  | _ => True

instance (pp : PositionProcessor) : (a : TablesAction) → Decidable (a.Survives pp)
  | .begin _ (.trade _) => inferInstanceAs (Decidable (Model.Survives _ _))
  | .begin _ (.calls _)
  | .insertOutbox _ _ | .first _ _ | .write _ _ | .commit _ _ | .rollback _ _ => isTrue trivial

/-- Nobody holds less than nothing, and all users of a symbol together less than `2 ^ 63`. -/
structure FitInt64 (holding : String × String → Int) : Prop where
  nonneg : ∀ k, 0 ≤ holding k
  total_lt : ∀ (symbol : String) (users : Finset String),
    ∑ user ∈ users, holding (user, symbol) < 2 ^ 63

def TradeExecutedEvent.change (e : TradeExecutedEvent) (k : String × String) : Int :=
  (if (e.buyer, e.symbolStr) = k then e.quantity else 0) -
    if (e.seller, e.symbolStr) = k then e.quantity else 0

section

variable {e : TradeExecutedEvent} {holding holding' : String × String → Int}

theorem TradeExecutedEvent.change_self (h : e.buyer = e.seller) (k : String × String) :
    e.change k = 0 := by
  unfold TradeExecutedEvent.change
  rw [h]
  omega

/-- A covered trade keeps the holdings in range: whatever set of users is
looked at, together with the two of the trade it holds what it held before. -/
theorem FitInt64.trade (h : FitInt64 holding)
    (hcovered : e.quantity ≤ holding (e.seller, e.symbolStr)) (hpos : 0 < e.quantity)
    (hchange : ∀ k, holding' k = holding k + e.change k) : FitInt64 holding' := by
  have hnonneg : ∀ k, 0 ≤ holding' k := by
    intro k
    have hk := h.nonneg k
    rw [hchange]
    unfold TradeExecutedEvent.change
    by_cases hseller : (e.seller, e.symbolStr) = k
    · subst hseller
      rw [if_pos rfl]
      split <;> omega
    · rw [if_neg hseller]
      split <;> omega
  refine ⟨hnonneg, fun symbol users => ?_⟩
  let all := insert e.buyer (insert e.seller users)
  have hsubset : users ⊆ all := fun u hu => Finset.mem_insert_of_mem (Finset.mem_insert_of_mem hu)
  have hzero : ∑ user ∈ all, e.change (user, symbol) = 0 := by
    unfold TradeExecutedEvent.change
    rw [Finset.sum_sub_distrib]
    simp only [Prod.mk.injEq]
    by_cases hsymbol : e.symbolStr = symbol
    · simp only [hsymbol, and_true, Finset.sum_ite_eq]
      rw [if_pos (Finset.mem_insert_self _ _),
        if_pos (Finset.mem_insert_of_mem (Finset.mem_insert_self _ _))]
      omega
    · simp only [hsymbol, and_false, if_false, Finset.sum_const_zero]
      omega
  calc ∑ user ∈ users, holding' (user, symbol)
      ≤ ∑ user ∈ all, holding' (user, symbol) :=
        Finset.sum_le_sum_of_subset_of_nonneg hsubset fun u _ _ => hnonneg _
    _ = ∑ user ∈ all, holding (user, symbol) + ∑ user ∈ all, e.change (user, symbol) := by
        rw [← Finset.sum_add_distrib]
        exact Finset.sum_congr rfl fun u _ => hchange _
    _ = ∑ user ∈ all, holding (user, symbol) := by rw [hzero, add_zero]
    _ < 2 ^ 63 := h.total_lt symbol all

theorem FitInt64.lt (h : FitInt64 holding) (k : String × String) : holding k < 2 ^ 63 := by
  have hsum := h.total_lt k.2 {k.1}
  rwa [Finset.sum_singleton] at hsum

end

section

variable {pp : PositionProcessor} {e : TradeExecutedEvent}

theorem toInt_quantity (hpos : 0 < e.quantity) (hlt : e.quantity < 2 ^ 63) :
    (Int64.ofInt e.quantity).toInt = e.quantity :=
  Int64.toInt_ofInt_of_le (by omega) hlt

theorem TradeExecutedEvent.net_legs (hpos : 0 < e.quantity) (hlt : e.quantity < 2 ^ 63)
    (hq : Survives pp.conv e.quantity) (k : String × String) :
    PositionLeg.net pp k e.legs = e.change k := by
  have hint := toInt_quantity hpos hlt
  unfold legs change buyer seller PositionLeg.net
  split
  · simp only [map_cons, map_nil, sum_cons, sum_nil, PositionLeg.key,
      PositionLeg.amount_buy hq, PositionLeg.amount_sell hq, hint]
    split <;> split <;> omega
  · simp only [map_cons, map_nil, sum_cons, sum_nil, PositionLeg.key,
      PositionLeg.amount_buy hq, PositionLeg.amount_sell hq, hint]
    split <;> split <;> omega

theorem TradeExecutedEvent.covered {rows : Nat → Option PositionRow} {n : Nat} {tx : PositionTx}
    {val : PositionRow → Int64} {good : PositionRow → Prop} (htx : TxOk pp val good rows n tx)
    (hdone : tx.done = e.legs) (hpos : 0 < e.quantity) (hlt : e.quantity < 2 ^ 63)
    (hq : Survives pp.conv e.quantity) (hne : e.buyer ≠ e.seller) :
    e.quantity ≤ (Rows.cell PositionRow.key val 0 (e.seller, e.symbolStr) rows n).toInt := by
  have hint := toInt_quantity hpos hlt
  have hcovered := htx.covered
  rw [hdone] at hcovered
  unfold legs at hcovered
  unfold buyer seller at hne
  unfold seller
  by_cases hside : e.takerSide = "buy"
  · simp only [if_pos hside] at hcovered hne ⊢
    have hsell := hcovered 1 _ rfl
    -- the buyer's leg came first, on another row
    have hnet : PositionLeg.net pp (e.makerUser, e.symbolStr)
        [.buy e.takerUser e.symbolStr (Model.nanoString e.quantity) (Model.nanoString e.price)] =
        0 := by
      apply PositionLeg.net_of_not_mem
      intro hmem
      exact hne (congrArg Prod.fst (mem_singleton.mp hmem)).symm
    change 0 ≤ (Rows.cell PositionRow.key val 0 (e.makerUser, e.symbolStr) rows n +
      Int64.ofInt (PositionLeg.net pp (e.makerUser, e.symbolStr)
        [.buy e.takerUser e.symbolStr (Model.nanoString e.quantity)
          (Model.nanoString e.price)])).toInt +
      (PositionLeg.sell e.makerUser e.symbolStr (Model.nanoString e.quantity)).amount pp at hsell
    rw [hnet, PositionLeg.amount_sell hq, hint, show Int64.ofInt 0 = 0 from rfl,
      Int64.add_zero] at hsell
    omega
  · simp only [if_neg hside] at hcovered ⊢
    have hsell := hcovered 0 _ rfl
    change 0 ≤ (Rows.cell PositionRow.key val 0 (e.takerUser, e.symbolStr) rows n +
      Int64.ofInt 0).toInt +
      (PositionLeg.sell e.takerUser e.symbolStr (Model.nanoString e.quantity)).amount pp at hsell
    rw [PositionLeg.amount_sell hq, hint, show Int64.ofInt 0 = 0 from rfl, Int64.add_zero] at hsell
    omega

end

/-! ## Runs of trades -/

structure TradesOk (pp : PositionProcessor) (start : List String) (s : Tables) : Prop where
  trades : ∀ tx ∈ s.txs, ∃ e, tx.work = .trade e ∧ 0 < e.quantity ∧ e.quantity < 2 ^ 63 ∧
    Survives pp.conv e.quantity
  distinct : ∀ (i j : Nat) (tx tx' : PositionTx), s.txs[i]? = some tx → s.txs[j]? = some tx' →
    tx.work.eventID = tx'.work.eventID → i = j
  outbox : ∀ id ∈ s.outbox, id ∈ start ∨
    ∃ tx ∈ s.txs, tx.phase = .committed ∧ tx.work.eventID = some id
  grows : ∀ id ∈ start, id ∈ s.outbox
  fresh : ∀ tx ∈ s.txs, ∀ id, tx.work.eventID = some id → id ∉ start
  not_skipped : ∀ tx ∈ s.txs, tx.phase ≠ .skipped

section

variable {pp : PositionProcessor} {start : List String} {held : List Nat} {s s' : Tables}
  {a : TablesAction}

theorem TradesOk.begin (hok : TradesOk pp start s) {process : Nat} {work : TxWork}
    (hnew : s.NewTrade (.begin process work))
    (hq : (TablesAction.begin process work).Survives pp) :
    TradesOk pp start { s with txs := s.txs ++ [work.begin process] } := by
  cases work with
  | calls legs => exact absurd hnew id
  | trade e =>
    obtain ⟨hpos, hlt, houtbox, hid⟩ := hnew
    constructor
    · exact forall_mem_concat hok.trades ⟨e, rfl, hpos, hlt, hq⟩
    · intro i j tx tx' hi hj heq
      rcases getElem?_concat_cases hi with hi' | ⟨hi', rfl⟩
      · rcases getElem?_concat_cases hj with hj' | ⟨-, rfl⟩
        · exact hok.distinct i j tx tx' hi' hj' heq
        · exact absurd heq (hid tx (mem_of_getElem? hi'))
      · rcases getElem?_concat_cases hj with hj' | ⟨hj', -⟩
        · exact absurd heq.symm (hid tx' (mem_of_getElem? hj'))
        · exact hi'.trans hj'.symm
    · intro id hmem
      rcases hok.outbox id hmem with hstart | ⟨tx, htx, hcommitted⟩
      · exact .inl hstart
      · exact .inr ⟨tx, mem_append_left _ htx, hcommitted⟩
    · exact hok.grows
    · intro tx htx id heq hstart
      rcases mem_append.mp htx with htx | htx
      · exact hok.fresh tx htx id heq hstart
      · rw [mem_singleton.mp htx] at heq
        cases heq
        exact houtbox (hok.grows _ hstart)
    · exact forall_mem_concat hok.not_skipped fun h => by cases h

theorem TradesOk.set (hok : TradesOk pp start s) {k : Nat} {tx tx' : PositionTx}
    (hk : s.txs[k]? = some tx) (hopen : tx.phase.isOpen = true) (hwork : tx'.work = tx.work)
    (hskipped : tx'.phase ≠ .skipped) {rows : Nat → Option PositionRow} {n : Nat}
    {outbox : List String} (hgrows : ∀ id ∈ s.outbox, id ∈ outbox)
    (houtbox : ∀ id ∈ outbox, id ∈ s.outbox ∨
      (tx'.phase = .committed ∧ tx.work.eventID = some id)) :
    TradesOk pp start (Tables.mk rows n outbox (s.txs.set k tx')) := by
  have hmem := mem_of_getElem? hk
  constructor
  · intro t ht
    rcases mem_or_eq_of_mem_set ht with ht | rfl
    · exact hok.trades t ht
    · rw [hwork]
      exact hok.trades tx hmem
  · intro i j t t' hi hj heq
    rcases getElem?_set_cases hi with ⟨rfl, rfl⟩ | ⟨-, hi'⟩
    · rcases getElem?_set_cases hj with ⟨rfl, -⟩ | ⟨-, hj'⟩
      · rfl
      · exact hok.distinct _ j tx t' hk hj' (hwork ▸ heq)
    · rcases getElem?_set_cases hj with ⟨rfl, rfl⟩ | ⟨-, hj'⟩
      · exact hok.distinct i _ t tx hi' hk (hwork ▸ heq)
      · exact hok.distinct i j t t' hi' hj' heq
  · intro id hid
    rcases houtbox id hid with hold | ⟨hcommitted, heq⟩
    · rcases hok.outbox id hold with hstart | hex
      · exact .inl hstart
      · rcases exists_mem_set hk hex tx' with ⟨hcommitted, -⟩ | hex
        · exact absurd hcommitted (not_committed hopen)
        · exact .inr hex
    · refine .inr ⟨tx', mem_of_getElem? (getElem?_set_self hk tx'), hcommitted, ?_⟩
      rwa [hwork]
  · exact fun id hid => hgrows id (hok.grows id hid)
  · intro t ht id heq
    rcases mem_or_eq_of_mem_set ht with ht | rfl
    · exact hok.fresh t ht id heq
    · rw [hwork] at heq
      exact hok.fresh tx hmem id heq
  · intro t ht
    rcases mem_or_eq_of_mem_set ht with ht | rfl
    · exact hok.not_skipped t ht
    · exact hskipped

-- The id of an open transaction is not in the outbox.
theorem TradesOk.not_mem_outbox (hok : TradesOk pp start s) {k : Nat} {tx : PositionTx}
    (hk : s.txs[k]? = some tx) (hopen : tx.phase.isOpen = true) {id : String}
    (hid : tx.work.eventID = some id) : id ∉ s.outbox := by
  intro hmem
  rcases hok.outbox id hmem with hstart | ⟨t, ht, hcommitted, heq⟩
  · exact hok.fresh tx (mem_of_getElem? hk) id hid hstart
  · obtain ⟨j, hj⟩ := mem_iff_getElem?.mp ht
    have hjk := hok.distinct j k t tx hj hk (heq.trans hid.symm)
    rw [hjk, hk] at hj
    cases hj
    exact not_committed hopen hcommitted

theorem TradesOk.step (hok : TradesOk pp start s) (hnew : s.NewTrade a) (hq : a.Survives pp)
    (h : s.step pp held a = some s') : TradesOk pp start s' := by
  -- statements that leave the outbox and do not end in a skip
  have hset : ∀ {k n : Nat} {tx tx' : PositionTx}, s.txs[k]? = some tx →
      tx.phase.isOpen = true → tx'.work = tx.work → tx'.phase ≠ .skipped →
      TradesOk pp start ({ s with nextID := n }.setTx k tx') := fun hk hopen hwork hskipped =>
    hok.set hk hopen hwork hskipped (fun _ hid => hid) fun _ hid => .inl hid
  cases step_move h with
  | begin => exact hok.begin hnew hq
  | close hk hopen hclosed hphase hskipped =>
    refine hset hk hopen rfl fun hphase => ?_
    obtain ⟨id, hmem, hid⟩ := hskipped hphase
    exact hok.not_mem_outbox hk hopen hid hmem
  | reserve hk hphase | first hk hphase | save hk hphase | create hk hphase =>
    exact hset hk (by rw [hphase]; rfl) rfl fun h => by cases h
  | @commit k tx hk hphase =>
    have hskipped : ({ tx with phase := .committed } : PositionTx).phase ≠ .skipped :=
      fun h => by cases h
    have hwork : ({ tx with phase := .committed } : PositionTx).work = tx.work := rfl
    refine hok.set hk (by rw [hphase]; rfl) hwork hskipped
      (fun id hid => mem_append_left _ hid) (fun id hid => ?_)
    rcases mem_append.mp hid with hid | hid
    · exact .inl hid
    · exact .inr ⟨rfl, mem_toList.mp hid⟩

/-- With trades that are not skipped, the net of the legs is what was bought less what was sold. -/
theorem TradesOk.net_eq (hok : TradesOk pp start s) (user symbol : String) :
    s.net pp (user, symbol) = s.bought user symbol - s.sold user symbol := by
  have htx : ∀ tx ∈ s.txs,
      (if tx.phase = .committed then PositionLeg.net pp (user, symbol) tx.work.legs else 0) =
        tx.bought user symbol - tx.sold user symbol := by
    intro tx hmem
    obtain ⟨e, hwork, hpos, hlt, hq⟩ := hok.trades tx hmem
    have hlegs : tx.work.legs = e.legs := by rw [hwork]; rfl
    have hskipped := hok.not_skipped tx hmem
    unfold PositionTx.bought PositionTx.sold
    rw [hlegs, TradeExecutedEvent.net_legs hpos hlt hq, hwork]
    unfold TradeExecutedEvent.change
    cases hphase : tx.phase with
    | committed => simp [TxPhase.succeeded]
    | skipped => exact absurd hphase hskipped
    | outbox | select | write | rolledBack => simp [TxPhase.succeeded]
  unfold net bought sold
  generalize s.txs = txs at htx
  induction txs with
  | nil => rfl
  | cons tx txs ih =>
    have hhead := htx tx mem_cons_self
    have hrest := ih fun t ht => htx t (mem_cons_of_mem _ ht)
    simp only [map_cons, sum_cons, hhead, hrest]
    omega

theorem FitInt64.toInt_add {base : String × String → Int64} {net : String × String → Int}
    (hfit : FitInt64 fun k => (base k).toInt + net k) (k : String × String) :
    (base k + Int64.ofInt (net k)).toInt = (base k).toInt + net k := by
  have hlo := hfit.nonneg k
  have hhi := hfit.lt k
  have hsum : base k + Int64.ofInt (net k) = Int64.ofInt ((base k).toInt + net k) := by
    rw [Int64.ofInt_add, Int64.ofInt_toInt]
  rw [hsum]
  exact Int64.toInt_ofInt_of_le (by omega) hhi

theorem FitInt64.step {base : String × String → Int64}
    (hok : TablesOk pp scannedVolume (fun _ => True) base s)
    (htrades : TradesOk pp start s) (hfit : FitInt64 fun k => (base k).toInt + s.net pp k)
    (h : s.step pp held a = some s') : FitInt64 fun k => (base k).toInt + s'.net pp k := by
  have hsame : (∀ k, s'.net pp k = s.net pp k) →
      FitInt64 fun k => (base k).toInt + s'.net pp k := by
    intro heq
    simp only [heq]
    exact hfit
  cases step_move h with
  | begin => exact hsame (net_begin pp s _ _)
  | close hk hopen hclosed hphase => exact hsame (net_setTx hk hopen hphase _)
  | reserve hk hphase | first hk hphase | save hk hphase | create hk hphase =>
    exact hsame (net_setTx hk (by rw [hphase]; rfl) (fun h => by cases h) _)
  | @commit k tx hk hphase htodo =>
    have hopen : tx.phase.isOpen = true := by rw [hphase]; rfl
    have htx := hok.txs k tx hk hopen
    obtain ⟨e, hwork, hpos, hlt, hq⟩ := htrades.trades tx (mem_of_getElem? hk)
    have hlegs : tx.work.legs = e.legs := by rw [hwork]; rfl
    have hdone : tx.done = e.legs := by
      have heq := hok.legs tx (mem_of_getElem? hk)
      rwa [htodo, append_nil, hlegs] at heq
    have hnet : ∀ key, (base key).toInt + net pp
        { s with
          rows := Rows.view s.rows tx.writes
          outbox := s.outbox ++ tx.work.eventID.toList
          txs := s.txs.set k { tx with phase := .committed } } key =
        (base key).toInt + s.net pp key + e.change key := by
      intro key
      rw [net_set hk, if_neg (not_committed hopen), if_pos rfl, hlegs,
        TradeExecutedEvent.net_legs hpos hlt hq]
      omega
    by_cases hne : e.buyer = e.seller
    · apply hsame
      intro key
      have hkey := hnet key
      rw [TradeExecutedEvent.change_self hne] at hkey
      omega
    · refine hfit.trade ?_ hpos hnet
      have hcovered := TradeExecutedEvent.covered htx hdone hpos hlt hq hne
      have hvolume : Rows.cell key scannedVolume 0
          (e.seller, e.symbolStr) s.rows s.nextID = _ := hok.volume (e.seller, e.symbolStr)
      rwa [hvolume, hfit.toInt_add] at hcovered

theorem Tables.Start.tablesOk (hstart : s.Start) (val : PositionRow → Int64)
    (good : PositionRow → Prop) : TablesOk pp val good (s.volume val) s := by
  constructor
  · exact hstart.below
  · exact hstart.unique
  · intro k
    unfold net
    rw [hstart.txs]
    exact (Int64.add_zero _).symm
  · rw [hstart.txs]
    exact fun tx htx => absurd htx not_mem_nil
  · rw [hstart.txs]
    exact fun j tx hj => absurd (mem_of_getElem? hj) not_mem_nil
  · rw [hstart.txs]
    exact fun i j tx tx' _ hi => absurd (mem_of_getElem? hi) not_mem_nil

theorem Tables.Start.tradesOk (hstart : s.Start) : TradesOk pp s.outbox s := by
  constructor
  · rw [hstart.txs]
    exact fun tx htx => absurd htx not_mem_nil
  · rw [hstart.txs]
    exact fun i j tx tx' hi => absurd (mem_of_getElem? hi) not_mem_nil
  · exact fun id hid => .inl hid
  · exact fun id hid => hid
  · rw [hstart.txs]
    exact fun tx htx => absurd htx not_mem_nil
  · rw [hstart.txs]
    exact fun tx htx => absurd htx not_mem_nil

end

/-- In a run of new trades in which no transaction queries a user and symbol that another open one
has queried, every user has one row for a symbol, and its volume is the initial one plus what was
bought less what was sold: in `int64`, and exactly if the initial holdings fit. -/
theorem position_updates_not_lost {pp : PositionProcessor} {s₀ s : Tables} (hstart : s₀.Start)
    (hrun : Run.Reaches (step pp [])
      (fun s a => (s.NewTrade a ∧ a.Survives pp) ∧ s.Isolated a) s₀ s) (user symbol : String) :
    (∀ id id' r r', s.rows id = some r → s.rows id' = some r' → r.key = (user, symbol) →
      r'.key = (user, symbol) → id = id') ∧
    s.volume scannedVolume (user, symbol) = s₀.volume scannedVolume (user, symbol) +
        Int64.ofInt (s.bought user symbol - s.sold user symbol) ∧
    ((FitInt64 fun k => (s₀.volume scannedVolume k).toInt) →
      (s.volume scannedVolume (user, symbol)).toInt =
        (s₀.volume scannedVolume (user, symbol)).toInt +
          s.bought user symbol - s.sold user symbol) := by
  have hinv := hrun.invariant
    (I := fun s => TablesOk pp scannedVolume (fun _ => True)
        (s₀.volume scannedVolume) s ∧ TradesOk pp s₀.outbox s ∧
      ((FitInt64 fun k => (s₀.volume scannedVolume k).toInt) →
        FitInt64 fun k => (s₀.volume scannedVolume k).toInt + s.net pp k))
    ⟨hstart.tablesOk _ _, hstart.tradesOk, fun hfit => by
      unfold net
      rw [hstart.txs]
      simpa using hfit⟩
    (by
      rintro s a s' ⟨hok, htrades, hfit⟩ ⟨⟨hnew, hq⟩, hisolated⟩ hstep
      have hfinds : s.Finds (fun _ => True) a := by
        cases a <;> unfold Tables.Finds <;> simp
      exact ⟨hok.step (fun _ _ => rfl) (fun _ => trivial) hisolated hfinds hstep,
        htrades.step hnew hq hstep, fun h => (hfit h).step hok htrades hstep⟩)
  obtain ⟨hok, htrades, hfit⟩ := hinv
  have hnet := htrades.net_eq user symbol
  refine ⟨fun id id' r r' hr hr' hk hk' => ?_, ?_, fun h => ?_⟩
  · exact hok.unique id id' r r' hr hr' (hk.trans hk'.symm)
  · rw [hok.volume, hnet]
  · rw [hok.volume, (hfit h).toInt_add, hnet]
    omega

/-! ## Two processes, one position -/

def Tables.ofRows (rows : List PositionRow) : Tables where
  rows := fun
    | 0 => none
    | n + 1 => rows[n]?
  nextID := rows.length + 1
  outbox := []
  txs := []

theorem Tables.ofRows_start {rows : List PositionRow} (h : (rows.map key).Nodup) :
    (ofRows rows).Start := by
  have hplace : ∀ {i : Nat} {r : PositionRow}, (ofRows rows).rows i = some r →
      ∃ n, i = n + 1 ∧ rows[n]? = some r := by
    intro i r hr
    cases i with
    | zero => cases hr
    | succ n => exact ⟨n, rfl, hr⟩
  refine ⟨rfl, fun i r hr => ?_, fun i j r r' hr hr' hkey => ?_⟩
  · obtain ⟨n, rfl, hn⟩ := hplace hr
    exact Nat.succ_lt_succ (List.getElem?_eq_some_iff.mp hn).1
  · obtain ⟨n, rfl, hn⟩ := hplace hr
    obtain ⟨m, rfl, hm⟩ := hplace hr'
    have hlt := (List.getElem?_eq_some_iff.mp hn).1
    have heq : (rows.map key)[n]? = (rows.map key)[m]? := by
      rw [List.getElem?_map, List.getElem?_map, hn, hm, map_some, map_some, hkey]
    rw [(List.getElem?_inj (by rw [length_map]; exact hlt) h).mp heq]

def tenCoins (userID : String) : PositionRow where
  userID := userID
  symbol := "BTC"
  volume := "10.00000000"
  avgPrice := "1.00000000"
  volumeBigint := some 1000000000
  avgPriceBigint := some 100000000

def purchase (tradeID buyer seller : String) : TradeExecutedEvent where
  seq := 1
  timestamp := 0
  tradeID := tradeID
  symbolStr := "BTC"
  takerOrderID := "o2"
  makerOrderID := "o1"
  takerUser := buyer
  makerUser := seller
  price := 100000000
  quantity := 100000000
  takerSide := "buy"

def twoPurchases (buyer : String) : List TablesAction :=
  [.begin 0 (.trade (purchase "t1" buyer "bob")), .begin 1 (.trade (purchase "t2" buyer "carol")),
    .insertOutbox 0 none, .insertOutbox 1 none, .first 0 none, .first 1 none,
    .write 0 none, .first 0 none, .write 0 none, .commit 0 none,
    .write 1 none, .first 1 none, .write 1 none, .commit 1 none]

/-- Both trades are committed.  A buyer who had ten coins has eleven, and a buyer who had none gets
two rows. -/
theorem concurrent_purchases_lose_one : (∃ s, Run.Reaches (step amd64Processor [])
        (fun s a => s.NewTrade a ∧ a.Survives amd64Processor)
        (ofRows [tenCoins "alice", tenCoins "bob", tenCoins "carol"]) s ∧
      (∀ tx ∈ s.txs, tx.phase = .committed) ∧
      s.bought "alice" "BTC" - s.sold "alice" "BTC" = 200000000 ∧
      s.volume scannedVolume ("alice", "BTC") = 1100000000) ∧
    ∃ s, Run.Reaches (step amd64Processor [])
        (fun s a => s.NewTrade a ∧ a.Survives amd64Processor)
        (ofRows [tenCoins "bob", tenCoins "carol"]) s ∧
      (∀ tx ∈ s.txs, tx.phase = .committed) ∧
      (s.rows 3).map key = some ("alice", "BTC") ∧
      (s.rows 4).map key = some ("alice", "BTC") := by
  constructor
  · exact exists_reaches (twoPurchases "alice") (by decide +kernel) fun _ _ h => h
  · exact exists_reaches (twoPurchases "alice") (by decide +kernel) fun _ _ h => h

theorem tenCoins_volume (user symbol : String) :
    (ofRows [tenCoins "alice"]).volume scannedVolume (user, symbol) =
      if "alice" = user ∧ "BTC" = symbol then 1000000000 else 0 := by
  unfold Tables.volume Rows.cell
  simp only [ofRows, length_singleton, Rows.first, key, tenCoins,
    List.getElem?_cons_zero, bind_some, bind_none, or_none, none_or,
    Prod.mk.injEq]
  split <;> rfl

theorem tenCoins_fit : FitInt64 fun k =>
    ((ofRows [tenCoins "alice"]).volume scannedVolume k).toInt where
  nonneg := by
    intro k
    rw [show k = (k.1, k.2) from rfl, tenCoins_volume]
    split <;> decide
  total_lt := by
    intro symbol users
    have hle : ∀ user, ((ofRows [tenCoins "alice"]).volume scannedVolume
        (user, symbol)).toInt ≤ if "alice" = user then 1000000000 else 0 := by
      intro user
      rw [tenCoins_volume]
      by_cases huser : "alice" = user
      · rw [if_pos huser]
        split <;> decide
      · rw [if_neg huser, if_neg fun h => huser h.1]
        decide
    calc ∑ user ∈ users, ((ofRows [tenCoins "alice"]).volume scannedVolume
            (user, symbol)).toInt
        ≤ ∑ user ∈ users, (if "alice" = user then 1000000000 else 0 : Int) :=
          Finset.sum_le_sum fun user _ => hle user
      _ ≤ 1000000000 := by
          rw [Finset.sum_ite_eq]
          split <;> decide
      _ < 2 ^ 63 := by decide

/-- Two sales of one user whose transactions overlap, with the user's row queried in turn. -/
theorem overlapping_sales_kept : ∃ s, Run.Reaches (step amd64Processor [])
        (fun s a => (s.NewTrade a ∧ a.Survives amd64Processor) ∧ s.Isolated a)
        (ofRows [tenCoins "alice"]) s ∧
      (∀ tx ∈ s.txs, tx.phase = .committed) ∧ s.sold "alice" "BTC" = 200000000 ∧
      (s.volume scannedVolume ("alice", "BTC")).toInt =
        ((ofRows [tenCoins "alice"]).volume scannedVolume
          ("alice", "BTC")).toInt + s.bought "alice" "BTC" - s.sold "alice" "BTC" := by
  refine exists_reaches
    [.begin 0 (.trade (purchase "t1" "bob" "alice")),
      .begin 1 (.trade (purchase "t2" "carol" "alice")), .insertOutbox 0 none,
      .insertOutbox 1 none, .first 0 none, .first 1 none, .write 0 none, .write 1 none,
      .first 0 none, .write 0 none, .commit 0 none, .first 1 none, .write 1 none,
      .commit 1 none]
    (P := fun s => (∀ tx ∈ s.txs, tx.phase = .committed) ∧ s.sold "alice" "BTC" = 200000000)
    (by decide +kernel) fun _ hreach ⟨hcommitted, hsold⟩ => ?_
  have hstart := ofRows_start (show ([tenCoins "alice"].map key).Nodup from
    nodup_singleton _)
  exact ⟨hcommitted, hsold,
    (position_updates_not_lost hstart hreach "alice" "BTC").2.2 tenCoins_fit⟩

end CexHertz
