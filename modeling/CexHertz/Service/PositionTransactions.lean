import CexHertz.Lib.Rows
import CexHertz.Service.Holdings

/-!
# Position transactions, statement by statement

The transactions of several processes at READ COMMITTED: a query sees what is committed at that
moment under the transaction's own writes, a write waits for the transaction that has written the
row, and the new row is computed between the two. The mutex of a symbol orders only the trades of
one process.
-/

namespace CexHertz

open Model

/-! ## Rows -/

/-- A row of `positions`.  The bigint columns came with a migration and may be NULL. -/
structure PositionRow where
  userID : String
  symbol : String
  volume : String
  avgPrice : String
  volumeBigint : Option Int64
  avgPriceBigint : Option Int64
  deriving DecidableEq

def PositionRow.key (r : PositionRow) : String × String := (r.userID, r.symbol)

def PositionRow.scan (r : PositionRow) : Position where
  userID := r.userID
  symbol := r.symbol
  volume := r.volume
  avgPrice := r.avgPrice
  volumeBigint := r.volumeBigint.getD 0
  avgPriceBigint := r.avgPriceBigint.getD 0

/-- What `Create` and `Save` write: every column. -/
def Position.row (p : Position) : PositionRow where
  userID := p.userID
  symbol := p.symbol
  volume := p.volume
  avgPrice := p.avgPrice
  volumeBigint := some p.volumeBigint
  avgPriceBigint := some p.avgPriceBigint

namespace PositionLeg

def net (pp : PositionProcessor) (k : String × String) (legs : List PositionLeg) : Int :=
  (legs.map fun leg => if leg.key = k then leg.amount pp else 0).sum

end PositionLeg

open PositionLeg

/-! ## Transactions -/

def TradeExecutedEvent.legs (e : TradeExecutedEvent) : List PositionLeg :=
  let quantityStr := nanoString e.quantity
  let priceStr := nanoString e.price
  if e.takerSide = "buy" then
    [.buy e.takerUser e.symbolStr quantityStr priceStr, .sell e.makerUser e.symbolStr quantityStr]
  else
    [.sell e.takerUser e.symbolStr quantityStr, .buy e.makerUser e.symbolStr quantityStr priceStr]

/-- A trade of `handleTradeExecutedTransactional`, or other calls of the two functions. -/
inductive TxWork where
  | trade (e : TradeExecutedEvent)
  | calls (legs : List PositionLeg)
  deriving DecidableEq

namespace TxWork

def legs : TxWork → List PositionLeg
  | trade e => e.legs
  | calls legs => legs

def eventID : TxWork → Option String
  | trade e => some e.tradeID
  | calls _ => none

def lockedSymbol : TxWork → Option String
  | trade e => if e.symbolStr = "" then none else some e.symbolStr
  | calls _ => none

end TxWork

inductive TxPhase where
  | outbox
  | select
  | write (target : Option Nat) (new : Position)
  | committed
  | skipped
  | rolledBack (msg : String)
  deriving DecidableEq

def TxPhase.isOpen : TxPhase → Bool
  | outbox | select | write _ _ => true
  | committed | skipped | rolledBack _ => false

structure PositionTx where
  process : Nat
  work : TxWork
  done : List PositionLeg
  todo : List PositionLeg
  writes : List (Nat × PositionRow)
  phase : TxPhase
  deriving DecidableEq

namespace PositionTx

def touched (tx : PositionTx) : List (String × String) :=
  match tx.phase, tx.todo with
  | .write _ _, leg :: _ => leg.key :: tx.done.map key
  | _, _ => tx.done.map key

def places (tx : PositionTx) : List Nat := tx.writes.map Prod.fst

def wrote (tx : PositionTx) (leg : PositionLeg) (rest : List PositionLeg) (id : Nat)
    (new : Position) : PositionTx :=
  { tx with
    done := tx.done ++ [leg]
    todo := rest
    writes := (id, new.row) :: tx.writes
    phase := .select }

end PositionTx

def TxWork.begin (work : TxWork) (process : Nat) : PositionTx where
  process := process
  work := work
  done := []
  todo := work.legs
  writes := []
  phase :=
    match work with
    | .trade _ => .outbox
    | .calls _ => .select

/-- The database and the transactions that were begun on it; of the outbox the event ids. -/
structure Tables where
  rows : Nat → Option PositionRow
  nextID : Nat
  outbox : List String
  txs : List PositionTx

inductive TablesAction where
  | begin (process : Nat) (work : TxWork)
  | insertOutbox (k : Nat) (fault : Option String)
  | first (k : Nat) (fault : Option String)
  | write (k : Nat) (fault : Option String)
  | commit (k : Nat) (fault : Option String)
  | rollback (k : Nat) (msg : String)
  deriving DecidableEq

namespace Tables

def setTx (s : Tables) (k : Nat) (tx : PositionTx) : Tables := { s with txs := s.txs.set k tx }

def others (s : Tables) (k : Nat) : List PositionTx :=
  (s.txs.eraseIdx k).filter fun tx => tx.phase.isOpen

def query (s : Tables) (tx : PositionTx) (fault : Option String) (k : String × String) :
    Except QueryError (Nat × Position) :=
  match fault with
  | some msg => .error (.other msg)
  | none =>
    match Rows.first PositionRow.key k (Rows.view s.rows tx.writes) s.nextID with
    | none => .error .recordNotFound
    | some (id, r) => .ok (id, r.scan)

/-- One statement of one transaction.  `held` are the rows some other session has locked; a
statement that has to wait is not possible yet. -/
def step (pp : PositionProcessor) (held : List Nat) (s : Tables) : TablesAction → Option Tables
  | .begin process work =>
    if ∃ tx ∈ s.txs, tx.phase.isOpen ∧ tx.process = process ∧ work.lockedSymbol ≠ none ∧
        tx.work.lockedSymbol = work.lockedSymbol then none
    else some { s with txs := s.txs ++ [work.begin process] }
  | .insertOutbox k fault =>
    match s.txs[k]? with
    | none => none
    | some tx =>
    match tx.phase, tx.work.eventID with
    | .outbox, some eventID =>
      match fault with
      | some msg => some (s.setTx k { tx with phase := .rolledBack msg })
      | none =>
        if eventID ∈ s.outbox then some (s.setTx k { tx with phase := .skipped })
        else if ∃ other ∈ s.others k, other.phase ≠ .outbox ∧
            other.work.eventID = some eventID then none
        else some (s.setTx k { tx with phase := .select })
    | _, _ => none
  | .first k fault =>
    match s.txs[k]? with
    | none => none
    | some tx =>
    match tx.phase, tx.todo with
    | .select, leg :: _ =>
      match leg.compute pp (s.query tx fault leg.key) with
      | .error msg => some (s.setTx k { tx with phase := .rolledBack msg })
      | .ok (target, new) => some (s.setTx k { tx with phase := .write target new })
    | _, _ => none
  | .write k fault =>
    match s.txs[k]? with
    | none => none
    | some tx =>
    match tx.phase, tx.todo with
    | .write target new, leg :: rest =>
      match fault, target with
      | some msg, _ => some (s.setTx k { tx with phase := .rolledBack msg })
      | none, some id =>
        if id ∈ held ∨ ∃ other ∈ s.others k, id ∈ other.places then none
        else some (s.setTx k (tx.wrote leg rest id new))
      | none, none =>
        -- the sequence goes on whether or not the transaction commits
        some ({ s with nextID := s.nextID + 1 }.setTx k (tx.wrote leg rest s.nextID new))
    | _, _ => none
  | .commit k fault =>
    match s.txs[k]? with
    | none => none
    | some tx =>
    match tx.phase, tx.todo with
    | .select, [] =>
      match fault with
      | some msg => some (s.setTx k { tx with phase := .rolledBack msg })
      | none =>
        some
          { s with
            rows := Rows.view s.rows tx.writes
            outbox := s.outbox ++ tx.work.eventID.toList
            txs := s.txs.set k { tx with phase := .committed } }
    | _, _ => none
  | .rollback k msg =>
    match s.txs[k]? with
    | none => none
    | some tx =>
      if tx.phase.isOpen then some (s.setTx k { tx with phase := .rolledBack msg }) else none

end Tables

/-! ## What a statement can do -/

inductive Tables.Move (pp : PositionProcessor) (held : List Nat) (s : Tables) :
    TablesAction → Tables → Prop
  | begin {process : Nat} {work : TxWork} :
      Move pp held s (.begin process work) { s with txs := s.txs ++ [work.begin process] }
  | close {a : TablesAction} {k : Nat} {tx : PositionTx} {phase : TxPhase}
      (hk : s.txs[k]? = some tx) (hopen : tx.phase.isOpen = true) (hclosed : phase.isOpen = false)
      (hphase : phase ≠ .committed)
      (hskipped : phase = .skipped → ∃ eventID ∈ s.outbox, tx.work.eventID = some eventID) :
      Move pp held s a (s.setTx k { tx with phase := phase })
  | reserve {k : Nat} {tx : PositionTx} {fault : Option String} (hk : s.txs[k]? = some tx)
      (hphase : tx.phase = .outbox) :
      Move pp held s (.insertOutbox k fault) (s.setTx k { tx with phase := .select })
  | first {k : Nat} {tx : PositionTx} {fault : Option String} {leg : PositionLeg}
      {rest : List PositionLeg} {target : Option Nat} {new : Position} (hk : s.txs[k]? = some tx)
      (hphase : tx.phase = .select) (htodo : tx.todo = leg :: rest)
      (hcompute : leg.compute pp (s.query tx fault leg.key) = .ok (target, new)) :
      Move pp held s (.first k fault) (s.setTx k { tx with phase := .write target new })
  | save {k id : Nat} {tx : PositionTx} {leg : PositionLeg} {rest : List PositionLeg}
      {new : Position} (hk : s.txs[k]? = some tx) (hphase : tx.phase = .write (some id) new)
      (htodo : tx.todo = leg :: rest) (hheld : id ∉ held)
      (hothers : ∀ other ∈ s.others k, id ∉ other.places) :
      Move pp held s (.write k none) (s.setTx k (tx.wrote leg rest id new))
  | create {k : Nat} {tx : PositionTx} {leg : PositionLeg} {rest : List PositionLeg}
      {new : Position} (hk : s.txs[k]? = some tx) (hphase : tx.phase = .write none new)
      (htodo : tx.todo = leg :: rest) :
      Move pp held s (.write k none)
        ({ s with nextID := s.nextID + 1 }.setTx k (tx.wrote leg rest s.nextID new))
  | commit {k : Nat} {tx : PositionTx} (hk : s.txs[k]? = some tx) (hphase : tx.phase = .select)
      (htodo : tx.todo = []) :
      Move pp held s (.commit k none)
        { s with
          rows := Rows.view s.rows tx.writes
          outbox := s.outbox ++ tx.work.eventID.toList
          txs := s.txs.set k { tx with phase := .committed } }

section

variable {pp : PositionProcessor} {held : List Nat} {s s' : Tables} {a : TablesAction}

theorem Tables.Move.rolledBack {k : Nat} {tx : PositionTx} (hk : s.txs[k]? = some tx)
    (hopen : tx.phase.isOpen = true) (msg : String) :
    Move pp held s a (s.setTx k { tx with phase := .rolledBack msg }) :=
  .close hk hopen rfl (fun h => by cases h) (fun h => by cases h)

theorem Tables.step_move (h : s.step pp held a = some s') : s.Move pp held a s' := by
  cases a with
  | begin process work =>
    dsimp only [step] at h
    split at h
    · cases h
    · cases h
      exact .begin
  | insertOutbox k fault =>
    dsimp only [step] at h
    split at h
    · cases h
    next tx hk =>
      split at h
      next eventID hphase hid =>
        have hopen : tx.phase.isOpen = true := by rw [hphase]; rfl
        split at h
        · cases h
          exact .rolledBack hk hopen _
        · split at h
          next hmem =>
            cases h
            exact .close hk hopen rfl (fun h => by cases h) fun _ => ⟨eventID, hmem, hid⟩
          · split at h
            · cases h
            · cases h
              exact .reserve hk hphase
      · cases h
  | first k fault =>
    dsimp only [step] at h
    split at h
    · cases h
    next tx hk =>
      split at h
      next leg rest hphase htodo =>
        split at h
        · cases h
          exact .rolledBack hk (by rw [hphase]; rfl) _
        next hcompute =>
          cases h
          exact .first hk hphase htodo hcompute
      · cases h
  | write k fault =>
    dsimp only [step] at h
    split at h
    · cases h
    next tx hk =>
      split at h
      next target new leg rest hphase htodo =>
        split at h
        · cases h
          exact .rolledBack hk (by rw [hphase]; rfl) _
        next id =>
          split at h
          · cases h
          next hfree =>
            cases h
            rw [not_or] at hfree
            exact .save hk hphase htodo hfree.1 fun other hother hid =>
              hfree.2 ⟨other, hother, hid⟩
        · cases h
          exact .create hk hphase htodo
      · cases h
  | commit k fault =>
    dsimp only [step] at h
    split at h
    · cases h
    next tx hk =>
      split at h
      next hphase htodo =>
        split at h
        · cases h
          exact .rolledBack hk (by rw [hphase]; rfl) _
        · cases h
          exact .commit hk hphase htodo
      · cases h
  | rollback k msg =>
    dsimp only [step] at h
    split at h
    · cases h
    next tx hk =>
      split at h
      next hopen =>
        cases h
        exact .rolledBack hk hopen _
      · cases h

theorem Tables.mem_others {k : Nat} {tx : PositionTx} :
    tx ∈ s.others k ↔ ∃ j, j ≠ k ∧ s.txs[j]? = some tx ∧ tx.phase.isOpen = true := by
  unfold others
  rw [List.mem_filter, List.mem_eraseIdx_iff_getElem?]
  constructor
  · rintro ⟨⟨j, hne, hj⟩, hopen⟩
    exact ⟨j, hne, hj, hopen⟩
  · rintro ⟨j, hne, hj, hopen⟩
    exact ⟨⟨j, hne, hj⟩, hopen⟩

end

end CexHertz
