import CexHertz.Lib.Run
import CexHertz.Lib.Table
import CexHertz.Model.Amount
import CexHertz.Model.Event

/-!
# Positions and the transactional outbox

`PositionProcessor` with a database: every `TradeExecutedEvent` is one transaction that reserves the
trade in the outbox and moves the quantity between the two users. A failing database call is part of
the input; an error rolls back. The lock of their symbol takes deliveries one after the other.
-/

namespace CexHertz

open Model

open FloatText (IntConversion)

/-- The fields of `model.Position`; its primary key is the place in the table. -/
structure Position where
  userID : String
  symbol : String
  volume : String
  avgPrice : String
  volumeBigint : Int64
  avgPriceBigint : Int64
  deriving DecidableEq

def Position.key (p : Position) : String × String := (p.userID, p.symbol)

structure OutboxEntry where
  eventID : String
  eventType : String
  aggregateID : String
  aggregateType : String
  payload : String
  published : Bool
  publishedAt : Option Int
  createdAt : Int
  updatedAt : Int
  retryCount : Int
  lastError : String
  deriving DecidableEq

structure PositionDb where
  positions : List Position
  outbox : List OutboxEntry
  deriving DecidableEq

inductive DbCall where
  | begin
  | insertOutbox
  | firstBuy
  | writeBuy
  | firstSell
  | writeSell
  | commit
  deriving DecidableEq

/-- What the outside decides during a delivery: the clock, and which calls fail with what. -/
structure TxInput where
  createdAt : Int
  updatedAt : Int
  fault : DbCall → Option String

structure PositionProcessor where
  conv : IntConversion
  marshal : TradeExecutedEvent → String

/-! ## Queries and writes -/

inductive QueryError where
  | recordNotFound
  | other (msg : String)

def QueryError.text : QueryError → String
  | recordNotFound => "record not found"
  | other msg => msg

def PositionDb.first (db : PositionDb) (fault : Option String) (userID symbol : String) :
    Except QueryError (Nat × Position) :=
  match fault with
  | some msg => .error (.other msg)
  | none =>
    match Table.first Position.key (userID, symbol) db.positions with
    | none => .error .recordNotFound
    | some found => .ok found

def PositionDb.create (db : PositionDb) (fault : Option String) (pos : Position) :
    Except String PositionDb :=
  match fault with
  | some msg => .error msg
  | none => .ok { db with positions := db.positions ++ [pos] }

def PositionDb.save (db : PositionDb) (fault : Option String) (id : Nat) (pos : Position) :
    Except String PositionDb :=
  match fault with
  | some msg => .error msg
  | none => .ok { db with positions := db.positions.set id pos }

/-- Insert with `ON CONFLICT DO NOTHING`; the answer tells whether a row was added. -/
def writeOutboxEntryIfNotExists (db : PositionDb) (fault : Option String) (entry : OutboxEntry) :
    Except String (Bool × PositionDb) :=
  match fault with
  | some msg => .error msg
  | none =>
    if db.outbox.any (fun row => row.eventID = entry.eventID) then .ok (false, db)
    else .ok (true, { db with outbox := db.outbox ++ [entry] })

/-! ## The two legs -/

inductive PositionLeg where
  | buy (userID symbol buyQtyStr buyPriceStr : String)
  | sell (userID symbol sellQtyStr : String)
  deriving DecidableEq

namespace PositionLeg

def key : PositionLeg → String × String
  | buy userID symbol _ _ => (userID, symbol)
  | sell userID symbol _ => (userID, symbol)

/-- `BuyPositionTx` and `SellPositionTx` between the query and the write: the row to write, and the
primary key to save it under, none to create it. The average is computed on unbounded integers, the
quantity on `int64`. -/
def compute (pp : PositionProcessor) :
    PositionLeg → Except QueryError (Nat × Position) → Except String (Option Nat × Position)
  | buy userID symbol buyQtyStr buyPriceStr, query =>
    -- the error of the query is looked at after the amounts
    match Model.parseQuantity pp.conv buyQtyStr with
    | .error msg => .error msg
    | .ok buyQty =>
    match Model.parsePrice pp.conv buyPriceStr with
    | .error msg => .error msg
    | .ok buyPrice =>
    match query with
    | .error .recordNotFound =>
      .ok (none,
        { userID := userID
          symbol := symbol
          volume := nanoString buyQty.toInt
          avgPrice := nanoString buyPrice.toInt
          volumeBigint := buyQty
          avgPriceBigint := buyPrice })
    | .error err => .error err.text
    | .ok (id, pos) =>
      let newQty := pos.volumeBigint + buyQty
      let sum :=
        pos.volumeBigint.toInt * pos.avgPriceBigint.toInt + buyQty.toInt * buyPrice.toInt
      if newQty.toInt = 0 then .error "new quantity is zero"
      else
        -- `big.Int.Div` is Euclidean division
        let newAvg := sum / newQty.toInt
        if newAvg < -2 ^ 63 ∨ 2 ^ 63 ≤ newAvg then
          .error "price overflow when computing weighted average"
        else
          .ok (some id, { pos with
              volumeBigint := newQty
              avgPriceBigint := Int64.ofInt newAvg
              volume := nanoString newQty.toInt
              avgPrice := nanoString newAvg })
  | sell _ _ sellQtyStr, query =>
    match query with
    | .error err => .error err.text
    | .ok (id, pos) =>
    match Model.parseQuantity pp.conv sellQtyStr with
    | .error msg => .error msg
    | .ok sellQty =>
      if pos.volumeBigint < sellQty then .error "持仓不足"
      else
        let newQty := pos.volumeBigint - sellQty
        .ok (some id, { pos with
            volumeBigint := newQty
            avgPriceBigint := if newQty = 0 then 0 else pos.avgPriceBigint
            avgPrice :=
              if newQty = 0 then "0" else nanoString pos.avgPriceBigint.toInt
            volume := nanoString newQty.toInt })

end PositionLeg

def PositionDb.write (db : PositionDb) (fault : Option String) :
    Except String (Option Nat × Position) → Except String PositionDb
  | .error msg => .error msg
  | .ok (none, pos) => db.create fault pos
  | .ok (some id, pos) => db.save fault id pos

section

variable (pp : PositionProcessor) (input : TxInput) (db : PositionDb)

def buyPositionTx (userID symbol buyQtyStr buyPriceStr : String) : Except String PositionDb :=
  let query := db.first (input.fault .firstBuy) userID symbol
  db.write (input.fault .writeBuy)
    ((PositionLeg.buy userID symbol buyQtyStr buyPriceStr).compute pp query)

def sellPositionTx (userID symbol sellQtyStr : String) : Except String PositionDb :=
  let query := db.first (input.fault .firstSell) userID symbol
  db.write (input.fault .writeSell) ((PositionLeg.sell userID symbol sellQtyStr).compute pp query)

/-! ## One delivery -/

def outboxEntry (e : TradeExecutedEvent) : OutboxEntry where
  eventID := e.tradeID
  eventType := "TradeExecuted"
  aggregateID := e.symbolStr
  aggregateType := "OrderBook"
  payload := pp.marshal e
  published := false
  publishedAt := none
  createdAt := input.createdAt
  updatedAt := input.updatedAt
  retryCount := 0
  lastError := ""

def moveQuantity (e : TradeExecutedEvent) : Except String PositionDb :=
  let quantityStr := nanoString e.quantity
  let priceStr := nanoString e.price
  if e.takerSide = "buy" then
    match buyPositionTx pp input db e.takerUser e.symbolStr quantityStr priceStr with
    | .error msg => .error msg
    | .ok db => sellPositionTx pp input db e.makerUser e.symbolStr quantityStr
  else
    match sellPositionTx pp input db e.takerUser e.symbolStr quantityStr with
    | .error msg => .error msg
    | .ok db => buyPositionTx pp input db e.makerUser e.symbolStr quantityStr priceStr

def tradeTransaction (e : TradeExecutedEvent) : Except String PositionDb :=
  match writeOutboxEntryIfNotExists db (input.fault .insertOutbox) (outboxEntry pp input e) with
  | .error msg => .error msg
  | .ok (false, db) => .ok db
  | .ok (true, db) => moveQuantity pp input db e

/-- `gorm.DB.Transaction`: the body's changes are kept if it and the commit succeed. -/
def transaction (body : PositionDb → Except String PositionDb) : PositionDb × Option String :=
  match input.fault .begin with
  | some msg => (db, some msg)
  | none =>
    match body db with
    | .error msg => (db, some msg)
    | .ok db' =>
      match input.fault .commit with
      | some msg => (db, some msg)
      | none => (db', none)

def handleTradeExecutedTransactional (e : TradeExecutedEvent) : PositionDb × Option String :=
  transaction input db fun db => tradeTransaction pp input db e

/-- `ProcessEvent`: only trades concern positions. -/
def PositionProcessor.processEvent : MatchingEngineEvent → PositionDb × Option String
  | .tradeExecuted e => handleTradeExecutedTransactional pp input db e
  | .orderCancelled _ => (db, none)
  | .orderSubmitted _ => (db, none)

end

end CexHertz
