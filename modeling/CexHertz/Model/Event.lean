import Mathlib.Init

/-!
# Events of the matching engine

Prices and quantities are the source's `int64` counts of `10⁻⁸` units, kept as integers: where a
computation can leave the `int64` range, the function that does it says so.
-/

namespace CexHertz

structure OrderSubmittedEvent where
  seq : Nat
  timestamp : Int
  orderID : String
  userID : String
  symbolStr : String
  side : String
  price : Int
  quantity : Int
  status : String
  deriving DecidableEq, Repr

structure TradeExecutedEvent where
  seq : Nat
  timestamp : Int
  tradeID : String
  symbolStr : String
  takerOrderID : String
  makerOrderID : String
  takerUser : String
  makerUser : String
  price : Int
  quantity : Int
  takerSide : String
  deriving DecidableEq, Repr

structure OrderCancelledEvent where
  seq : Nat
  timestamp : Int
  orderID : String
  symbolStr : String
  reason : String
  deriving DecidableEq, Repr

inductive MatchingEngineEvent where
  | orderSubmitted (e : OrderSubmittedEvent)
  | tradeExecuted (e : TradeExecutedEvent)
  | orderCancelled (e : OrderCancelledEvent)
  deriving DecidableEq, Repr

namespace MatchingEngineEvent

def eventType : MatchingEngineEvent → String
  | orderSubmitted _ => "order_submitted"
  | tradeExecuted _ => "trade_executed"
  | orderCancelled _ => "order_cancelled"

def eventSeq : MatchingEngineEvent → Nat
  | orderSubmitted e => e.seq
  | tradeExecuted e => e.seq
  | orderCancelled e => e.seq

def eventTimestamp : MatchingEngineEvent → Int
  | orderSubmitted e => e.timestamp
  | tradeExecuted e => e.timestamp
  | orderCancelled e => e.timestamp

def symbol : MatchingEngineEvent → String
  | orderSubmitted e => e.symbolStr
  | tradeExecuted e => e.symbolStr
  | orderCancelled e => e.symbolStr

end MatchingEngineEvent

def minQty (a b : Int) : Int := if a < b then a else b

end CexHertz
