import CexHertz.Lib.Json
import CexHertz.Model.Event

/-!
# Event envelopes

`MarshalEvent` and `UnmarshalEvent` of `model/event.go`.  The event structs have no field tags, so
their keys are the Go field names; an envelope has tags of its own.
-/

namespace CexHertz

open Json MatchingEngineEvent Option

variable {τ : Type}

structure EventEnvelope (τ : Type) where
  seq : Nat
  timestamp : Int
  eventType : String
  symbol : String
  payload : τ

/-! ## Structs as JSON -/

def OrderSubmittedEvent.toJson (e : OrderSubmittedEvent) : Json :=
  .obj [("Seq", .int e.seq), ("Timestamp", .int e.timestamp), ("OrderID", .str e.orderID),
    ("UserID", .str e.userID), ("SymbolStr", .str e.symbolStr), ("Side", .str e.side),
    ("Price", .int e.price), ("Quantity", .int e.quantity), ("Status", .str e.status)]

def TradeExecutedEvent.toJson (e : TradeExecutedEvent) : Json :=
  .obj [("Seq", .int e.seq), ("Timestamp", .int e.timestamp), ("TradeID", .str e.tradeID),
    ("SymbolStr", .str e.symbolStr), ("TakerOrderID", .str e.takerOrderID),
    ("MakerOrderID", .str e.makerOrderID), ("TakerUser", .str e.takerUser),
    ("MakerUser", .str e.makerUser), ("Price", .int e.price), ("Quantity", .int e.quantity),
    ("TakerSide", .str e.takerSide)]

def OrderCancelledEvent.toJson (e : OrderCancelledEvent) : Json :=
  .obj [("Seq", .int e.seq), ("Timestamp", .int e.timestamp), ("OrderID", .str e.orderID),
    ("SymbolStr", .str e.symbolStr), ("Reason", .str e.reason)]

def MatchingEngineEvent.toJson : MatchingEngineEvent → Json
  | orderSubmitted e => e.toJson
  | tradeExecuted e => e.toJson
  | orderCancelled e => e.toJson

def EventEnvelope.toJson (J : Encoding τ) (envelope : EventEnvelope τ) : Option Json :=
  match J.parse envelope.payload with
  | none => none
  | some payload => some (.obj [("seq", .int envelope.seq), ("timestamp", .int envelope.timestamp),
      ("event_type", .str envelope.eventType), ("symbol", .str envelope.symbol),
      ("payload", payload)])

def OrderSubmittedEvent.ofJson (j : Json) : Option OrderSubmittedEvent := do
  let members ← structMembers j
  let seq ← toUint64 (field "Seq" members)
  let timestamp ← toInt64 (field "Timestamp" members)
  let orderID ← toStr (field "OrderID" members)
  let userID ← toStr (field "UserID" members)
  let symbolStr ← toStr (field "SymbolStr" members)
  let side ← toStr (field "Side" members)
  let price ← toInt64 (field "Price" members)
  let quantity ← toInt64 (field "Quantity" members)
  let status ← toStr (field "Status" members)
  return { seq, timestamp, orderID, userID, symbolStr, side, price, quantity, status }

def TradeExecutedEvent.ofJson (j : Json) : Option TradeExecutedEvent := do
  let members ← structMembers j
  let seq ← toUint64 (field "Seq" members)
  let timestamp ← toInt64 (field "Timestamp" members)
  let tradeID ← toStr (field "TradeID" members)
  let symbolStr ← toStr (field "SymbolStr" members)
  let takerOrderID ← toStr (field "TakerOrderID" members)
  let makerOrderID ← toStr (field "MakerOrderID" members)
  let takerUser ← toStr (field "TakerUser" members)
  let makerUser ← toStr (field "MakerUser" members)
  let price ← toInt64 (field "Price" members)
  let quantity ← toInt64 (field "Quantity" members)
  let takerSide ← toStr (field "TakerSide" members)
  return { seq, timestamp, tradeID, symbolStr, takerOrderID, makerOrderID, takerUser, makerUser,
           price, quantity, takerSide }

def OrderCancelledEvent.ofJson (j : Json) : Option OrderCancelledEvent := do
  let members ← structMembers j
  let seq ← toUint64 (field "Seq" members)
  let timestamp ← toInt64 (field "Timestamp" members)
  let orderID ← toStr (field "OrderID" members)
  let symbolStr ← toStr (field "SymbolStr" members)
  let reason ← toStr (field "Reason" members)
  return { seq, timestamp, orderID, symbolStr, reason }

/-! ## Marshalling -/

def marshalEvent (J : Encoding τ) (event : MatchingEngineEvent) : EventEnvelope τ where
  seq := event.eventSeq
  timestamp := event.eventTimestamp
  eventType := event.eventType
  symbol := event.symbol
  payload := J.print event.toJson

/-- What `json.Unmarshal` reports; the text is that of the library. -/
inductive UnmarshalError where
  | invalid
  deriving DecidableEq

def unmarshalAs (J : Encoding τ) (ofJson : Json → Option MatchingEngineEvent) (payload : τ) :
    Except UnmarshalError (Option MatchingEngineEvent) :=
  match (J.parse payload).bind ofJson with
  | none => .error .invalid
  | some event => .ok (some event)

/-- `UnmarshalEvent`: for an unknown type it returns neither an event nor an error. -/
def unmarshalEvent (J : Encoding τ) (envelope : EventEnvelope τ) :
    Except UnmarshalError (Option MatchingEngineEvent) :=
  if envelope.eventType = "order_submitted" then
    unmarshalAs J (fun j => (OrderSubmittedEvent.ofJson j).map .orderSubmitted) envelope.payload
  else if envelope.eventType = "trade_executed" then
    unmarshalAs J (fun j => (TradeExecutedEvent.ofJson j).map .tradeExecuted) envelope.payload
  else if envelope.eventType = "order_cancelled" then
    unmarshalAs J (fun j => (OrderCancelledEvent.ofJson j).map .orderCancelled) envelope.payload
  else .ok none

/-! ## Round trip -/

def MatchingEngineEvent.InRange : MatchingEngineEvent → Prop
  | orderSubmitted e => e.seq < 2 ^ 64 ∧ (-2 ^ 63 ≤ e.timestamp ∧ e.timestamp < 2 ^ 63) ∧
      (-2 ^ 63 ≤ e.price ∧ e.price < 2 ^ 63) ∧ (-2 ^ 63 ≤ e.quantity ∧ e.quantity < 2 ^ 63)
  | tradeExecuted e => e.seq < 2 ^ 64 ∧ (-2 ^ 63 ≤ e.timestamp ∧ e.timestamp < 2 ^ 63) ∧
      (-2 ^ 63 ≤ e.price ∧ e.price < 2 ^ 63) ∧ (-2 ^ 63 ≤ e.quantity ∧ e.quantity < 2 ^ 63)
  | orderCancelled e => e.seq < 2 ^ 64 ∧ (-2 ^ 63 ≤ e.timestamp ∧ e.timestamp < 2 ^ 63)

instance : DecidablePred MatchingEngineEvent.InRange := fun event => by
  cases event <;> (unfold MatchingEngineEvent.InRange; infer_instance)

def MatchingEngineEvent.decoder : MatchingEngineEvent → Json → Option MatchingEngineEvent
  | orderSubmitted _ => fun j => (OrderSubmittedEvent.ofJson j).map orderSubmitted
  | tradeExecuted _ => fun j => (TradeExecutedEvent.ofJson j).map tradeExecuted
  | orderCancelled _ => fun j => (OrderCancelledEvent.ofJson j).map orderCancelled

-- The type string selects the decoder; the three strings are different.
theorem unmarshalEvent_of_eventType {J : Encoding τ} {envelope : EventEnvelope τ}
    {event : MatchingEngineEvent} (h : envelope.eventType = event.eventType) :
    unmarshalEvent J envelope = unmarshalAs J event.decoder envelope.payload := by
  unfold unmarshalEvent
  rw [h]
  cases event <;> rfl

theorem read_some {α β : Type} {o : Option α} {a : α} {f : α → Option β} {b : Option β}
    (h : o = some a) (hf : f a = b) : (o >>= f) = b := by
  rwa [h]

theorem decoder_toJson {event : MatchingEngineEvent} (h : event.InRange) :
    event.decoder event.toJson = some event := by
  unfold decoder toJson
  cases event with
  | orderSubmitted e =>
    obtain ⟨hseq, htime, hprice, hqty⟩ := h
    refine map_eq_some_iff.mpr ⟨e, ?_, rfl⟩
    exact read_some rfl <| read_some (toUint64_int hseq) <| read_some (toInt64_int htime) <|
      read_some rfl <| read_some rfl <| read_some rfl <| read_some rfl <|
      read_some (toInt64_int hprice) <| read_some (toInt64_int hqty) <| read_some rfl rfl
  | tradeExecuted e =>
    obtain ⟨hseq, htime, hprice, hqty⟩ := h
    refine map_eq_some_iff.mpr ⟨e, ?_, rfl⟩
    exact read_some rfl <| read_some (toUint64_int hseq) <| read_some (toInt64_int htime) <|
      read_some rfl <| read_some rfl <| read_some rfl <| read_some rfl <| read_some rfl <|
      read_some rfl <| read_some (toInt64_int hprice) <| read_some (toInt64_int hqty) <|
      read_some rfl rfl
  | orderCancelled e =>
    refine map_eq_some_iff.mpr ⟨e, ?_, rfl⟩
    exact read_some rfl <| read_some (toUint64_int h.1) <| read_some (toInt64_int h.2) <|
      read_some rfl <| read_some rfl <| read_some rfl rfl

theorem unmarshalEvent_marshalEvent (J : Encoding τ) {event : MatchingEngineEvent}
    (h : event.InRange) : unmarshalEvent J (marshalEvent J event) = .ok (some event) := by
  have htype : (marshalEvent J event).eventType = event.eventType := rfl
  rw [unmarshalEvent_of_eventType htype]
  unfold unmarshalAs marshalEvent
  rw [J.parse_print, bind_some, decoder_toJson h]

/-! ## Decoding an envelope as an event -/

def OrderSubmittedEvent.header (e : OrderSubmittedEvent) : OrderSubmittedEvent :=
  { seq := e.seq, timestamp := e.timestamp, orderID := "", userID := "", symbolStr := "",
    side := "", price := 0, quantity := 0, status := "" }

def TradeExecutedEvent.header (e : TradeExecutedEvent) : TradeExecutedEvent :=
  { seq := e.seq, timestamp := e.timestamp, tradeID := "", symbolStr := "", takerOrderID := "",
    makerOrderID := "", takerUser := "", makerUser := "", price := 0, quantity := 0,
    takerSide := "" }

def OrderCancelledEvent.header (e : OrderCancelledEvent) : OrderCancelledEvent :=
  { seq := e.seq, timestamp := e.timestamp, orderID := "", symbolStr := "", reason := "" }

/-- What is left of an event when its envelope is decoded in its place: the two keys that an
envelope and an event share. -/
def MatchingEngineEvent.header : MatchingEngineEvent → MatchingEngineEvent
  | orderSubmitted e => orderSubmitted e.header
  | tradeExecuted e => tradeExecuted e.header
  | orderCancelled e => orderCancelled e.header

-- Reading an envelope as an event loses nothing the second time.
theorem header_header (event : MatchingEngineEvent) : event.header.header = event.header := by
  cases event <;> rfl

def envelopeMembers (event : MatchingEngineEvent) : List (String × Json) :=
  [("seq", .int event.eventSeq), ("timestamp", .int event.eventTimestamp),
    ("event_type", .str event.eventType), ("symbol", .str event.symbol),
    ("payload", event.toJson)]

theorem marshalEvent_toJson (J : Encoding τ) (event : MatchingEngineEvent) :
    (marshalEvent J event).toJson J = some (.obj (envelopeMembers event)) := by
  unfold EventEnvelope.toJson marshalEvent
  rw [J.parse_print]
  rfl

-- Up to case, `seq` and `timestamp` are the only keys of an envelope that an event has too.
theorem decoder_envelope {event : MatchingEngineEvent} (h : event.InRange) :
    event.decoder (.obj (envelopeMembers event)) = some event.header := by
  unfold decoder header
  cases event with
  | orderSubmitted e | tradeExecuted e =>
    refine map_eq_some_iff.mpr ⟨e.header, ?_, rfl⟩
    exact read_some rfl <| read_some (toUint64_int h.1) <| read_some (toInt64_int h.2.1) rfl
  | orderCancelled e =>
    refine map_eq_some_iff.mpr ⟨e.header, ?_, rfl⟩
    exact read_some rfl <| read_some (toUint64_int h.1) <| read_some (toInt64_int h.2) rfl

end CexHertz
