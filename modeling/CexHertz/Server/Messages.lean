import CexHertz.Lib.JsonText

/-!
# Messages put together by hand

`PushMatchResult`, `PushOrderBookSnapshot` and the acknowledgements of `websocket_server.go` write
JSON piece by piece and put strings between quotes as they are.
-/

namespace CexHertz

open Json List

/-- The bytes of a buffer, or of a concatenation, after the strings written to it. -/
def written (pieces : List String) : String := String.ofList (pieces.flatMap String.toList)

def pushMatchResult (msgType symbol orderID price quantity status : String) (ts : Int) : String :=
  written ["\x7b\"symbol\":\"", symbol, "\",\"type\":\"", msgType, "\",\"data\":\x7b",
    "\"order_id\":\"", orderID, "\",\"price\":\"", price, "\",\"quantity\":\"", quantity,
    "\",\"status\":\"", status, "\",\"ts\":", toString ts, "\x7d\x7d"]

def levelPieces (first : Bool) : List String → List String
  | [] => []
  | level :: rest =>
    (if first then [] else [","]) ++ "\"" :: level :: "\"" :: levelPieces false rest

def pushOrderBookSnapshot (symbol : String) (bids asks : List String) (ts : Int) : String :=
  written (["\x7b\"symbol\":\"", symbol, "\",\"type\":\"depth_update\",\"data\":\x7b",
    "\"bids\":["] ++ levelPieces true bids ++ ["],\"asks\":["] ++ levelPieces true asks ++
    ["],\"ts\":", toString ts, "\x7d\x7d"])

/-- The acknowledgements, of the types `subscription_ack`, `unsubscription_ack` and `order_ack`. -/
def ack (type symbol : String) : String :=
  written ["\x7b\"type\":\"", type, "\",\"symbol\":\"", symbol, "\"\x7d"]

def parseAction (msg : String) : String × String :=
  match (parse msg).bind structMembers with
  | none => ("", "")
  | some members =>
    match toStr (field "action" members), toStr (field "symbol" members) with
    | some action, some symbol => (action, symbol)
    | _, _ => ("", "")

def matchResultJson (msgType symbol orderID price quantity status : String) (ts : Int) : Json :=
  .obj [("symbol", .str symbol), ("type", .str msgType), ("data", .obj [("order_id", .str orderID),
    ("price", .str price), ("quantity", .str quantity), ("status", .str status), ("ts", .int ts)])]

def snapshotJson (symbol : String) (bids asks : List String) (ts : Int) : Json :=
  .obj [("symbol", .str symbol), ("type", .str "depth_update"), ("data", .obj
    [("bids", .arr (bids.map .str)), ("asks", .arr (asks.map .str)), ("ts", .int ts)])]

def ackJson (type symbol : String) : Json := .obj [("type", .str type), ("symbol", .str symbol)]

/-! ## Plain strings -/

section

variable {depth : Nat} {symbol : String}

-- After the first level, each one brings its comma along.
theorem quoted_levelPieces (level : String) (rest : List String) :
    quoted level ++ ((levelPieces false rest).flatMap String.toList ++ [']']) =
      itemsText ']' ((level :: rest).map quoted) := by
  induction rest generalizing level with
  | nil => rfl
  | cons next rest ih =>
    rw [map_cons, map_cons, itemsText, ← map_cons, ← ih next]
    simp [levelPieces, quoted]

theorem levelPieces_toList (levels : List String) (rest : List Char) :
    (levelPieces true levels).flatMap String.toList ++ ']' :: rest =
      itemsText ']' (levels.map quoted) ++ rest := by
  cases levels with
  | nil => rfl
  | cons level more =>
    rw [← quoted_levelPieces]
    simp [levelPieces, quoted]

theorem denotes_levels (levels : List String) :
    Denotes Plain (readValue (depth + 2)) ('[' :: itemsText ']' (levels.map quoted))
      (.arr (levels.map .str)) := by
  have hitems : ∀ i ∈ levels.map fun level => (quoted level, Json.str level),
      Denotes Plain (readValue (depth + 1)) i.1 i.2 :=
    List.forall_mem_map.mpr fun level _ => denotes_str level
  have harr := denotes_arr hitems
  rw [map_map, map_map] at harr
  exact harr

theorem parse_ack_iff {type : String} (htype : PlainText type) :
    parse (ack type symbol) = some (ackJson type symbol) ↔ PlainText symbol := by
  have hmembers : ∀ m ∈ [("type", quoted type, .str type), ("symbol", quoted symbol, .str symbol)],
      Denotes Plain (readValue 10000) m.2.1 m.2.2 := by
    simp only [forall_mem_cons]
    exact ⟨denotes_str type, denotes_str symbol, nofun⟩
  refine (parse_iff_plain (denotes_obj hmembers) ?_).trans ?_
  · simp [ack, written, objText, itemsText, quoted]
  · have hkeys : PlainText "type" ∧ PlainText "symbol" := by decide
    simp [hkeys, htype]

theorem parse_message_iff {text type : String} {data : List (String × List Char × Json)}
    (hdata : ∀ m ∈ data, Denotes Plain (readValue 9999) m.2.1 m.2.2)
    (htext : text.toList = objText [("symbol", quoted symbol, .str symbol),
      ("type", quoted type, .str type), ("data", objText data, .null)]) :
    parse text = some (.obj [("symbol", .str symbol), ("type", .str type),
        ("data", .obj (data.map fun m => (m.1, m.2.2)))]) ↔
      PlainText symbol ∧ PlainText type ∧ ∀ m ∈ data, PlainText m.1 ∧ Plain m.2.2 := by
  have hmembers : ∀ m ∈ [("symbol", quoted symbol, .str symbol), ("type", quoted type, .str type),
      ("data", objText data, .obj (data.map fun m => (m.1, m.2.2)))],
      Denotes Plain (readValue 10000) m.2.1 m.2.2 := by
    simp only [forall_mem_cons]
    exact ⟨denotes_str symbol, denotes_str type, denotes_obj hdata, nofun⟩
  refine (parse_iff_plain (denotes_obj hmembers) htext).trans ?_
  have hkeys : PlainText "symbol" ∧ PlainText "type" ∧ PlainText "data" := by decide
  simp only [plain_obj_iff, forall_mem_map, map_cons, map_nil, forall_mem_cons, plain_str_iff,
    hkeys, true_and, not_mem_nil, IsEmpty.forall_iff, implies_true, and_true]

theorem parse_pushMatchResult_iff {msgType orderID price quantity status : String} (ts : Int) :
    parse (pushMatchResult msgType symbol orderID price quantity status ts) =
        some (matchResultJson msgType symbol orderID price quantity status ts) ↔
      ∀ s ∈ [symbol, msgType, orderID, price, quantity, status], PlainText s := by
  have hdata : ∀ m ∈ [("order_id", quoted orderID, .str orderID),
      ("price", quoted price, .str price), ("quantity", quoted quantity, .str quantity),
      ("status", quoted status, .str status), ("ts", (toString ts).toList, .int ts)],
      Denotes Plain (readValue 9999) m.2.1 m.2.2 := by
    simp only [forall_mem_cons]
    exact ⟨denotes_str orderID, denotes_str price, denotes_str quantity, denotes_str status,
      denotes_int ts, nofun⟩
  refine (parse_message_iff hdata ?_).trans ?_
  · simp [pushMatchResult, written, objText, itemsText, quoted]
  · have hkeys : ∀ key ∈ ["order_id", "price", "quantity", "status", "ts"], PlainText key := by
      decide
    simp only [forall_mem_cons] at hkeys
    simp [hkeys]

theorem parse_pushOrderBookSnapshot_iff {bids asks : List String} (ts : Int) :
    parse (pushOrderBookSnapshot symbol bids asks ts) = some (snapshotJson symbol bids asks ts) ↔
      ∀ s ∈ symbol :: (bids ++ asks), PlainText s := by
  have hdata : ∀ m ∈ [("bids", '[' :: itemsText ']' (bids.map quoted), .arr (bids.map .str)),
      ("asks", '[' :: itemsText ']' (asks.map quoted), .arr (asks.map .str)),
      ("ts", (toString ts).toList, .int ts)],
      Denotes Plain (readValue 9999) m.2.1 m.2.2 := by
    simp only [forall_mem_cons]
    exact ⟨denotes_levels bids, denotes_levels asks, denotes_int ts, nofun⟩
  refine (parse_message_iff hdata ?_).trans ?_
  · simp [pushOrderBookSnapshot, written, objText, itemsText, quoted, levelPieces_toList]
  · have hkeys : PlainText "depth_update" ∧ PlainText "bids" ∧ PlainText "asks" ∧
        PlainText "ts" := by
      decide
    simp [hkeys, or_imp, forall_and]

end

/-- The messages decode to the values that were put in exactly when no string that was put in has a
quote, a backslash or a control character. -/
theorem messages_decode_iff (msgType symbol orderID price quantity status : String)
    (bids asks : List String) (ts : Int) :
    (parse (pushMatchResult msgType symbol orderID price quantity status ts) =
        some (matchResultJson msgType symbol orderID price quantity status ts) ∧
      parse (pushOrderBookSnapshot symbol bids asks ts) = some (snapshotJson symbol bids asks ts) ∧
      ∀ type ∈ ["subscription_ack", "unsubscription_ack", "order_ack"],
        parse (ack type symbol) = some (ackJson type symbol)) ↔
      ∀ s ∈ [symbol, msgType, orderID, price, quantity, status] ++ bids ++ asks, PlainText s := by
  have hacks : (∀ type ∈ ["subscription_ack", "unsubscription_ack", "order_ack"],
      parse (ack type symbol) = some (ackJson type symbol)) ↔ PlainText symbol := by
    have htypes : ∀ type ∈ ["subscription_ack", "unsubscription_ack", "order_ack"],
        PlainText type := by
      decide
    constructor
    · intro h
      exact (parse_ack_iff (htypes _ mem_cons_self)).mp (h _ mem_cons_self)
    · intro h type htype
      exact (parse_ack_iff (htypes type htype)).mpr h
  rw [parse_pushMatchResult_iff, parse_pushOrderBookSnapshot_iff, hacks, append_assoc,
    forall_mem_append, List.forall_mem_cons (l := bids ++ asks)]
  constructor
  · rintro ⟨hstrings, ⟨-, hlevels⟩, -⟩
    exact ⟨hstrings, hlevels⟩
  · rintro ⟨hstrings, hlevels⟩
    have hsymbol := hstrings symbol mem_cons_self
    exact ⟨hstrings, ⟨hsymbol, hlevels⟩, hsymbol⟩

/-- A client subscribes to a symbol that closes its string: the acknowledgement has another type at
its end.  An order id with a quote makes a text that is no JSON, and one with a backslash is read as
another id. -/
theorem symbol_breaks_messages :
    parseAction "\x7b\"action\":\"subscribe\",\"symbol\":\"A\\\",\\\"type\\\":\\\"order_ack\"\x7d" =
        ("subscribe", "A\",\"type\":\"order_ack") ∧
      parse (ack "subscription_ack" "A\",\"type\":\"order_ack") =
        some (.obj [("type", .str "subscription_ack"), ("symbol", .str "A"),
          ("type", .str "order_ack")]) ∧
      parse (pushMatchResult "trade" "A" "\"" "1" "1" "filled" 0) = none ∧
      parse (pushMatchResult "trade" "A" "\\n" "1" "1" "filled" 0) =
        some (matchResultJson "trade" "A" "\n" "1" "1" "filled" 0) := by
  refine ⟨by decide +kernel, ?_, Option.isNone_iff_eq_none.mp (by decide +kernel), ?_⟩
  all_goals rfl

end CexHertz
