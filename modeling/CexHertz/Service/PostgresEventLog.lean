import CexHertz.Lib.MachineInt
import CexHertz.Model.EventCodec
import CexHertz.Service.Sequencer

/-!
# The event log in PostgreSQL

`PostgresEventLog` over the `events` table: appending draws a number of its own, stores the
event's envelope as the payload of a row, and reading turns rows back into envelopes.
-/

namespace CexHertz

open Json

variable {τ : Type}

/-- A row of the `events` table; the primary key is the place in the table. -/
structure PersistentEvent (τ : Type) where
  globalSeq : Int
  eventType : String
  aggregateID : String
  aggregateType : String
  symbol : String
  payload : τ
  eventTimestamp : Int
  createdAt : Int
  version : Int

structure PostgresEventLog (τ : Type) where
  table : List (PersistentEvent τ)
  sequencer : Sequencer
  localSeqMap : String → Option Int

def newPostgresEventLog (table : List (PersistentEvent τ)) (sequencer : Sequencer) :
    PostgresEventLog τ := ⟨table, sequencer, fun _ => none⟩

structure WriteInput where
  now : Int
  fault : Option String

inductive AppendError where
  | eventNil
  | marshal
  | write (msg : String)
  deriving DecidableEq

/-- `WriteEvent`: `global_seq` is unique, and a zero `created_at` is filled in. -/
def writeEvent (table : List (PersistentEvent τ)) (input : WriteInput) (row : PersistentEvent τ) :
    Except AppendError (List (PersistentEvent τ)) :=
  match input.fault with
  | some msg => .error (.write msg)
  | none =>
    if table.any (fun r => r.globalSeq = row.globalSeq) then .error (.write "duplicate key")
    else
      .ok (table ++ [{ row with
        createdAt := if row.createdAt = 0 then input.now else row.createdAt }])

/-- `AppendEvent`; the number is drawn before anything can fail. -/
def PostgresEventLog.appendEvent (J : Encoding τ) (log : PostgresEventLog τ) (input : WriteInput)
    (event : Option MatchingEngineEvent) : PostgresEventLog τ × Option AppendError :=
  match event with
  | none => (log, some .eventNil)
  | some event =>
    let (globalSeq, sequencer) := log.sequencer.nextGlobalSeq
    let log := { log with sequencer := sequencer }
    let envelope := marshalEvent J event
    match envelope.toJson J with
    | none => (log, some .marshal)
    | some payload =>
      let row : PersistentEvent τ :=
        { globalSeq := int64 globalSeq
          eventType := envelope.eventType
          aggregateID := ""
          aggregateType := "MatchingEngine"
          symbol := event.symbol
          payload := J.print payload
          eventTimestamp := event.eventTimestamp
          createdAt := envelope.timestamp
          version := 1 }
      match writeEvent log.table input row with
      | .error err => (log, some err)
      | .ok table =>
        ({ log with
           table := table
           localSeqMap := fun symbol =>
             if symbol = event.symbol then some (int64 globalSeq)
             else log.localSeqMap symbol }, none)

theorem appendEvent_sequencer (J : Encoding τ) (log : PostgresEventLog τ) (input : WriteInput)
    (event : MatchingEngineEvent) :
    (log.appendEvent J input (some event)).1.sequencer = log.sequencer.nextGlobalSeq.2 := by
  unfold PostgresEventLog.appendEvent
  simp only [marshalEvent_toJson]
  split <;> rfl

/-- `GetSymbolEvents`: the rows of a symbol in a closed range, ordered by `global_seq`. -/
def getSymbolEvents (table : List (PersistentEvent τ)) (symbol : String) (startSeq endSeq : Int) :
    List (PersistentEvent τ) :=
  (table.filter fun row => row.symbol = symbol && (startSeq ≤ row.globalSeq : Bool) &&
    (row.globalSeq ≤ endSeq : Bool)).mergeSort fun a b => a.globalSeq ≤ b.globalSeq

def PersistentEvent.toEnvelope (row : PersistentEvent τ) : EventEnvelope τ where
  seq := uint64 row.globalSeq
  timestamp := row.createdAt
  eventType := row.eventType
  symbol := row.symbol
  payload := row.payload

/-- The end of the range that `GetEventsBySymbol` queries, in `int64` arithmetic. -/
def rangeEnd (startSeq : Nat) (limit : Int) : Int := wrapInt64 (int64 startSeq + limit)

def PostgresEventLog.getEventsBySymbol (log : PostgresEventLog τ) (fault : Option String)
    (symbol : String) (startSeq : Nat) (limit : Int) : Except String (List (EventEnvelope τ)) :=
  match fault with
  | some msg => .error msg
  | none =>
    .ok ((getSymbolEvents log.table symbol (int64 startSeq) (rangeEnd startSeq limit)).map
      PersistentEvent.toEnvelope)

/-! ## Runs of appends -/

/-- The sequencer is shared with the engine, which draws numbers between the appends. -/
inductive LogAction where
  | draw
  | append (event : MatchingEngineEvent) (input : WriteInput)

def PostgresEventLog.run (J : Encoding τ) (log : PostgresEventLog τ) :
    List LogAction → Option (PostgresEventLog τ)
  | [] => some log
  | .draw :: rest =>
    PostgresEventLog.run J { log with sequencer := log.sequencer.nextGlobalSeq.2 } rest
  | .append event input :: rest =>
    match log.appendEvent J input (some event) with
    | (_, some _) => none
    | (log, none) => PostgresEventLog.run J log rest

structure Appended where
  event : MatchingEngineEvent
  number : Nat
  now : Int

def appended (sequencer : Sequencer) : List LogAction → List Appended
  | [] => []
  | .draw :: rest => appended sequencer.nextGlobalSeq.2 rest
  | .append event input :: rest =>
    ⟨event, sequencer.nextGlobalSeq.1, input.now⟩ :: appended sequencer.nextGlobalSeq.2 rest

def ofSymbol (symbol : String) (entries : List Appended) : List Appended :=
  entries.filter fun a => a.event.symbol = symbol

/-- Reading a symbol gives back the events, decoded, in order, and under their own numbers. -/
def ReadsBack (J : Encoding τ) (log : PostgresEventLog τ) (symbol : String) (startSeq : Nat)
    (limit : Int) (events : List MatchingEngineEvent) : Prop :=
  ∃ envelopes, log.getEventsBySymbol none symbol startSeq limit = .ok envelopes ∧
    envelopes.map (unmarshalEvent J) = events.map (fun event => .ok (some event)) ∧
    envelopes.map EventEnvelope.seq = events.map MatchingEngineEvent.eventSeq

def Covers (log : PostgresEventLog τ) (symbol : String) (startSeq : Nat) (limit : Int) : Prop :=
  ∀ row ∈ log.table, row.symbol = symbol →
    int64 startSeq ≤ row.globalSeq ∧ row.globalSeq ≤ rangeEnd startSeq limit

/-- An event all of whose fields other than `Seq` and `Timestamp` are zero. -/
def Bare (event : MatchingEngineEvent) : Prop := event.header = event

/-- The appends that lose nothing: bare events under their own numbers, in ascending order. -/
def Kept (entries : List Appended) : Prop :=
  (∀ a ∈ entries, Bare a.event ∧ a.event.eventSeq = a.number) ∧
    (entries.map fun a => int64 a.number).Pairwise (· < ·)

end CexHertz
