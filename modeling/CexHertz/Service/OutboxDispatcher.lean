import CexHertz.Service.PositionRuns
import Mathlib.Data.List.Sort
import Mathlib.Data.Prod.Lex

/-!
# The life of an outbox row

`outbox_repo.go` and `outbox_dispatcher.go`. The row of a trade's transaction marks the trade as
processed and is an entry of a queue: the dispatcher publishes and marks it, the cleanup deletes it
some days later. Every statement on the table is a step.
-/

namespace CexHertz

/-! ## The repository -/

/-- `GetUnpublished`: the oldest rows first, those of one time as the database likes (`ties`); a
negative limit is none. -/
def getUnpublished (ties : OutboxEntry → Nat) (rows : List OutboxEntry) (limit : Int) :
    List OutboxEntry :=
  let found := (rows.filter fun row => !row.published).insertionSort
    fun a b => toLex (a.createdAt, ties a) ≤ toLex (b.createdAt, ties b)
  if limit < 0 then found else found.take limit.toNat

/-- `MarkPublishedBatch`; the update also touches `updated_at`. -/
def markPublishedBatch (rows : List OutboxEntry) (eventIDs : List String)
    (publishedAt updatedAt : Int) : List OutboxEntry :=
  rows.map fun row =>
    if row.eventID ∈ eventIDs then
      { row with published := true, publishedAt := some publishedAt, updatedAt := updatedAt }
    else row

def recordPublishError (rows : List OutboxEntry) (eventID errMsg : String) (updatedAt : Int) :
    List OutboxEntry :=
  rows.map fun row =>
    if row.eventID = eventID then
      { row with retryCount := row.retryCount + 1, lastError := errMsg, updatedAt := updatedAt }
    else row

/-- The rows `CleanPublished` deletes; a row without `published_at` is not older than anything. -/
def OutboxEntry.expired (row : OutboxEntry) (cutoffTime : Int) : Bool :=
  row.published && row.publishedAt.any (· < cutoffTime)

def cleanPublished (rows : List OutboxEntry) (cutoffTime : Int) : List OutboxEntry :=
  rows.filter fun row => !row.expired cutoffTime

/-! ## The dispatcher -/

structure OutboxDispatcher where
  batchSize : Int
  /-- What `json.Unmarshal` says about a payload. -/
  unmarshalError : String → Option String
  /-- `time.Time.AddDate` with a number of days. -/
  addDays : Int → Int → Int

structure OutboxInput where
  now : Int
  updatedAt : Int
  fault : Option String
  kafka : Option String
  ties : OutboxEntry → Nat

def publishEntry (od : OutboxDispatcher) (entry : OutboxEntry) (kafka : Option String) :
    Option String :=
  match od.unmarshalError entry.payload with
  | some err => some err
  | none =>
    if entry.eventType = "TradeExecuted" then kafka
    else if entry.eventType = "PositionUpdated" then kafka
    else none

/-- How far a `dispatchBatch` call has come: the entries still to be published and the event ids
published so far. -/
inductive Batch where
  | fetch
  | publish (entries : List OutboxEntry) (successfulEventIDs : List String)
  | recordError (eventID errMsg : String) (entries : List OutboxEntry)
      (successfulEventIDs : List String)
  | mark (successfulEventIDs : List String)
  | returned
  deriving DecidableEq

def Batch.step (od : OutboxDispatcher) (rows : List OutboxEntry) (input : OutboxInput) :
    Batch → Option (List OutboxEntry × Batch)
  | .fetch =>
    match input.fault with
    | some _ => some (rows, .returned)
    | none =>
      match getUnpublished input.ties rows od.batchSize with
      | [] => some (rows, .returned)
      | entry :: entries => some (rows, .publish (entry :: entries) [])
  | .publish [] successful => some (rows, if successful = [] then .returned else .mark successful)
  | .publish (entry :: entries) successful =>
    match publishEntry od entry input.kafka with
    | some err => some (rows, .recordError entry.eventID err entries successful)
    | none => some (rows, .publish entries (successful ++ [entry.eventID]))
  | .recordError eventID errMsg entries successful =>
    match input.fault with
    | some _ => some (rows, .publish entries successful)
    | none =>
      some (recordPublishError rows eventID errMsg input.updatedAt, .publish entries successful)
  | .mark successful =>
    match input.fault with
    | some _ => some (rows, .returned)
    | none => some (markPublishedBatch rows successful input.now input.updatedAt, .returned)
  | .returned => none

inductive Batch.Move (od : OutboxDispatcher) (rows : List OutboxEntry) (input : OutboxInput) :
    Batch → List OutboxEntry → Batch → Prop
  | nothing : Move od rows input .fetch rows .returned
  | fetched (entries : List OutboxEntry) : Move od rows input .fetch rows (.publish entries [])
  | noneSent : Move od rows input (.publish [] []) rows .returned
  | allTried (successful : List String) :
      Move od rows input (.publish [] successful) rows (.mark successful)
  | failed {entry : OutboxEntry} {err : String} (entries : List OutboxEntry)
      (successful : List String) (hfailed : publishEntry od entry input.kafka = some err) :
      Move od rows input (.publish (entry :: entries) successful) rows
        (.recordError entry.eventID err entries successful)
  | sent {entry : OutboxEntry} (entries : List OutboxEntry) (successful : List String)
      (hsent : publishEntry od entry input.kafka = none) :
      Move od rows input (.publish (entry :: entries) successful) rows
        (.publish entries (successful ++ [entry.eventID]))
  | unrecorded (eventID errMsg : String) (entries : List OutboxEntry) (successful : List String) :
      Move od rows input (.recordError eventID errMsg entries successful) rows
        (.publish entries successful)
  | recorded (eventID errMsg : String) (entries : List OutboxEntry) (successful : List String) :
      Move od rows input (.recordError eventID errMsg entries successful)
        (recordPublishError rows eventID errMsg input.updatedAt) (.publish entries successful)
  | unmarked (successful : List String) : Move od rows input (.mark successful) rows .returned
  | marked (successful : List String) : Move od rows input (.mark successful)
        (markPublishedBatch rows successful input.now input.updatedAt) .returned

theorem Batch.step_move {od : OutboxDispatcher} {rows rows' : List OutboxEntry}
    {input : OutboxInput} {batch batch' : Batch}
    (h : batch.step od rows input = some (rows', batch')) :
    Batch.Move od rows input batch rows' batch' := by
  cases batch with
  | fetch =>
    rw [Batch.step] at h
    split at h
    · cases h
      exact .nothing
    · split at h
      · cases h
        exact .nothing
      · cases h
        exact .fetched _
  | publish entries successful =>
    cases entries with
    | nil =>
      cases h
      split
      next hnone =>
        rw [hnone]
        exact .noneSent
      next => exact .allTried successful
    | cons entry entries =>
      rw [Batch.step] at h
      split at h
      next hfailed =>
        cases h
        exact .failed entries successful hfailed
      next hsent =>
        cases h
        exact .sent entries successful hsent
  | recordError eventID errMsg entries successful =>
    rw [Batch.step] at h
    split at h
    · cases h
      exact .unrecorded eventID errMsg entries successful
    · cases h
      exact .recorded eventID errMsg entries successful
  | mark successful =>
    rw [Batch.step] at h
    split at h
    · cases h
      exact .unmarked successful
    · cases h
      exact .marked successful
  | returned => cases h

/-! ## Deliveries, batches and cleanups -/

/-- The database and the batches under way.  Two history variables: the trades whose legs were
committed, and the event ids of the rows that cleanups deleted. -/
structure OutboxSystem where
  db : PositionDb
  batches : List Batch
  committed : List String
  cleaned : List String

def newOutboxSystem (positions : List Position) : OutboxSystem := ⟨⟨positions, []⟩, [], [], []⟩

inductive OutboxAction where
  | deliver (event : TradeExecutedEvent) (input : TxInput)
  | dispatchBatch
  | advance (batch : Nat) (input : OutboxInput)
  | cleanupPublished (retentionDays : Int) (input : OutboxInput)

namespace OutboxSystem

variable (pp : PositionProcessor) (od : OutboxDispatcher) (s : OutboxSystem)

/-- The legs are committed if the transaction succeeds and the trade was not `alreadyProcessed`. -/
def deliver (event : TradeExecutedEvent) (input : TxInput) : OutboxSystem :=
  let (db, err) := pp.processEvent input s.db (.tradeExecuted event)
  let alreadyProcessed := s.db.outbox.any fun row => row.eventID = event.tradeID
  { s with
    db := db
    committed :=
      if err = none ∧ alreadyProcessed = false then s.committed ++ [event.tradeID]
      else s.committed }

def cleanupPublished (retentionDays : Int) (input : OutboxInput) : OutboxSystem :=
  match input.fault with
  | some _ => s
  | none =>
    let cutoffTime := od.addDays input.now (-retentionDays)
    { s with
      db := { s.db with outbox := cleanPublished s.db.outbox cutoffTime }
      cleaned := s.cleaned ++
        (s.db.outbox.filter fun row => row.expired cutoffTime).map OutboxEntry.eventID }

def step : OutboxAction → Option OutboxSystem
  | .deliver event input => some (s.deliver pp event input)
  | .dispatchBatch => some { s with batches := s.batches ++ [.fetch] }
  | .advance k input =>
    match s.batches[k]? with
    | none => none
    | some batch =>
      match batch.step od s.db.outbox input with
      | none => none
      | some (rows, batch') =>
        some { s with db := { s.db with outbox := rows }, batches := s.batches.set k batch' }
  | .cleanupPublished retentionDays input => some (s.cleanupPublished od retentionDays input)

end OutboxSystem

end CexHertz
