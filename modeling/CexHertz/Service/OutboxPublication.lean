import CexHertz.Service.OutboxDispatcher
import Mathlib.Data.List.AList

/-!
# Publishing through the Kafka writers

`publishToKafka` with the writers of `dal/kafka/init.go`. They are asynchronous: a message is queued
and the call returns at once. The dispatcher takes the return for the answer of the broker. What is
marked has been accepted if the dispatcher knows the types of the rows and marks a batch only when
the broker has taken all of it.
-/

namespace CexHertz

open List

/-! ## The writers -/

structure KafkaWriter where
  topic : String
  async : Bool
  deriving DecidableEq

structure KafkaMessage where
  topic : String
  key : String
  value : String
  headers : List (String × String)
  deriving DecidableEq

/-- The cache of writers and the messages that were handed to them: still in the queue of a writer,
accepted by the broker, or refused when they were last handed over. -/
structure Kafka where
  writers : String → Option KafkaWriter
  queue : List KafkaMessage
  accepted : List KafkaMessage
  refused : List KafkaMessage

def newKafka (accepted : List KafkaMessage) : Kafka := ⟨fun _ => none, [], accepted, []⟩

/-- `GetWriter`; without brokers in the configuration the process panics. -/
def getWriter (writers : String → Option KafkaWriter) (topic : String) :
    KafkaWriter × (String → Option KafkaWriter) :=
  match writers topic with
  | some writer => (writer, writers)
  | none =>
    let writer : KafkaWriter := { topic := topic, async := true }
    (writer, Function.update writers topic (some writer))

/-- `Writer.WriteMessages`: a synchronous writer waits for the outcome, an asynchronous one does
not. -/
def Kafka.writeMessages (kafka : Kafka) (writer : KafkaWriter) (msg : KafkaMessage)
    (outcome : Option String) : Kafka × Option String :=
  let refused := kafka.refused.filter fun m => m.key ≠ msg.key
  if writer.async then ({ kafka with queue := kafka.queue ++ [msg], refused := refused }, none)
  else
    match outcome with
    | none => ({ kafka with accepted := kafka.accepted ++ [msg], refused := refused }, none)
    | some err => ({ kafka with refused := refused ++ [msg] }, some err)

/-! ## Topics -/

/-- `strings.ToLower` and `strings.EqualFold` fold Unicode cases; the results hold for any two
functions in their place. -/
structure KafkaConf where
  topics : AList fun _ : String => String
  toLower : String → String
  equalFold : String → String → Bool

def defaultTopic (conf : KafkaConf) (order : List String) : String :=
  match conf.topics.lookup "trade" with
  | some topic => topic
  | none => (order.head?.bind conf.topics.lookup).getD "trade"

def resolveTopic (conf : KafkaConf) (order : List String) (entry : OutboxEntry) : String :=
  let eventType := conf.toLower entry.eventType
  let byEventType :=
    if eventType = "tradeexecuted" ∨ eventType = "trade_executed" then conf.topics.lookup "trade"
    else if eventType = "positionupdated" ∨ eventType = "position_updated" then
      conf.topics.lookup "order"
    else none
  let aggregateType := conf.toLower entry.aggregateType
  let byAggregateType :=
    if entry.aggregateType = "" then none
    else
      (order.find? fun key => conf.equalFold key aggregateType ||
        conf.equalFold (conf.toLower key) aggregateType).bind conf.topics.lookup
  (byEventType <|> byAggregateType).getD (defaultTopic conf order)

/-! ## The dispatcher -/

/-- A dispatcher with its configuration; `encode` is the payload decoded and encoded again, any
function of the text here. -/
structure Publisher where
  od : OutboxDispatcher
  conf : KafkaConf
  encode : String → String

def kafkaMessage (pub : Publisher) (writer : KafkaWriter) (topic : String) (entry : OutboxEntry) :
    KafkaMessage where
  topic := if writer.topic = "" then topic else writer.topic
  key := entry.eventID
  value := pub.encode entry.payload
  headers := [("event_id", entry.eventID), ("aggregate_id", entry.aggregateID),
    ("aggregate_type", entry.aggregateType)]

def publishToKafka (pub : Publisher) (kafka : Kafka) (order : List String) (entry : OutboxEntry)
    (outcome : Option String) : Kafka × Option String :=
  let topic := resolveTopic pub.conf order entry
  let (writer, writers) := getWriter kafka.writers topic
  let (kafka, err) := { kafka with writers := writers }.writeMessages writer
    (kafkaMessage pub writer topic entry) outcome
  (kafka, err.map fun err => "write message to kafka topic " ++ topic ++ ": " ++ err)

def Routed (eventType : String) : Prop :=
  eventType = "TradeExecuted" ∨ eventType = "PositionUpdated"

instance (eventType : String) : Decidable (Routed eventType) :=
  inferInstanceAs (Decidable (_ ∨ _))

def handOver (pub : Publisher) (kafka : Kafka) (order : List String) (outcome : Option String) :
    Batch → Kafka × Option String
  | .publish (entry :: _) _ =>
    if pub.od.unmarshalError entry.payload = none ∧ Routed entry.eventType then
      publishToKafka pub kafka order entry outcome
    else (kafka, none)
  | _ => (kafka, none)

structure PublishSystem where
  rows : List OutboxEntry
  kafka : Kafka
  batches : List Batch

inductive PublishAction where
  /-- A transaction commits a new row. -/
  | insert (entry : OutboxEntry)
  | dispatchBatch
  | advance (batch : Nat) (input : OutboxInput) (order : List String)
  | crash (batch : Nat)
  /-- A queued message is accepted, or it is refused or lost. -/
  | broker (message : Nat) (accepts : Bool)
  | cleanupPublished (retentionDays : Int) (now : Int)

namespace PublishSystem

variable (pub : Publisher) (s : PublishSystem)

def step : PublishAction → Option PublishSystem
  | .insert entry =>
    if entry.published = false ∧ ∀ row ∈ s.rows, row.eventID ≠ entry.eventID then
      some { s with rows := s.rows ++ [entry] }
    else none
  | .dispatchBatch => some { s with batches := s.batches ++ [.fetch] }
  | .advance k input order =>
    match s.batches[k]? with
    | none => none
    | some batch =>
      let (kafka, answer) := handOver pub s.kafka order input.kafka batch
      match batch.step pub.od s.rows { input with kafka := answer } with
      | none => none
      | some (rows, batch') =>
        some { rows := rows, kafka := kafka, batches := s.batches.set k batch' }
  | .crash k => some { s with batches := s.batches.set k .returned }
  | .broker i accepts =>
    match s.kafka.queue[i]? with
    | none => none
    | some msg =>
      let kafka := { s.kafka with queue := s.kafka.queue.eraseIdx i }
      some { s with kafka :=
        if accepts then { kafka with accepted := kafka.accepted ++ [msg] }
        else { kafka with refused := kafka.refused ++ [msg] } }
  | .cleanupPublished retentionDays now =>
    some { s with rows := cleanPublished s.rows (pub.od.addDays now (-retentionDays)) }

/-- The dispatcher sends no row whose type it does not know, and a batch is marked only when none of
its messages is queued any more or was refused. -/
def Acknowledged (batch : Batch) : Prop :=
  match batch with
  | .publish (entry :: _) _ =>
    pub.od.unmarshalError entry.payload ≠ none ∨ Routed entry.eventType
  | .mark successfulEventIDs => ∀ id ∈ successfulEventIDs,
      (∀ msg ∈ s.kafka.queue, msg.key ≠ id) ∧ ∀ msg ∈ s.kafka.refused, msg.key ≠ id
  | _ => True

def Allowed : PublishAction → Prop
  | .advance k _ _ => ∀ batch ∈ s.batches[k]?, s.Acknowledged pub batch
  | _ => True

end PublishSystem

/-! ## Messages are not forgotten -/

def Kafka.Knows (kafka : Kafka) (id : String) : Prop :=
  (∃ msg ∈ kafka.queue, msg.key = id) ∨ (∃ msg ∈ kafka.accepted, msg.key = id) ∨
    ∃ msg ∈ kafka.refused, msg.key = id

def Kafka.Accepted (kafka : Kafka) (id : String) : Prop := ∃ msg ∈ kafka.accepted, msg.key = id

theorem getWriter_async {writers : String → Option KafkaWriter}
    (h : ∀ topic writer, writers topic = some writer → writer.async = true) (topic : String) :
    (getWriter writers topic).1.async = true ∧
      ∀ topic' writer, (getWriter writers topic).2 topic' = some writer → writer.async = true := by
  unfold getWriter
  split
  next writer hwriter => exact ⟨h topic writer hwriter, h⟩
  next =>
    refine ⟨rfl, fun topic' writer hwriter => ?_⟩
    dsimp only at hwriter
    by_cases htopic : topic' = topic
    · rw [htopic, Function.update_self] at hwriter
      cases hwriter
      rfl
    · rw [Function.update_of_ne htopic] at hwriter
      exact h topic' writer hwriter

def Kafka.queued (kafka : Kafka) (writers : String → Option KafkaWriter) (msg : KafkaMessage) :
    Kafka where
  writers := writers
  queue := kafka.queue ++ [msg]
  accepted := kafka.accepted
  refused := kafka.refused.filter fun m => m.key ≠ msg.key

theorem publishToKafka_async {kafka : Kafka}
    (h : ∀ topic writer, kafka.writers topic = some writer → writer.async = true)
    (pub : Publisher) (order : List String) (entry : OutboxEntry) (outcome : Option String) :
    ∃ writers msg, (∀ topic writer, writers topic = some writer → writer.async = true) ∧
      msg.key = entry.eventID ∧
      publishToKafka pub kafka order entry outcome = (kafka.queued writers msg, none) := by
  obtain ⟨hasync, hwriters⟩ := getWriter_async h (resolveTopic pub.conf order entry)
  refine ⟨(getWriter kafka.writers (resolveTopic pub.conf order entry)).2, kafkaMessage pub
    (getWriter kafka.writers (resolveTopic pub.conf order entry)).1
    (resolveTopic pub.conf order entry) entry, hwriters, rfl, ?_⟩
  unfold publishToKafka Kafka.writeMessages
  dsimp only
  rw [if_pos hasync]
  rfl

-- Handing over a message forgets only refusals of the same row.
theorem Kafka.Knows.queued {kafka : Kafka} {id : String} (h : kafka.Knows id) (msg : KafkaMessage)
    (writers : String → Option KafkaWriter) : (kafka.queued writers msg).Knows id := by
  rcases h with ⟨m, hm, hkey⟩ | hacc | ⟨m, hm, hkey⟩
  · exact .inl ⟨m, mem_append_left _ hm, hkey⟩
  · exact .inr (.inl hacc)
  · by_cases hsame : id = msg.key
    · exact .inl ⟨msg, mem_append_right _ mem_cons_self, hsame.symm⟩
    · exact .inr (.inr ⟨m, mem_filter.mpr ⟨hm, by simpa [hkey] using hsame⟩, hkey⟩)

theorem handOver_cases {kafka : Kafka}
    (h : ∀ topic writer, kafka.writers topic = some writer → writer.async = true)
    (pub : Publisher) (order : List String) (outcome : Option String) (batch : Batch) :
    (handOver pub kafka order outcome batch = (kafka, none) ∧
      ∀ entry entries ids, batch = .publish (entry :: entries) ids →
        pub.od.unmarshalError entry.payload ≠ none ∨ ¬ Routed entry.eventType) ∨
    ∃ entry entries ids writers msg, batch = .publish (entry :: entries) ids ∧
      (∀ topic writer, writers topic = some writer → writer.async = true) ∧
      msg.key = entry.eventID ∧
      handOver pub kafka order outcome batch = (kafka.queued writers msg, none) := by
  unfold handOver
  split
  next entry entries ids =>
    split
    next =>
      obtain ⟨writers, msg, hwriters, hkey, heq⟩ := publishToKafka_async h pub order entry outcome
      exact .inr ⟨entry, entries, ids, writers, msg, rfl, hwriters, hkey, heq⟩
    next hnot =>
      refine .inl ⟨rfl, fun entry' entries' ids' hbatch => ?_⟩
      cases hbatch
      exact Decidable.not_and_iff_not_or_not.mp hnot
  next hother => exact .inl ⟨rfl, fun entry entries ids hbatch => absurd hbatch (hother _ _ _)⟩

/-! ## What a batch does -/

def Batch.successful : Batch → List String
  | .fetch | .returned => []
  | .publish _ ids | .recordError _ _ _ ids | .mark ids => ids

theorem Batch.step_published {od : OutboxDispatcher} {batch batch' : Batch}
    {rows rows' : List OutboxEntry} {input : OutboxInput}
    (h : batch.step od rows input = some (rows', batch')) {row : OutboxEntry} (hrow : row ∈ rows')
    (hpublished : row.published = true) :
    (∃ ids, batch = .mark ids ∧ row.eventID ∈ ids) ∨
      ∃ old ∈ rows, old.eventID = row.eventID ∧ old.published = true := by
  cases Batch.step_move h with
  | recorded eventID errMsg entries ids =>
    obtain ⟨old, hold, rfl⟩ := mem_map.mp hrow
    refine .inr ⟨old, hold, ?_, ?_⟩
    · split <;> rfl
    · split at hpublished <;> exact hpublished
  | marked ids =>
    obtain ⟨old, hold, rfl⟩ := mem_map.mp hrow
    by_cases hid : old.eventID ∈ ids
    · exact .inl ⟨ids, rfl, by simp [hid]⟩
    · exact .inr ⟨old, hold, by simp_all⟩
  | _ => exact .inr ⟨row, hrow, rfl, hpublished⟩

theorem Batch.step_successful {od : OutboxDispatcher} {batch batch' : Batch}
    {rows rows' : List OutboxEntry} {input : OutboxInput}
    (h : batch.step od rows input = some (rows', batch')) {id : String}
    (hid : id ∈ batch'.successful) :
    id ∈ batch.successful ∨ ∃ entry entries ids, batch = .publish (entry :: entries) ids ∧
      entry.eventID = id ∧ publishEntry od entry input.kafka = none := by
  cases Batch.step_move h with
  | allTried | failed => exact .inl hid
  | @sent entry entries ids hsent =>
    rcases mem_append.mp hid with hid | hid
    · exact .inl hid
    · exact .inr ⟨entry, entries, ids, rfl, (mem_singleton.mp hid).symm, hsent⟩
  | unrecorded | recorded => exact .inl hid
  | _ => cases hid

/-! ## Runs -/

structure PublishOk (s : PublishSystem) : Prop where
  async : ∀ topic writer, s.kafka.writers topic = some writer → writer.async = true
  published : ∀ row ∈ s.rows, row.published = true → s.kafka.Accepted row.eventID
  handed : ∀ batch ∈ s.batches, ∀ id ∈ batch.successful, s.kafka.Knows id

namespace PublishOk

variable {pub : Publisher} {s s' : PublishSystem}

theorem new {rows : List OutboxEntry} {accepted : List KafkaMessage}
    (h : ∀ row ∈ rows, row.published = true → ∃ msg ∈ accepted, msg.key = row.eventID) :
    PublishOk ⟨rows, newKafka accepted, []⟩ where
  async := fun _ _ hwriter => by cases hwriter
  published := h
  handed := fun _ hbatch => by cases hbatch

theorem advance (h : PublishOk s) {k : Nat} {batch batch' : Batch} (hk : s.batches[k]? = some batch)
    {rows : List OutboxEntry} {input : OutboxInput} {order : List String}
    (hallowed : s.Acknowledged pub batch)
    (hstep : batch.step pub.od s.rows
      { input with kafka := (handOver pub s.kafka order input.kafka batch).2 } =
        some (rows, batch')) :
    PublishOk
      { rows := rows
        kafka := (handOver pub s.kafka order input.kafka batch).1
        batches := s.batches.set k batch' } := by
  have hmem := mem_of_getElem? hk
  -- a row that the step publishes has been accepted before
  have hpublished : ∀ row ∈ rows, row.published = true → s.kafka.Accepted row.eventID := by
    intro row hrow hpub
    rcases Batch.step_published hstep hrow hpub with ⟨ids, rfl, hid⟩ | ⟨old, hold, hid, hpub⟩
    · obtain ⟨hqueue, hrefused⟩ := hallowed _ hid
      rcases h.handed _ hmem _ hid with ⟨msg, hmsg, hkey⟩ | haccepted | ⟨msg, hmsg, hkey⟩
      · exact absurd hkey (hqueue msg hmsg)
      · exact haccepted
      · exact absurd hkey (hrefused msg hmsg)
    · rw [← hid]
      exact h.published old hold hpub
  rcases handOver_cases h.async pub order input.kafka batch with
    ⟨heq, hnot⟩ | ⟨entry, entries, ids, writers, msg, rfl, hwriters, hkey, heq⟩
  · rw [heq] at hstep ⊢
    refine ⟨h.async, hpublished, fun b hb id hid => ?_⟩
    rcases mem_or_eq_of_mem_set hb with hb | rfl
    · exact h.handed b hb id hid
    · rcases Batch.step_successful hstep hid with hid | ⟨entry, entries, ids, rfl, -, hok⟩
      · exact h.handed batch hmem id hid
      · -- nothing was handed over, so the row could not be decoded and is not in the batch
        unfold publishEntry at hok
        split at hok
        · cases hok
        next hnone =>
          rcases hnot entry entries ids rfl with herr | hroute
          · exact absurd hnone herr
          · rcases hallowed with herr | hrouted
            · exact absurd hnone herr
            · exact absurd hrouted hroute
  · rw [heq] at hstep ⊢
    refine ⟨hwriters, hpublished, fun b hb id hid => ?_⟩
    rcases mem_or_eq_of_mem_set hb with hb | rfl
    · exact (h.handed b hb id hid).queued msg writers
    · rcases Batch.step_successful hstep hid with hid | ⟨entry', _, _, hbatch, hid, -⟩
      · exact (h.handed _ hmem id hid).queued msg writers
      · cases hbatch
        exact .inl ⟨msg, mem_append_right _ mem_cons_self, hkey.trans hid⟩

theorem broker (h : PublishOk s) {i : Nat} {msg : KafkaMessage}
    (hi : s.kafka.queue[i]? = some msg) {accepted refused : List KafkaMessage}
    (haccepted : ∀ m ∈ s.kafka.accepted, m ∈ accepted)
    (hrefused : ∀ m ∈ s.kafka.refused, m ∈ refused) (hmsg : msg ∈ accepted ∨ msg ∈ refused) :
    PublishOk
      { s with
        kafka :=
          { s.kafka with
            queue := s.kafka.queue.eraseIdx i, accepted := accepted, refused := refused } } := by
  refine ⟨h.async, fun row hrow hpub => ?_, fun batch hbatch id hid => ?_⟩
  · obtain ⟨m, hm, hkey⟩ := h.published row hrow hpub
    exact ⟨m, haccepted m hm, hkey⟩
  · rcases h.handed batch hbatch id hid with ⟨m, hm, hkey⟩ | ⟨m, hm, hkey⟩ | ⟨m, hm, hkey⟩
    · obtain ⟨j, hj⟩ := mem_iff_getElem?.mp hm
      by_cases hji : j = i
      · rw [hji, hi] at hj
        cases hj
        exact .inr (hmsg.imp (fun hm => ⟨msg, hm, hkey⟩) fun hm => ⟨msg, hm, hkey⟩)
      · exact .inl ⟨m, mem_eraseIdx_iff_getElem?.mpr ⟨j, hji, hj⟩, hkey⟩
    · exact .inr (.inl ⟨m, haccepted m hm, hkey⟩)
    · exact .inr (.inr ⟨m, hrefused m hm, hkey⟩)

theorem step (h : PublishOk s) {action : PublishAction} (hallowed : s.Allowed pub action)
    (hstep : s.step pub action = some s') : PublishOk s' := by
  cases action with
  | insert entry =>
    dsimp only [PublishSystem.step] at hstep
    split at hstep
    next hnew =>
      cases hstep
      refine ⟨h.async, ?_, h.handed⟩
      show ∀ row ∈ s.rows ++ [entry], _
      rw [forall_mem_append, forall_mem_singleton]
      refine ⟨h.published, fun hpub => ?_⟩
      rw [hnew.1] at hpub
      cases hpub
    next => cases hstep
  | dispatchBatch =>
    cases hstep
    refine ⟨h.async, h.published, ?_⟩
    show ∀ batch ∈ s.batches ++ [.fetch], _
    rw [forall_mem_append, forall_mem_singleton]
    exact ⟨h.handed, fun _ hid => by cases hid⟩
  | advance k input order =>
    dsimp only [PublishSystem.step] at hstep
    split at hstep
    next => cases hstep
    next batch hk =>
      split at hstep
      next => cases hstep
      next rows batch' hbatch =>
        cases hstep
        exact h.advance hk (hallowed batch hk) hbatch
  | crash k =>
    cases hstep
    refine ⟨h.async, h.published, fun batch hbatch id hid => ?_⟩
    rcases mem_or_eq_of_mem_set hbatch with hbatch | rfl
    · exact h.handed batch hbatch id hid
    · cases hid
  | broker i accepts =>
    dsimp only [PublishSystem.step] at hstep
    split at hstep
    next => cases hstep
    next msg hi =>
      cases hstep
      cases accepts with
      | true =>
        exact h.broker hi (fun m hm => mem_append_left _ hm) (fun m hm => hm)
          (.inl (mem_append_right _ mem_cons_self))
      | false =>
        exact h.broker hi (fun m hm => hm) (fun m hm => mem_append_left _ hm)
          (.inr (mem_append_right _ mem_cons_self))
  | cleanupPublished retentionDays now =>
    cases hstep
    exact ⟨h.async, fun row hrow => h.published row (mem_of_mem_filter hrow), h.handed⟩

end PublishOk

/-- From any outbox whose published rows the broker has accepted: in every run in which no row of an
unknown type is sent and a batch is marked only when the broker has taken its messages, every row
that is marked as published has been accepted. -/
theorem published_entries_accepted (pub : Publisher) {rows : List OutboxEntry}
    {accepted : List KafkaMessage}
    (hstart : ∀ row ∈ rows, row.published = true → ∃ msg ∈ accepted, msg.key = row.eventID)
    {s : PublishSystem}
    (hrun : Run.Reaches (PublishSystem.step pub) (PublishSystem.Allowed pub)
      ⟨rows, newKafka accepted, []⟩ s) :
    ∀ row ∈ s.rows, row.published = true → ∃ msg ∈ s.kafka.accepted, msg.key = row.eventID := by
  have hok : PublishOk s := hrun.invariant (PublishOk.new hstart) fun _ _ _ hs hallowed hstep =>
    hs.step hallowed hstep
  exact hok.published

/-! ## A message that is refused -/

instance PublishSystem.decidableAcknowledged (pub : Publisher) (s : PublishSystem)
    (batch : Batch) : Decidable (s.Acknowledged pub batch) :=
  match batch with
  | .publish (_ :: _) _ => inferInstanceAs (Decidable (_ ∨ _))
  | .mark _ => inferInstanceAs (Decidable (∀ _ ∈ _, _))
  | .fetch | .publish [] _ | .recordError _ _ _ _ | .returned => isTrue trivial

instance PublishSystem.decidableAllowed (pub : Publisher) (s : PublishSystem)
    (action : PublishAction) : Decidable (s.Allowed pub action) :=
  match action with
  | .advance _ _ _ => inferInstanceAs (Decidable (∀ _ ∈ _, _))
  | .insert _ | .dispatchBatch | .crash _ | .broker _ _ | .cleanupPublished _ _ => isTrue trivial

def asciiLower (text : String) : String := String.ofList (text.toList.map Char.toLower)

/-- Ten rows at a time, all payloads decodable, the topics of the sample configuration. -/
def samplePublisher : Publisher where
  od := ⟨10, fun _ => none, fun now days => now + 86400 * days⟩
  conf :=
    ⟨((∅ : AList fun _ : String => String).insert "order" "order").insert "trade" "trade",
      asciiLower, fun a b => asciiLower a = asciiLower b⟩
  encode := id

def tradeRow : OutboxEntry where
  eventID := "t1"
  eventType := "TradeExecuted"
  aggregateID := "BTC"
  aggregateType := "trade"
  payload := "\x7b\x7d"
  published := false
  publishedAt := none
  createdAt := 0
  updatedAt := 0
  retryCount := 0
  lastError := ""

def tradeToPublish : PublishSystem := ⟨[tradeRow], newKafka [], []⟩

def batchStep : PublishAction := .advance 0 ⟨0, 0, none, none, 0⟩ []

/-- The row is marked while its message is queued; the broker refuses it, and nobody sends it
again. -/
theorem published_but_refused :
    ∃ s, Run.Reaches (PublishSystem.step samplePublisher) (fun _ _ => True) tradeToPublish s ∧
      (∃ row ∈ s.rows, row.eventID = "t1" ∧ row.published = true) ∧ s.kafka.queue = [] ∧
      s.kafka.accepted = [] := by
  exact Run.exists_reaches
    [.dispatchBatch, batchStep, batchStep, batchStep, batchStep, .broker 0 false]
    (by decide +kernel) fun _ _ h => h

/-- The broker refuses the message of a batch that crashes, and accepts it when the next batch has
sent it again. -/
theorem resent_message_accepted :
    ∃ s, Run.Reaches (PublishSystem.step samplePublisher) (PublishSystem.Allowed samplePublisher)
        tradeToPublish s ∧
      (∃ row ∈ s.rows, row.eventID = "t1" ∧ row.published = true) ∧
      ∀ row ∈ s.rows, row.published = true → ∃ msg ∈ s.kafka.accepted, msg.key = row.eventID := by
  refine Run.exists_reaches
    [.dispatchBatch, batchStep, batchStep, .broker 0 false, .crash 0, .dispatchBatch,
      .advance 1 ⟨0, 0, none, none, 0⟩ [], .advance 1 ⟨0, 0, none, none, 0⟩ [], .broker 0 true,
      .advance 1 ⟨0, 0, none, none, 0⟩ [], .advance 1 ⟨0, 0, none, none, 0⟩ []]
    (P := fun s => ∃ row ∈ s.rows, row.eventID = "t1" ∧ row.published = true) (by decide +kernel)
    fun _ hreach htest => ?_
  have hstart : ∀ row ∈ [tradeRow], row.published = true →
      ∃ msg ∈ ([] : List KafkaMessage), msg.key = row.eventID := by decide
  exact ⟨htest, published_entries_accepted samplePublisher hstart hreach⟩

end CexHertz
