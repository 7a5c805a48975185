import CexHertz.Lib.HeadOfLine
import CexHertz.Service.OutboxPublication

/-!
# Retrying the outbox

`dispatchBatch` called again and again, while the database works and the producer answers an entry
the same every time. Every batch selects the oldest unpublished rows again; `retry_count` is never
read. So once a whole batch of rows is rejected, the rows after them are not tried any more.
-/

namespace CexHertz

open List OutboxEntry HeadOfLine OutboxDispatcher Function

structure BatchClock where
  errorAt : String → Int
  publishedAt : Int
  updatedAt : Int
  ties : OutboxEntry → Nat

/-- The loop of `dispatchBatch`: the table, the ids it will mark, and the ids of the messages that
were handed to the producer. -/
structure Publishing where
  rows : List OutboxEntry
  successfulEventIDs : List String
  sent : List String

namespace OutboxDispatcher

variable (od : OutboxDispatcher) (answer : String → Option String)

def sends (entry : OutboxEntry) : Bool :=
  od.unmarshalError entry.payload = none ∧ Routed entry.eventType

/-- The error of publishing an entry to a producer that answers by the event id. -/
def publishError (entry : OutboxEntry) : Option String :=
  publishEntry od entry (answer entry.eventID)

def tryEntry (clock : BatchClock) (p : Publishing) (entry : OutboxEntry) : Publishing :=
  let sent := if od.sends entry then p.sent ++ [entry.eventID] else p.sent
  match od.publishError answer entry with
  | some err =>
    { p with
      rows := recordPublishError p.rows entry.eventID err (clock.errorAt entry.eventID)
      sent := sent }
  | none => { p with successfulEventIDs := p.successfulEventIDs ++ [entry.eventID], sent := sent }

/-- `dispatchBatch` without errors of the database: the table afterwards and what was sent. -/
def dispatchBatch (clock : BatchClock) (rows : List OutboxEntry) : List OutboxEntry × List String :=
  match getUnpublished clock.ties rows od.batchSize with
  | [] => (rows, [])
  | entry :: entries =>
    let p := (entry :: entries).foldl (od.tryEntry answer clock) ⟨rows, [], []⟩
    if p.successfulEventIDs = [] then (p.rows, p.sent)
    else
      (markPublishedBatch p.rows p.successfulEventIDs clock.publishedAt clock.updatedAt, p.sent)

def dispatchBatches (clocks : List BatchClock) (rows : List OutboxEntry) : List OutboxEntry :=
  clocks.foldl (fun rows clock => (od.dispatchBatch answer clock rows).1) rows

def sentBy : List BatchClock → List OutboxEntry → List String
  | [], _ => []
  | clock :: clocks, rows =>
    (od.dispatchBatch answer clock rows).2 ++
      sentBy clocks (od.dispatchBatch answer clock rows).1

def SendsUnpublished : List BatchClock → List OutboxEntry → Prop
  | [], _ => True
  | clock :: clocks, rows =>
    (∀ id ∈ (od.dispatchBatch answer clock rows).2, ∀ row ∈ rows, row.eventID = id →
      row.published = false) ∧
    SendsUnpublished clocks (od.dispatchBatch answer clock rows).1

/-- What the batches make of a table: the rows that the producer accepts are published and sent
once, the others have their error recorded, and nothing is sent that was published. -/
structure Unblocked (clocks : List BatchClock) (rows : List OutboxEntry) : Prop where
  accepted : ∀ entry ∈ rows, entry.published = false → answer entry.eventID = none →
    (∃ row ∈ od.dispatchBatches answer clocks rows,
      row.eventID = entry.eventID ∧ row.published = true) ∧
    (od.sentBy answer clocks rows).count entry.eventID = 1
  rejected : ∀ entry ∈ rows, entry.published = false → answer entry.eventID ≠ none →
    ∃ row ∈ od.dispatchBatches answer clocks rows, row.eventID = entry.eventID ∧
      row.published = false ∧ od.publishError answer entry = some row.lastError ∧
      entry.retryCount < row.retryCount
  unpublished : od.SendsUnpublished answer clocks rows

end OutboxDispatcher

/-! ## What a batch does to a row -/

namespace OutboxEntry

def core (entry : OutboxEntry) : OutboxEntry :=
  { entry with
    published := false, publishedAt := none, updatedAt := 0, retryCount := 0, lastError := "" }

def retried (od : OutboxDispatcher) (answer : String → Option String) (clock : BatchClock)
    (row : OutboxEntry) : OutboxEntry :=
  match od.publishError answer row with
  | some err =>
    { row with
      retryCount := row.retryCount + 1, lastError := err, updatedAt := clock.errorAt row.eventID }
  | none =>
    { row with
      published := true, publishedAt := some clock.publishedAt, updatedAt := clock.updatedAt }

def afterBatch (od : OutboxDispatcher) (answer : String → Option String) (clock : BatchClock)
    (ids : List String) (row : OutboxEntry) : OutboxEntry :=
  if row.eventID ∈ ids then row.retried od answer clock else row

variable {od : OutboxDispatcher} {answer : String → Option String} {clock : BatchClock}

theorem core_retried (clock : BatchClock) (row : OutboxEntry) :
    (row.retried od answer clock).core = row.core := by
  unfold retried
  split <;> rfl

theorem core_afterBatch (ids : List String) (row : OutboxEntry) :
    (row.afterBatch od answer clock ids).core = row.core := by
  unfold afterBatch
  split
  next => exact core_retried clock row
  next => rfl

theorem eventID_of_core {row row' : OutboxEntry} (h : row.core = row'.core) :
    row.eventID = row'.eventID := by
  show row.core.eventID = row'.core.eventID
  rw [h]

theorem createdAt_of_core {row row' : OutboxEntry} (h : row.core = row'.core) :
    row.createdAt = row'.createdAt := by
  show row.core.createdAt = row'.core.createdAt
  rw [h]

end OutboxEntry

namespace OutboxDispatcher

variable {od : OutboxDispatcher} {answer : String → Option String} {clock : BatchClock}
  {rows : List OutboxEntry}

def recorded (clock : BatchClock) (error : String → Option String) (ids : List String)
    (row : OutboxEntry) : OutboxEntry :=
  if row.eventID ∈ ids then
    match error row.eventID with
    | some err =>
      { row with
        retryCount := row.retryCount + 1
        lastError := err
        updatedAt := clock.errorAt row.eventID }
    | none => row
  else row

section

variable {error : String → Option String} {id err : String} {ids : List String}

theorem map_recorded_nil (rows : List OutboxEntry) : rows.map (recorded clock error []) = rows := by
  refine (map_congr_left ?_).trans (map_id rows)
  exact fun row _ => if_neg not_mem_nil

theorem recorded_cons_of_ne {row : OutboxEntry} (h : row.eventID ≠ id) :
    recorded clock error (id :: ids) row = recorded clock error ids row := by
  unfold recorded
  simp only [mem_cons, h, false_or]

theorem recordPublishError_recorded (hid : id ∉ ids) (herror : error id = some err)
    (rows : List OutboxEntry) :
    (recordPublishError rows id err (clock.errorAt id)).map (recorded clock error ids) =
      rows.map (recorded clock error (id :: ids)) := by
  unfold recordPublishError
  rw [map_map]
  apply map_congr_left
  intro row _
  dsimp only [comp]
  by_cases hrow : row.eventID = id
  · unfold recorded
    rw [if_pos hrow, if_neg (by rw [hrow]; exact hid),
      if_pos (by rw [hrow]; exact mem_cons_self), hrow, herror]
  · rw [if_neg hrow, recorded_cons_of_ne hrow]

theorem recorded_cons_of_none (hid : id ∉ ids) (herror : error id = none)
    (rows : List OutboxEntry) :
    rows.map (recorded clock error ids) = rows.map (recorded clock error (id :: ids)) := by
  apply map_congr_left
  intro row _
  by_cases hrow : row.eventID = id
  · unfold recorded
    rw [if_neg (by rw [hrow]; exact hid), if_pos (by rw [hrow]; exact mem_cons_self), hrow, herror]
  · rw [recorded_cons_of_ne hrow]

end

theorem sent_cons (entry : OutboxEntry) (entries : List OutboxEntry) (sent : List String) :
    (if od.sends entry then sent ++ [entry.eventID] else sent) ++
        (entries.filter od.sends).map eventID =
      sent ++ ((entry :: entries).filter od.sends).map eventID := by
  rw [filter_cons]
  split
  next => rw [append_assoc]; rfl
  next => rfl

theorem foldl_tryEntry {error : String → Option String} {entries : List OutboxEntry}
    (herror : ∀ entry ∈ entries, od.publishError answer entry = error entry.eventID)
    (hids : (entries.map eventID).Nodup) (p : Publishing) :
    entries.foldl (od.tryEntry answer clock) p =
      { rows := p.rows.map (recorded clock error (entries.map eventID))
        successfulEventIDs := p.successfulEventIDs ++
          (entries.map eventID).filter fun id => (error id).isNone
        sent := p.sent ++ (entries.filter od.sends).map eventID } := by
  induction entries generalizing p with
  | nil =>
    simp only [foldl_nil, map_nil, map_recorded_nil, filter_nil, append_nil]
  | cons entry entries ih =>
    rw [map_cons, nodup_cons] at hids
    rw [foldl_cons, ih (fun e he => herror e (.tail _ he)) hids.2, map_cons, ← sent_cons]
    have hentry := herror entry mem_cons_self
    unfold tryEntry
    cases herr : error entry.eventID with
    | some err =>
      rw [hentry, herr, filter_cons_of_neg (by rw [herr]; exact Bool.false_ne_true)]
      rw [recordPublishError_recorded hids.1 herr]
    | none =>
      rw [hentry, herr, filter_cons_of_pos (by rw [herr]; rfl)]
      rw [recorded_cons_of_none hids.1 herr, append_assoc]
      rfl

theorem exists_byEventID {β : Type} [Inhabited β] (f : OutboxEntry → β)
    (hids : (rows.map eventID).Nodup) :
    ∃ g : String → β, ∀ row ∈ rows, f row = g row.eventID := by
  induction rows with
  | nil => exact ⟨fun _ => default, nofun⟩
  | cons row rows ih =>
    rw [map_cons, nodup_cons] at hids
    obtain ⟨g, hg⟩ := ih hids.2
    refine ⟨update g row.eventID (f row), ?_⟩
    intro row' hrow'
    rcases mem_cons.mp hrow' with rfl | hrow'
    · rw [update_self]
    · have hne : row'.eventID ≠ row.eventID := fun h =>
        hids.1 (h ▸ mem_map.mpr ⟨row', hrow', rfl⟩)
      rw [update_of_ne hne]
      exact hg row' hrow'

def unpublished (ties : OutboxEntry → Nat) (rows : List OutboxEntry) : List OutboxEntry :=
  getUnpublished ties rows (-1)

def window (od : OutboxDispatcher) (ties : OutboxEntry → Nat) (rows : List OutboxEntry) :
    List String :=
  (getUnpublished ties rows od.batchSize).map eventID

variable {ties : OutboxEntry → Nat}

theorem unpublished_perm (ties : OutboxEntry → Nat) (rows : List OutboxEntry) :
    (unpublished ties rows).Perm (rows.filter fun row => !row.published) :=
  perm_insertionSort _ _

theorem unpublished_sorted (ties : OutboxEntry → Nat) (rows : List OutboxEntry) :
    (unpublished ties rows).Pairwise fun a b =>
      toLex (a.createdAt, ties a) ≤ toLex (b.createdAt, ties b) :=
  pairwise_insertionSort _ _

theorem mem_unpublished {row : OutboxEntry} :
    row ∈ unpublished ties rows ↔ row ∈ rows ∧ row.published = false := by
  rw [(unpublished_perm ties rows).mem_iff, mem_filter, Bool.not_eq_true']

theorem unpublished_nodup (hids : (rows.map eventID).Nodup) :
    ((unpublished ties rows).map eventID).Nodup :=
  ((unpublished_perm ties rows).map _).nodup_iff.mpr ((filter_sublist.map _).nodup hids)

theorem getUnpublished_eq_take {limit : Int} (h : 0 ≤ limit) (rows : List OutboxEntry) :
    getUnpublished ties rows limit = (unpublished ties rows).take limit.toNat :=
  if_neg (not_lt.mpr h)

theorem getUnpublished_sublist (ties : OutboxEntry → Nat) (rows : List OutboxEntry) (limit : Int) :
    (getUnpublished ties rows limit).Sublist (unpublished ties rows) := by
  by_cases h : 0 ≤ limit
  · rw [getUnpublished_eq_take h]
    exact take_sublist _ _
  · rw [show getUnpublished ties rows limit = unpublished ties rows from if_pos (not_le.mp h)]

theorem markPublishedBatch_nil (rows : List OutboxEntry) (publishedAt updatedAt : Int) :
    markPublishedBatch rows [] publishedAt updatedAt = rows := by
  refine (map_congr_left ?_).trans (map_id rows)
  exact fun row _ => if_neg not_mem_nil

theorem markPublishedBatch_recorded {error : String → Option String}
    (herror : ∀ row ∈ rows, od.publishError answer row = error row.eventID) (ids : List String) :
    markPublishedBatch (rows.map (recorded clock error ids))
        (ids.filter fun id => (error id).isNone) clock.publishedAt clock.updatedAt =
      rows.map (afterBatch od answer clock ids) := by
  unfold markPublishedBatch
  rw [map_map]
  apply map_congr_left
  intro row hrow
  dsimp only [comp]
  unfold recorded afterBatch retried
  rw [herror row hrow]
  by_cases hmem : row.eventID ∈ ids
  · rw [if_pos hmem, if_pos hmem]
    cases herr : error row.eventID with
    | some err =>
      rw [if_neg]
      intro hfilter
      have hnone := (mem_filter.mp hfilter).2
      rw [herr] at hnone
      cases hnone
    | none => rw [if_pos (mem_filter.mpr ⟨hmem, by rw [herr]; rfl⟩)]
  · rw [if_neg hmem, if_neg hmem, if_neg fun hfilter => hmem (mem_filter.mp hfilter).1]

theorem dispatchBatch_eq (hids : (rows.map eventID).Nodup) :
    od.dispatchBatch answer clock rows =
      (rows.map (afterBatch od answer clock (od.window clock.ties rows)),
        ((getUnpublished clock.ties rows od.batchSize).filter od.sends).map eventID) := by
  obtain ⟨error, herror⟩ := exists_byEventID (od.publishError answer) hids
  have hsub := getUnpublished_sublist clock.ties rows od.batchSize
  have hloop : (getUnpublished clock.ties rows od.batchSize).foldl
      (od.tryEntry answer clock) ⟨rows, [], []⟩ = _ :=
    foldl_tryEntry (fun entry he => herror entry (mem_unpublished.mp (hsub.subset he)).1)
      ((hsub.map _).nodup (unpublished_nodup hids)) _
  rw [← markPublishedBatch_recorded herror]
  unfold dispatchBatch window
  cases hnext : getUnpublished clock.ties rows od.batchSize with
  | nil =>
    rw [map_nil, filter_nil, markPublishedBatch_nil, map_recorded_nil]
    rfl
  | cons entry entries =>
    rw [hnext] at hloop
    dsimp only
    rw [hloop]
    dsimp only
    rw [nil_append, nil_append]
    split
    next hnone => rw [hnone, markPublishedBatch_nil]
    next => rfl

/-! ## One batch -/

section

variable (od : OutboxDispatcher) (answer : String → Option String)

def accepts (entry : OutboxEntry) : Bool := (od.publishError answer entry).isNone

/-- A rejected row that a query may put before `entry`. -/
def blocks (entry row : OutboxEntry) : Bool :=
  !od.accepts answer row && decide (row.createdAt ≤ entry.createdAt ∧ row.eventID ≠ entry.eventID)

def rejectedBefore (rows : List OutboxEntry) (entry : OutboxEntry) : Nat :=
  (rows.filter fun row => !row.published).countP (od.blocks answer entry)

/-- The order of ties that is worst for `entry`: the rows that block it come first. -/
def blocksFirst (entry row : OutboxEntry) : Nat := if od.blocks answer entry row then 0 else 1

end

theorem publishError_of_core {entry row : OutboxEntry} (h : row.core = entry.core) :
    od.publishError answer row = od.publishError answer entry := by
  show od.publishError answer row.core = od.publishError answer entry.core
  rw [h]

theorem retried_published (row : OutboxEntry) (h : row.published = false) :
    (row.retried od answer clock).published = od.accepts answer row := by
  unfold retried accepts
  split
  next herr => rw [herr]; exact h
  next herr => rw [herr]; rfl

section

variable (hids : (rows.map eventID).Nodup)

include hids

theorem dispatchBatch_ids : (od.dispatchBatch answer clock rows).1.map eventID =
      rows.map eventID := by
  rw [dispatchBatch_eq hids, map_map]
  apply map_congr_left
  intro row _
  exact eventID_of_core (core_afterBatch _ row)

theorem dispatchBatch_nodup : ((od.dispatchBatch answer clock rows).1.map eventID).Nodup := by
  rwa [dispatchBatch_ids hids]

theorem mem_dispatchBatch {row : OutboxEntry} (hrow : row ∈ rows) :
    row.afterBatch od answer clock (od.window clock.ties rows) ∈
      (od.dispatchBatch answer clock rows).1 := by
  rw [dispatchBatch_eq hids]
  exact mem_map.mpr ⟨row, hrow, rfl⟩

theorem mem_dispatchBatch_untried {row : OutboxEntry} (hrow : row ∈ rows)
    (hwindow : row.eventID ∉ od.window clock.ties rows) :
    row ∈ (od.dispatchBatch answer clock rows).1 := by
  have h : row.afterBatch od answer clock _ ∈ _ := mem_dispatchBatch hids hrow
  rwa [afterBatch, if_neg hwindow] at h

theorem mem_window {row : OutboxEntry} (hrow : row ∈ rows)
    (hwindow : row.eventID ∈ od.window ties rows) :
    row ∈ getUnpublished ties rows od.batchSize ∧ row.published = false := by
  obtain ⟨row', hrow', hid⟩ := mem_map.mp hwindow
  obtain ⟨hmem, hfalse⟩ :=
    mem_unpublished.mp ((getUnpublished_sublist ties rows od.batchSize).subset hrow')
  rw [← inj_on_of_nodup_map hids hmem hrow hid]
  exact ⟨hrow', hfalse⟩

theorem filter_dispatchBatch :
    (od.dispatchBatch answer clock rows).1.filter (fun row => !row.published) =
      ((rows.filter fun row => !row.published).filter fun row =>
        !(decide (row.eventID ∈ od.window clock.ties rows) && od.accepts answer row)).map
          (afterBatch od answer clock (od.window clock.ties rows)) := by
  rw [dispatchBatch_eq hids, filter_map, filter_filter]
  congr 1
  apply filter_congr
  intro row hrow
  dsimp only [comp]
  unfold afterBatch
  by_cases hwindow : row.eventID ∈ od.window clock.ties rows
  · have hunpublished := (mem_window hids hrow hwindow).2
    rw [if_pos hwindow, retried_published row hunpublished, hunpublished, decide_eq_true hwindow,
      Bool.true_and, Bool.not_false, Bool.and_true]
  · rw [if_neg hwindow, decide_eq_false hwindow, Bool.false_and, Bool.not_false, Bool.true_and]

theorem rejectedBefore_dispatchBatch (entry : OutboxEntry) :
    od.rejectedBefore answer (od.dispatchBatch answer clock rows).1 entry =
      od.rejectedBefore answer rows entry := by
  unfold rejectedBefore
  rw [filter_dispatchBatch hids, countP_map, countP_filter]
  apply countP_congr
  intro row _
  have hcore : (row.afterBatch od answer clock (od.window clock.ties rows)).core = row.core :=
    core_afterBatch _ row
  dsimp only [comp, blocks]
  rw [accepts, publishError_of_core hcore, createdAt_of_core hcore, eventID_of_core hcore]
  show (!od.accepts answer row && _ && _) = true ↔ _
  cases od.accepts answer row <;> simp

section

variable (hbatch : 1 ≤ od.batchSize) {entry : OutboxEntry} (hentry : entry ∈ rows)

include hbatch hentry

/-- A batch that leaves a row out publishes another one. -/
theorem batch_progress (hunpublished : entry.published = false)
    (hroom : od.rejectedBefore answer rows entry < od.batchSize)
    (hwindow : entry.eventID ∉ od.window clock.ties rows) :
    ((od.dispatchBatch answer clock rows).1.filter fun row => !row.published).length <
      (rows.filter fun row => !row.published).length := by
  have htake : getUnpublished clock.ties rows od.batchSize = _ :=
    getUnpublished_eq_take (by omega) rows
  have hnot : ∀ row ∈ (unpublished clock.ties rows).take od.batchSize.toNat,
      row.eventID ≠ entry.eventID := by
    rintro row hrow hid
    exact hwindow (mem_map.mpr ⟨row, htake ▸ hrow, hid⟩)
  have hcount : (unpublished clock.ties rows).countP (od.blocks answer entry) <
      od.batchSize.toNat := by
    rw [(unpublished_perm clock.ties rows).countP_eq]
    unfold rejectedBefore at hroom
    omega
  have hblocks : ∀ row ∈ (unpublished clock.ties rows).take od.batchSize.toNat,
      toLex (row.createdAt, clock.ties row) ≤ toLex (entry.createdAt, clock.ties entry) →
      od.accepts answer row = false → od.blocks answer entry row = true := by
    intro row hrow hle haccepts
    have hle := Prod.Lex.toLex_le_toLex.mp hle
    rw [blocks, haccepts, decide_eq_true ⟨by omega, hnot row hrow⟩]
    rfl
  obtain ⟨row, hrow, haccepts⟩ := exists_accepted_before (unpublished_sorted clock.ties rows)
    (mem_unpublished.mpr ⟨hentry, hunpublished⟩) (fun h => hnot entry h rfl) hblocks hcount
  rw [filter_dispatchBatch hids, length_map, length_filter_lt_length_iff_exists]
  have hmem := mem_unpublished.mp (mem_of_mem_take hrow)
  have htaken : row.eventID ∈ od.window clock.ties rows := mem_map.mpr ⟨row, htake ▸ hrow, rfl⟩
  refine ⟨row, mem_filter.mpr ⟨hmem.1, by rw [hmem.2]; rfl⟩, ?_⟩
  rw [haccepts, decide_eq_true htaken]
  exact Bool.false_ne_true

theorem not_mem_window_of_blocked
    (hblocked : od.batchSize ≤ od.rejectedBefore answer rows entry) :
    entry.eventID ∉ od.window (od.blocksFirst answer entry) rows := by
  intro hwindow
  have hmem := (mem_window hids hentry hwindow).1
  rw [getUnpublished_eq_take (by omega)] at hmem
  have hself : od.blocks answer entry entry = false := by simp [blocks]
  have hcount : od.batchSize.toNat ≤ (unpublished (od.blocksFirst answer entry) rows).countP
      (od.blocks answer entry) := by
    rw [(unpublished_perm _ rows).countP_eq]
    unfold rejectedBefore at hblocked
    omega
  refine not_mem_take_of_blocked (unpublished_sorted _ rows) (fun row hrow hle => ?_) hself
    hcount hmem
  have hfirst : od.blocksFirst answer entry row = 0 := if_pos hrow
  have hlast : od.blocksFirst answer entry entry = 1 := if_neg (by rw [hself]; decide)
  rw [hfirst, hlast] at hle
  have hle := Prod.Lex.toLex_le_toLex.mp hle
  simp only [blocks, Bool.and_eq_true, decide_eq_true_eq] at hrow
  omega

end

end

/-! ## Batch after batch -/

def Tried (od : OutboxDispatcher) (answer : String → Option String) :
    List BatchClock → List OutboxEntry → String → Prop
  | [], _, _ => False
  | clock :: clocks, rows, id =>
    id ∈ od.window clock.ties rows ∨
      Tried od answer clocks (od.dispatchBatch answer clock rows).1 id

structure RowOutcome (od : OutboxDispatcher) (answer : String → Option String) (tried : Prop)
    (entry row : OutboxEntry) : Prop where
  core : row.core = entry.core
  published : entry.published = true → row = entry
  untried : ¬ tried → row = entry
  accepted : tried → od.publishError answer entry = none → row.published = true
  rejected : entry.published = false → tried → ∀ err, od.publishError answer entry = some err →
    row.published = false ∧ row.lastError = err ∧ entry.retryCount < row.retryCount

theorem RowOutcome.of_retried {entry row : OutboxEntry} {later : Prop}
    (hunpublished : entry.published = false)
    (h : RowOutcome od answer later (entry.retried od answer clock) row) :
    RowOutcome od answer True entry row where
  core := h.core.trans (core_retried clock entry)
  published := by
    intro hpublished
    rw [hunpublished] at hpublished
    cases hpublished
  untried := fun h => absurd trivial h
  accepted := by
    intro _ hnone
    have hpublished : (entry.retried od answer clock).published = true := by
      rw [retried_published entry hunpublished, accepts, hnone]
      rfl
    rwa [h.published hpublished]
  rejected := by
    intro _ _ err herr
    have hretried : entry.retried od answer clock = { entry with
          retryCount := entry.retryCount + 1
          lastError := err
          updatedAt := clock.errorAt entry.eventID } := by
      unfold retried
      rw [herr]
    have herr' := herr
    rw [← publishError_of_core (core_retried clock entry)] at herr'
    by_cases hlater : later
    · obtain ⟨hfalse, hlast, hcount⟩ := h.rejected (by rw [hretried]; exact hunpublished)
        hlater err herr'
      rw [hretried] at hcount
      exact ⟨hfalse, hlast, by dsimp only at hcount; omega⟩
    · rw [h.untried hlater, hretried]
      exact ⟨hunpublished, rfl, by dsimp only; omega⟩

theorem dispatchBatches_row (od : OutboxDispatcher) (answer : String → Option String)
    (clocks : List BatchClock) {entry : OutboxEntry} (hids : (rows.map eventID).Nodup)
    (hentry : entry ∈ rows) :
    ∃ row ∈ od.dispatchBatches answer clocks rows,
      RowOutcome od answer (od.Tried answer clocks rows entry.eventID) entry row := by
  induction clocks generalizing rows entry with
  | nil => exact ⟨entry, hentry, rfl, fun _ => rfl, fun _ => rfl, False.elim, fun _ => False.elim⟩
  | cons clock clocks ih =>
    obtain ⟨row, hrow, hout⟩ :=
      ih (dispatchBatch_nodup hids) (mem_dispatchBatch hids hentry)
    refine ⟨row, hrow, ?_⟩
    rw [eventID_of_core (core_afterBatch _ entry)] at hout
    unfold Tried
    by_cases hwindow : entry.eventID ∈ od.window clock.ties rows
    · rw [afterBatch, if_pos hwindow] at hout
      simp only [hwindow, true_or]
      exact hout.of_retried (mem_window hids hentry hwindow).2
    · rw [afterBatch, if_neg hwindow] at hout
      simpa only [hwindow, false_or] using hout

theorem sendsUnpublished (clocks : List BatchClock) (hids : (rows.map eventID).Nodup) :
    od.SendsUnpublished answer clocks rows := by
  induction clocks generalizing rows with
  | nil => trivial
  | cons clock clocks ih =>
    refine ⟨?_, ih (dispatchBatch_nodup hids)⟩
    intro id hid row hrow hrowID
    rw [dispatchBatch_eq hids] at hid
    obtain ⟨entry, hentry, rfl⟩ := mem_map.mp hid
    have hwindow : row.eventID ∈ od.window clock.ties rows := by
      rw [hrowID]
      exact mem_map.mpr ⟨entry, (mem_filter.mp hentry).1, rfl⟩
    exact (mem_window hids hrow hwindow).2

theorem publishError_eq_none {entry : OutboxEntry} (hrouted : Routed entry.eventType) :
    od.publishError answer entry = none ↔
      od.unmarshalError entry.payload = none ∧ answer entry.eventID = none := by
  unfold publishError publishEntry
  cases od.unmarshalError entry.payload with
  | some err =>
    constructor
    · intro h
      cases h
    · intro h
      cases h.1
  | none =>
    have hasks : (if entry.eventType = "TradeExecuted" then answer entry.eventID
        else if entry.eventType = "PositionUpdated" then answer entry.eventID else none) =
        answer entry.eventID := by
      rcases hrouted with h | h
      · rw [if_pos h]
      · rw [if_pos h, ite_self]
    rw [hasks]
    exact (and_iff_right rfl).symm

theorem dispatchBatches_ids (od : OutboxDispatcher) (answer : String → Option String)
    (clocks : List BatchClock) (hids : (rows.map eventID).Nodup) :
    ((od.dispatchBatches answer clocks rows).map eventID).Nodup := by
  induction clocks generalizing rows with
  | nil => exact hids
  | cons clock clocks ih => exact ih (dispatchBatch_nodup hids)

section

variable {clocks : List BatchClock} {entry row : OutboxEntry}
  (hids : (rows.map eventID).Nodup) (hentry : entry ∈ rows)

include hids hentry

theorem not_mem_sentBy (hpublished : entry.published = true) :
    entry.eventID ∉ od.sentBy answer clocks rows := by
  induction clocks generalizing rows with
  | nil => exact not_mem_nil
  | cons clock clocks ih =>
    have hwindow : entry.eventID ∉ od.window clock.ties rows := by
      intro h
      rw [(mem_window hids hentry h).2] at hpublished
      cases hpublished
    unfold sentBy
    rw [mem_append, not_or]
    refine ⟨fun h => hwindow ?_, ih (dispatchBatch_nodup hids)
      (mem_dispatchBatch_untried hids hentry hwindow)⟩
    rw [dispatchBatch_eq hids] at h
    exact (filter_sublist.map _).subset h

theorem not_tried_of_blocked (hbatch : 1 ≤ od.batchSize)
    (hblocked : od.batchSize ≤ od.rejectedBefore answer rows entry)
    (hties : ∀ clock ∈ clocks, clock.ties = od.blocksFirst answer entry) :
    ¬ od.Tried answer clocks rows entry.eventID := by
  induction clocks generalizing rows with
  | nil => exact id
  | cons clock clocks ih =>
    have hwindow := not_mem_window_of_blocked hids hbatch hentry hblocked
    rw [← hties clock mem_cons_self] at hwindow
    refine not_or.mpr ⟨hwindow, ih (dispatchBatch_nodup hids)
      (mem_dispatchBatch_untried hids hentry hwindow) ?_ ?_⟩
    · rwa [rejectedBefore_dispatchBatch hids]
    · exact fun clock hclock => hties clock (.tail _ hclock)

theorem outcome_of_mem (hrow : row ∈ od.dispatchBatches answer clocks rows)
    (hid : row.eventID = entry.eventID) :
    RowOutcome od answer (od.Tried answer clocks rows entry.eventID) entry row := by
  obtain ⟨row', hrow', hout⟩ := dispatchBatches_row od answer clocks hids hentry
  have hid' := eventID_of_core hout.core
  rwa [inj_on_of_nodup_map (dispatchBatches_ids od answer clocks hids) hrow hrow'
    (hid.trans hid'.symm)]

theorem eq_of_untried (huntried : ¬ od.Tried answer clocks rows entry.eventID)
    (hrow : row ∈ od.dispatchBatches answer clocks rows) (hid : row.eventID = entry.eventID) :
    row = entry :=
  (outcome_of_mem hids hentry hrow hid).untried huntried

variable (hunpublished : entry.published = false)

include hunpublished

/-- A row that is accepted is sent by the batch that tries it, and not again. -/
theorem count_sentBy (hsends : od.sends entry = true) (haccepts : od.accepts answer entry = true)
    (htried : od.Tried answer clocks rows entry.eventID) :
    (od.sentBy answer clocks rows).count entry.eventID = 1 := by
  induction clocks generalizing rows with
  | nil => exact htried.elim
  | cons clock clocks ih =>
    have hsent : (od.dispatchBatch answer clock rows).2 = _ :=
      congrArg Prod.snd (dispatchBatch_eq hids)
    unfold sentBy
    rw [count_append, hsent]
    by_cases hwindow : entry.eventID ∈ od.window clock.ties rows
    · have hnext : entry.afterBatch od answer clock _ ∈ _ := mem_dispatchBatch hids hentry
      rw [afterBatch, if_pos hwindow] at hnext
      have hpublished : (entry.retried od answer clock).published = true := by
        rw [retried_published entry hunpublished, haccepts]
      have hlater : entry.eventID ∉ od.sentBy answer clocks _ :=
        eventID_of_core (core_retried clock entry) ▸
          not_mem_sentBy (dispatchBatch_nodup hids) hnext hpublished
      rw [count_eq_zero_of_not_mem hlater]
      refine count_eq_one_of_mem ?_ (mem_map.mpr ⟨entry, mem_filter.mpr ⟨?_, hsends⟩, rfl⟩)
      · exact ((filter_sublist.trans (getUnpublished_sublist _ _ _)).map _).nodup
          (unpublished_nodup hids)
      · exact (mem_window hids hentry hwindow).1
    · rw [count_eq_zero_of_not_mem fun h => hwindow ((filter_sublist.map _).subset h),
        Nat.zero_add]
      exact ih (dispatchBatch_nodup hids) (mem_dispatchBatch_untried hids hentry hwindow)
        (htried.resolve_left hwindow)

theorem tried_of_room (hbatch : 1 ≤ od.batchSize)
    (hroom : od.rejectedBefore answer rows entry < od.batchSize)
    (hclocks : (rows.filter fun row => !row.published).length ≤ clocks.length) :
    od.Tried answer clocks rows entry.eventID := by
  induction clocks generalizing rows with
  | nil =>
    have hmem : entry ∈ rows.filter fun row => !row.published :=
      mem_filter.mpr ⟨hentry, by rw [hunpublished]; rfl⟩
    exact absurd hclocks (not_le.mpr (length_pos_of_mem hmem))
  | cons clock clocks ih =>
    by_cases hwindow : entry.eventID ∈ od.window clock.ties rows
    · exact .inl hwindow
    · have hless := batch_progress hids hbatch hentry hunpublished hroom hwindow
      refine .inr (ih (dispatchBatch_nodup hids)
        (mem_dispatchBatch_untried hids hentry hwindow) ?_ ?_)
      · rwa [rejectedBefore_dispatchBatch hids]
      · rw [length_cons] at hclocks
        omega

theorem publishError_of_published (hrow : row ∈ od.dispatchBatches answer clocks rows)
    (hid : row.eventID = entry.eventID) (hpublished : row.published = true) :
    od.publishError answer entry = none := by
  cases herr : od.publishError answer entry with
  | none => rfl
  | some err =>
    by_cases htried : od.Tried answer clocks rows entry.eventID
    · have hout := outcome_of_mem hids hentry hrow hid
      have hfalse := (hout.rejected hunpublished htried err herr).1
      rw [hpublished] at hfalse
      cases hfalse
    · rw [eq_of_untried hids hentry htried hrow hid, hunpublished] at hpublished
      cases hpublished

theorem tried_of_unblocked (h : od.Unblocked answer clocks rows) :
    od.Tried answer clocks rows entry.eventID := by
  by_contra huntried
  by_cases hanswer : answer entry.eventID = none
  · obtain ⟨⟨row, hrow, hid, hpublished⟩, -⟩ := h.accepted entry hentry hunpublished hanswer
    rw [eq_of_untried hids hentry huntried hrow hid, hunpublished] at hpublished
    cases hpublished
  · obtain ⟨row, hrow, hid, -, -, hcount⟩ := h.rejected entry hentry hunpublished hanswer
    rw [eq_of_untried hids hentry huntried hrow hid] at hcount
    exact lt_irrefl _ hcount

theorem published_of_tried (htried : od.Tried answer clocks rows entry.eventID)
    (hrouted : Routed entry.eventType) (hparse : od.unmarshalError entry.payload = none)
    (hanswer : answer entry.eventID = none) :
    (∃ row ∈ od.dispatchBatches answer clocks rows,
      row.eventID = entry.eventID ∧ row.published = true) ∧
    (od.sentBy answer clocks rows).count entry.eventID = 1 := by
  have hnone := (publishError_eq_none hrouted).mpr ⟨hparse, hanswer⟩
  obtain ⟨row, hrow, hout⟩ := dispatchBatches_row od answer clocks hids hentry
  refine ⟨⟨row, hrow, eventID_of_core hout.core, hout.accepted htried hnone⟩, ?_⟩
  refine count_sentBy hids hentry hunpublished (decide_eq_true ⟨hparse, hrouted⟩) ?_ htried
  rw [accepts, hnone]
  rfl

theorem recorded_of_tried (htried : od.Tried answer clocks rows entry.eventID)
    (hrouted : Routed entry.eventType) (hanswer : answer entry.eventID ≠ none) :
    ∃ row ∈ od.dispatchBatches answer clocks rows, row.eventID = entry.eventID ∧
      row.published = false ∧ od.publishError answer entry = some row.lastError ∧
      entry.retryCount < row.retryCount := by
  have hsome : od.publishError answer entry ≠ none := fun hnone =>
    hanswer ((publishError_eq_none hrouted).mp hnone).2
  obtain ⟨err, herr⟩ := Option.ne_none_iff_exists'.mp hsome
  obtain ⟨row, hrow, hout⟩ := dispatchBatches_row od answer clocks hids hentry
  obtain ⟨hfalse, hlast, hcount⟩ := hout.rejected hunpublished htried err herr
  exact ⟨row, hrow, eventID_of_core hout.core, hfalse, by rw [herr, hlast], hcount⟩

end

/-- As many batches as there are unpublished rows deliver an outbox, however the queries order rows
of one time, exactly when the payloads can be parsed that the producer would accept, and no
unpublished row has a whole batch of rejected rows that are not younger. -/
theorem unblocked_iff (od : OutboxDispatcher) (answer : String → Option String)
    (rows : List OutboxEntry) (hbatch : 1 ≤ od.batchSize) (hids : (rows.map eventID).Nodup)
    (hrouted : ∀ entry ∈ rows, entry.published = false → Routed entry.eventType) :
    (∀ clocks, clocks.length = (rows.filter fun row => !row.published).length →
        od.Unblocked answer clocks rows) ↔
      ∀ entry ∈ rows, entry.published = false →
        (answer entry.eventID = none → od.unmarshalError entry.payload = none) ∧
        od.rejectedBefore answer rows entry < od.batchSize := by
  constructor
  · intro h entry hentry hunpublished
    have hclocks := h (replicate _ ⟨fun _ => 0, 0, 0, od.blocksFirst answer entry⟩)
      length_replicate
    refine ⟨fun hanswer => ?_, ?_⟩
    · obtain ⟨⟨row, hrow, hid, hpublished⟩, -⟩ :=
        hclocks.accepted entry hentry hunpublished hanswer
      have hnone := publishError_of_published hids hentry hunpublished hrow hid hpublished
      exact ((publishError_eq_none (hrouted entry hentry hunpublished)).mp hnone).1
    · by_contra hblocked
      refine not_tried_of_blocked hids hentry hbatch (not_lt.mp hblocked)
        (fun clock hclock => ?_) (tried_of_unblocked hids hentry hunpublished hclocks)
      rw [(mem_replicate.mp hclock).2]
  · intro h clocks hclocks
    have htried : ∀ entry ∈ rows, entry.published = false →
        od.Tried answer clocks rows entry.eventID := fun entry hentry hunpublished =>
      tried_of_room hids hentry hunpublished hbatch (h entry hentry hunpublished).2 hclocks.ge
    refine ⟨?_, ?_, sendsUnpublished clocks hids⟩
    · intro entry hentry hunpublished hanswer
      exact published_of_tried hids hentry hunpublished (htried entry hentry hunpublished)
        (hrouted entry hentry hunpublished) ((h entry hentry hunpublished).1 hanswer) hanswer
    · intro entry hentry hunpublished hanswer
      exact recorded_of_tried hids hentry hunpublished (htried entry hentry hunpublished)
        (hrouted entry hentry hunpublished) hanswer

/-! ## A rejected row at the head -/

def sized (batchSize : Int) : OutboxDispatcher := ⟨batchSize, fun _ => none, fun now _ => now⟩

def refusesFirst (eventID : String) : Option String :=
  if eventID = "t1" then some "message too large" else none

def noonClock : BatchClock := ⟨fun _ => 12, 12, 12, 0⟩

def laterRow : OutboxEntry := { tradeRow with eventID := "t2", createdAt := 1 }

def twoTrades : List OutboxEntry := [tradeRow, laterRow]

theorem sized_two_unblocked :
    (sized 2).Unblocked refusesFirst [noonClock, noonClock] twoTrades :=
  (unblocked_iff (sized 2) refusesFirst twoTrades (by decide) (by decide) (by decide)).mpr
    (by decide) [noonClock, noonClock] (by decide)

/-- With a batch size of 1 both batches try `t1`, and `t2` is neither sent nor published. -/
theorem sized_one_blocked : ¬ (sized 1).Unblocked refusesFirst [noonClock, noonClock] twoTrades ∧
      (sized 1).sentBy refusesFirst [noonClock, noonClock] twoTrades = ["t1", "t1"] ∧
      ((sized 1).dispatchBatches refusesFirst [noonClock, noonClock] twoTrades).map
        published = [false, false] := by
  have hsent : (sized 1).sentBy refusesFirst [noonClock, noonClock] twoTrades = ["t1", "t1"] := by
    decide
  refine ⟨fun h => ?_, hsent, by decide⟩
  have hcount := (h.accepted laterRow (by decide) rfl (by decide)).2
  rw [hsent] at hcount
  exact absurd hcount (by decide)

end OutboxDispatcher

/-! ## Statement by statement

`dispatchBatch` is a run of the batch whose statements are steps, when none of them fails. -/

namespace Batch

variable {od : OutboxDispatcher} {answer : String → Option String}

def advance (od : OutboxDispatcher) (s : List OutboxEntry × Batch) (input : OutboxInput) :
    Option (List OutboxEntry × Batch) :=
  s.2.step od s.1 input

/-- The database does not fail, and the producer answers by the event id. -/
def Answered (answer : String → Option String) (s : List OutboxEntry × Batch)
    (input : OutboxInput) : Prop :=
  input.fault = none ∧ match s.2 with
    | .publish (entry :: _) _ => input.kafka = answer entry.eventID
    | _ => True

theorem publish_reaches (clock : BatchClock) (entries : List OutboxEntry) (p : Publishing) :
    Run.Reaches (advance od) (Answered answer) (p.rows, .publish entries p.successfulEventIDs)
      ((entries.foldl (od.tryEntry answer clock) p).rows,
        .publish [] (entries.foldl (od.tryEntry answer clock) p).successfulEventIDs) := by
  induction entries generalizing p with
  | nil => exact .refl
  | cons entry entries ih =>
    refine Run.Reaches.trans ?_ (ih _)
    have hsend : advance od (p.rows, .publish (entry :: entries) p.successfulEventIDs)
        ⟨0, 0, none, answer entry.eventID, 0⟩ = match od.publishError answer entry with
          | some err => some (p.rows, .recordError entry.eventID err entries p.successfulEventIDs)
          | none => some (p.rows, .publish entries (p.successfulEventIDs ++ [entry.eventID])) := rfl
    unfold tryEntry
    cases herr : od.publishError answer entry with
    | some err =>
      rw [herr] at hsend
      exact (Run.Reaches.step .refl ⟨rfl, rfl⟩ hsend).step
        (a := ⟨0, clock.errorAt entry.eventID, none, none, 0⟩) ⟨rfl, trivial⟩ rfl
    | none =>
      rw [herr] at hsend
      exact .step .refl ⟨rfl, rfl⟩ hsend

/-- `dispatchBatch` is a run of the batch whose statements are steps. -/
theorem dispatchBatch_reaches (clock : BatchClock) (rows : List OutboxEntry) :
    Run.Reaches (advance od) (Answered answer) (rows, .fetch)
      ((od.dispatchBatch answer clock rows).1, .returned) := by
  have hstart : Answered answer (rows, .fetch) ⟨0, 0, none, none, clock.ties⟩ := ⟨rfl, trivial⟩
  have hfetch : advance od (rows, .fetch) ⟨0, 0, none, none, clock.ties⟩ =
      match getUnpublished clock.ties rows od.batchSize with
        | [] => some (rows, .returned)
        | entry :: entries => some (rows, .publish (entry :: entries) []) := rfl
  unfold dispatchBatch
  cases hnext : getUnpublished clock.ties rows od.batchSize with
  | nil =>
    rw [hnext] at hfetch
    exact .step .refl hstart hfetch
  | cons entry entries =>
    rw [hnext] at hfetch
    have hloop := (Run.Reaches.refl.step hstart hfetch).trans
      (publish_reaches clock (entry :: entries) ⟨rows, [], []⟩)
    dsimp only
    generalize (entry :: entries).foldl (od.tryEntry answer clock) ⟨rows, [], []⟩ = p at hloop ⊢
    have hend : advance od (p.rows, .publish [] p.successfulEventIDs) ⟨0, 0, none, none, 0⟩ =
        some (p.rows, if p.successfulEventIDs = [] then .returned
          else .mark p.successfulEventIDs) := rfl
    have hdone := hloop.step ⟨rfl, trivial⟩ hend
    split
    next hnone => rwa [if_pos hnone] at hdone
    next hsome =>
      rw [if_neg hsome] at hdone
      exact hdone.step (a := ⟨clock.publishedAt, clock.updatedAt, none, none, 0⟩) ⟨rfl, trivial⟩ rfl

end Batch

end CexHertz
