import CexHertz.Lib.Ranked
import CexHertz.Service.EventReadBack
import CexHertz.Service.EventReplay

/-!
# The two event stores

`InMemoryEventLog` with its indexes, and `GetLatestSeq` of both stores. The store in memory cuts a
symbol's events by position, the one in the database by a window of the numbers all symbols share;
they answer alike where the two cuts fall together.
-/

namespace CexHertz

open Function Json Ranked List Appended PostgresEventLog

variable {τ : Type}

/-! ## The log in memory -/

structure IndexedEventLog (τ : Type) where
  events : List (EventEnvelope τ)
  symbolIndexes : String → Option (List Nat)
  symbolSeq : String → Option Nat

def newIndexedEventLog : IndexedEventLog τ := ⟨[], fun _ => none, fun _ => none⟩

namespace IndexedEventLog

def appendEvent (J : Encoding τ) (log : IndexedEventLog τ) (event : Option MatchingEngineEvent) :
    IndexedEventLog τ × Option AppendError :=
  match event with
  | none => (log, some .eventNil)
  | some event =>
    let index := log.events.length
    let symbol := event.symbol
    ({ events := log.events ++ [marshalEvent J event]
       symbolIndexes := update log.symbolIndexes symbol
         (some ((log.symbolIndexes symbol).getD [] ++ [index]))
       symbolSeq := update log.symbolSeq symbol (some event.eventSeq) }, none)

def appendAll (J : Encoding τ) (log : IndexedEventLog τ) (events : List MatchingEngineEvent) :
    IndexedEventLog τ :=
  events.foldl (fun log event => (log.appendEvent J (some event)).1) log

def collect (log : IndexedEventLog τ) (startSeq : Nat) (limit : Int) :
    List Nat → List (EventEnvelope τ) → List (EventEnvelope τ)
  | [], result => result
  | idx :: rest, result =>
    match log.events[idx]? with
    | none => result
    | some envelope =>
      if startSeq ≤ envelope.seq then
        let result := result ++ [envelope]
        if 0 < limit ∧ limit ≤ result.length then result
        else log.collect startSeq limit rest result
      else log.collect startSeq limit rest result

def getEventsBySymbol (log : IndexedEventLog τ) (symbol : String) (startSeq : Nat) (limit : Int) :
    List (EventEnvelope τ) :=
  match log.symbolIndexes symbol with
  | none => []
  | some indexes => log.collect startSeq limit indexes []

def getLatestSeq (log : IndexedEventLog τ) (symbol : String) : Nat :=
  (log.symbolSeq symbol).getD 0

structure Indexed (J : Encoding τ) (log : IndexedEventLog τ) (logged : List MatchingEngineEvent) :
    Prop where
  events : log.events = logged.map (marshalEvent J)
  bounded : ∀ symbol, ∀ idx ∈ (log.symbolIndexes symbol).getD [], idx < log.events.length
  indexes : ∀ symbol, ((log.symbolIndexes symbol).getD []).filterMap (fun idx => log.events[idx]?) =
    log.events.filter fun envelope => envelope.symbol = symbol
  latest : ∀ symbol, log.symbolSeq symbol =
    ((logged.filter fun event => event.symbol = symbol).getLast?).map MatchingEngineEvent.eventSeq

variable {J : Encoding τ} {log : IndexedEventLog τ} {events : List MatchingEngineEvent}

theorem indexed_new : (newIndexedEventLog : IndexedEventLog τ).Indexed J [] where
  events := rfl
  bounded := nofun
  indexes := fun _ => rfl
  latest := fun _ => rfl

theorem Indexed.appendEvent (h : log.Indexed J events) (event : MatchingEngineEvent) :
    (log.appendEvent J (some event)).1.Indexed J (events ++ [event]) where
  events := by
    rw [map_append, ← h.events]
    rfl
  bounded := by
    intro symbol idx hidx
    show idx < (log.events ++ [marshalEvent J event]).length
    rw [length_append, length_singleton]
    change idx ∈ (update log.symbolIndexes event.symbol _ symbol).getD [] at hidx
    by_cases hsymbol : symbol = event.symbol
    · subst hsymbol
      rw [update_self, Option.getD_some] at hidx
      rcases mem_append.mp hidx with hidx | hidx
      · exact Nat.lt_succ_of_lt (h.bounded _ idx hidx)
      · rw [mem_singleton.mp hidx]
        exact Nat.lt_succ_self _
    · rw [update_of_ne hsymbol] at hidx
      exact Nat.lt_succ_of_lt (h.bounded symbol idx hidx)
  indexes := by
    intro symbol
    -- the indexes that were there still point at the same envelopes
    have hold : ((log.symbolIndexes symbol).getD []).filterMap
        (fun idx => (log.events ++ [marshalEvent J event])[idx]?) =
        log.events.filter fun envelope => envelope.symbol = symbol := by
      rw [← h.indexes symbol]
      refine filterMap_congr fun idx hidx => ?_
      exact List.getElem?_append_left (h.bounded symbol idx hidx)
    show ((update log.symbolIndexes event.symbol _ symbol).getD []).filterMap
      (fun idx => (log.events ++ [marshalEvent J event])[idx]?) =
      (log.events ++ [marshalEvent J event]).filter fun envelope => envelope.symbol = symbol
    rw [filter_append]
    by_cases hsymbol : symbol = event.symbol
    · subst hsymbol
      rw [update_self, Option.getD_some, filterMap_append, hold]
      congr 1
      simp [marshalEvent]
    · have hne : (marshalEvent J event).symbol ≠ symbol := fun heq => hsymbol heq.symm
      rw [update_of_ne hsymbol, hold]
      simp [hne]
  latest := by
    intro symbol
    show update log.symbolSeq event.symbol (some event.eventSeq) symbol = _
    rw [filter_append]
    by_cases hsymbol : symbol = event.symbol
    · subst hsymbol
      rw [update_self]
      simp
    · have hne : event.symbol ≠ symbol := fun heq => hsymbol heq.symm
      rw [update_of_ne hsymbol, h.latest]
      simp [hne]

theorem indexed_appendAll (J : Encoding τ) (events : List MatchingEngineEvent) :
    (newIndexedEventLog.appendAll J events).Indexed J events := by
  induction events using List.reverseRecOn with
  | nil => exact indexed_new
  | append_singleton events event ih =>
    rw [appendAll, foldl_append]
    exact ih.appendEvent event

theorem collect_eq (log : IndexedEventLog τ) (startSeq : Nat) (limit : Int) (indexes : List Nat)
    (result : List (EventEnvelope τ)) (hbounded : ∀ idx ∈ indexes, idx < log.events.length)
    (hroom : 0 < limit → result.length < limit) :
    log.collect startSeq limit indexes result = result ++
      (let found := (indexes.filterMap fun idx => log.events[idx]?).filter fun envelope =>
        decide (startSeq ≤ envelope.seq)
      if 0 < limit then found.take (limit.toNat - result.length) else found) := by
  induction indexes generalizing result with
  | nil => simp [collect]
  | cons idx rest ih =>
    have hidx : idx < log.events.length := hbounded idx mem_cons_self
    have hrest : ∀ i ∈ rest, i < log.events.length :=
      fun i hi => hbounded i (.tail _ hi)
    unfold collect
    simp only [List.getElem?_eq_getElem hidx, filterMap_cons]
    by_cases hseq : startSeq ≤ log.events[idx].seq
    · rw [if_pos hseq, filter_cons_of_pos (by simpa using hseq)]
      by_cases hpos : 0 < limit
      · have hlen := hroom hpos
        have hsplit : limit.toNat - result.length =
            (limit.toNat - (result ++ [log.events[idx]]).length) + 1 := by
          rw [length_append, length_singleton]
          omega
        rw [if_pos hpos, hsplit, take_succ_cons]
        split
        next hfull =>
          have hzero : limit.toNat - (result ++ [log.events[idx]]).length = 0 := by omega
          rw [hzero, take_zero]
        next hnot =>
          rw [ih _ hrest fun _ => by omega, if_pos hpos, append_assoc]
          rfl
      · rw [if_neg fun h => hpos h.1, ih _ hrest fun h => absurd h hpos, if_neg hpos,
          if_neg hpos, append_assoc]
        rfl
    · rw [if_neg hseq, filter_cons_of_neg (by simpa using hseq)]
      exact ih result hrest hroom

theorem Indexed.getEventsBySymbol_eq (h : log.Indexed J events) (symbol : String) (startSeq : Nat)
    (limit : Int) : log.getEventsBySymbol symbol startSeq limit =
      (InMemoryEventLog.mk log.events).getEventsBySymbol symbol startSeq limit := by
  have hcollect : log.getEventsBySymbol symbol startSeq limit =
      log.collect startSeq limit ((log.symbolIndexes symbol).getD []) [] := by
    unfold getEventsBySymbol
    cases log.symbolIndexes symbol with
    | none | some => rfl
  rw [hcollect, collect_eq log startSeq limit _ [] (h.bounded symbol)
    fun hpos => by simpa using hpos, h.indexes symbol, filter_filter]
  unfold InMemoryEventLog.getEventsBySymbol
  simp only [nil_append, length_nil, Nat.sub_zero, Bool.decide_and, Bool.and_comm]

end IndexedEventLog

/-! ## The log in the database -/

def getLatestGlobalSeq (table : List (PersistentEvent τ)) : Int :=
  (table.map PersistentEvent.globalSeq).max?.getD 0

def PostgresEventLog.getLatestSeq (log : PostgresEventLog τ) (fault : Option String)
    (symbol : String) : Except String Nat :=
  match log.localSeqMap symbol with
  | some seq => .ok (uint64 seq)
  | none =>
    match fault with
    | some msg => .error msg
    | none => .ok (uint64 (getLatestGlobalSeq log.table))

/-- The table holds `earlier` and `own`, and this process has appended `own`. -/
structure StoredAs (J : Encoding τ) (earlier own : List Appended) (log : PostgresEventLog τ) :
    Prop where
  table : log.table = (earlier ++ own).map (row J)
  tracked : ∀ symbol, log.localSeqMap symbol =
    ((ofSymbol symbol own).getLast?).map fun a => int64 a.number

section

variable {J : Encoding τ} {log log' : PostgresEventLog τ} {earlier own : List Appended}

theorem StoredAs.appendEvent (h : StoredAs J earlier own log) {input : WriteInput}
    {event : MatchingEngineEvent} (happend : log.appendEvent J input (some event) = (log', none)) :
    StoredAs J earlier (own ++ [⟨event, log.sequencer.nextGlobalSeq.1, input.now⟩]) log' := by
  obtain ⟨-, htable, -, hlatest⟩ := appendEvent_ok happend
  constructor
  · simp [htable, h.table]
  · intro symbol
    rw [hlatest, h.tracked]
    unfold ofSymbol
    rw [filter_append]
    by_cases hsymbol : symbol = event.symbol
    · simp [hsymbol]
    · simp [hsymbol, Ne.symm hsymbol]

/-- After every run of appends, among numbers drawn by others: a row for each append under the
number it drew, and for each symbol the number of its last append. -/
theorem storedAs_run {actions : List LogAction} (h : StoredAs J earlier own log)
    (hrun : log.run J actions = some log') :
    StoredAs J earlier (own ++ appended log.sequencer actions) log' := by
  induction actions generalizing log own with
  | nil =>
    cases hrun
    rwa [appended, append_nil]
  | cons action rest ih =>
    cases action with
    | draw =>
      refine ih ?_ hrun
      exact ⟨h.table, h.tracked⟩
    | append event input =>
      rw [run] at hrun
      split at hrun
      · cases hrun
      next next happend =>
        have hnext := ih (h.appendEvent happend) hrun
        rwa [(appendEvent_ok happend).2.2.1, append_assoc] at hnext

theorem storedAs_new (J : Encoding τ) (earlier : List Appended) (sequencer : Sequencer) :
    StoredAs J earlier [] (newPostgresEventLog (earlier.map (row J)) sequencer) where
  table := by rw [append_nil]; rfl
  tracked := fun _ => rfl

end

/-! ## The same events in both -/

/-- The events are stored under their own numbers, which ascend and fit in a `bigint` column. -/
structure SameNumbers (entries : List Appended) : Prop where
  own : ∀ a ∈ entries, a.event.eventSeq = a.number
  ascending : (entries.map number).Pairwise (· < ·)
  small : ∀ a ∈ entries, a.number < 2 ^ 63

def fromSeq (symbol : String) (startSeq : Nat) (entries : List Appended) : List Appended :=
  (ofSymbol symbol entries).filter fun a => decide (startSeq ≤ a.number)

/-- What a query asks for: these events, cut to the first `limit` when there is a limit. -/
def requested (symbol : String) (startSeq : Nat) (limit : Int) (entries : List Appended) :
    List Appended :=
  if 0 < limit then (fromSeq symbol startSeq entries).take limit.toNat
  else fromSeq symbol startSeq entries

/-- Both stores answer a query with the events it asks for, and know the latest number. -/
structure AnswerAlike (J : Encoding τ) (memory : IndexedEventLog τ) (log : PostgresEventLog τ)
    (entries : List Appended) (symbol : String) (startSeq : Nat) (limit : Int) : Prop where
  memoryEvents : memory.getEventsBySymbol symbol startSeq limit =
    (requested symbol startSeq limit entries).map fun a => marshalEvent J a.event
  postgresEvents : log.getEventsBySymbol none symbol startSeq limit =
    .ok ((requested symbol startSeq limit entries).map fun a => (a.row J).toEnvelope)
  memoryLatest : memory.getLatestSeq symbol = largest number (ofSymbol symbol entries)
  postgresLatest : log.getLatestSeq none symbol = .ok (largest number (ofSymbol symbol entries))

/-- The window of numbers `startSeq .. startSeq + limit` holds an event of the symbol exactly if it
is one of the first `limit` from `startSeq` on. -/
def WindowFits (entries : List Appended) (symbol : String) (startSeq : Nat) (limit : Int) : Prop :=
  ∀ a ∈ entries, a.event.symbol = symbol →
    ((int64 startSeq ≤ a.number ∧ a.number ≤ rangeEnd startSeq limit) ↔ startSeq ≤ a.number ∧
        (0 < limit → rank number (fromSeq symbol startSeq entries) a < limit))

/-- This process has appended for the symbol, or no other symbol has a larger number. -/
def LatestKnown (entries own : List Appended) (symbol : String) : Prop :=
  (∃ a ∈ own, a.event.symbol = symbol) ∨
    ∀ a ∈ entries, a.number = 0 ∨ ∃ b ∈ ofSymbol symbol entries, a.number ≤ b.number

instance (entries : List Appended) (symbol : String) (startSeq : Nat) (limit : Int) :
    Decidable (WindowFits entries symbol startSeq limit) :=
  inferInstanceAs (Decidable (∀ a ∈ entries, _))

instance (entries own : List Appended) (symbol : String) :
    Decidable (LatestKnown entries own symbol) := inferInstanceAs (Decidable (_ ∨ _))

section

variable {J : Encoding τ} {entries : List Appended} {symbol : String} {startSeq : Nat} {limit : Int}

theorem ofSymbol_sublist (symbol : String) (entries : List Appended) :
    (ofSymbol symbol entries).Sublist entries := filter_sublist

section

variable (hnumbers : SameNumbers entries)

include hnumbers

theorem uint64_int64_number {a : Appended} (ha : a ∈ entries) :
    uint64 (int64 a.number) = a.number :=
  uint64_int64 (by have := hnumbers.small a ha; omega)

theorem row_globalSeq {a : Appended} (ha : a ∈ entries) : (a.row J).globalSeq = a.number := by
  rw [row, int64_of_small (hnumbers.small a ha)]

theorem SameNumbers.pairwise {entries' : List Appended}
    (hsub : entries'.Sublist entries) : (entries'.map number).Pairwise (· < ·) :=
  hnumbers.ascending.sublist (hsub.map _)

theorem requested_eq_filter :
    requested symbol startSeq limit entries = entries.filter fun a =>
      decide (a.event.symbol = symbol ∧ startSeq ≤ a.number ∧
        (0 < limit → rank number (fromSeq symbol startSeq entries) a < limit)) := by
  have hfound : fromSeq symbol startSeq entries =
      entries.filter fun a => decide (a.event.symbol = symbol ∧ startSeq ≤ a.number) := by
    unfold fromSeq ofSymbol
    rw [filter_filter]
    refine filter_congr fun a _ => ?_
    rw [Bool.decide_and, Bool.and_comm]
  unfold requested
  split
  next hpos =>
    have hascending := hnumbers.pairwise (hfound ▸ filter_sublist)
    rw [take_eq_filter_rank hascending]
    refine (congrArg (List.filter _) hfound).trans ?_
    rw [filter_filter]
    refine filter_congr fun a _ => ?_
    rw [← Bool.decide_and]
    refine decide_eq_decide.mpr ?_
    constructor
    · rintro ⟨hrank, hsymbol, hstart⟩
      exact ⟨hsymbol, hstart, fun _ => by omega⟩
    · rintro ⟨hsymbol, hstart, hrank⟩
      exact ⟨by have := hrank hpos; omega, hsymbol, hstart⟩
  next hnot =>
    rw [hfound]
    refine filter_congr fun a _ => decide_eq_decide.mpr ?_
    constructor
    · exact fun h => ⟨h.1, h.2, fun hpos => absurd hpos hnot⟩
    · exact fun h => ⟨h.1, h.2.1⟩

theorem memory_events :
    (newIndexedEventLog.appendAll J (entries.map event)).getEventsBySymbol symbol startSeq
      limit = (requested symbol startSeq limit entries).map fun a => marshalEvent J a.event := by
  have hindexed := IndexedEventLog.indexed_appendAll J (entries.map event)
  have hfound : ((entries.map event).map (marshalEvent J)).filter (fun envelope =>
      decide (envelope.symbol = symbol ∧ startSeq ≤ envelope.seq)) =
      (fromSeq symbol startSeq entries).map fun a => marshalEvent J a.event := by
    rw [map_map, filter_map]
    unfold fromSeq ofSymbol
    rw [filter_filter]
    refine congrArg _ (filter_congr fun a ha => ?_)
    show decide (a.event.symbol = symbol ∧ startSeq ≤ a.event.eventSeq) = _
    rw [hnumbers.own a ha, Bool.decide_and, Bool.and_comm]
  rw [hindexed.getEventsBySymbol_eq]
  unfold InMemoryEventLog.getEventsBySymbol requested
  rw [hindexed.events, hfound]
  split
  · rw [map_take]
  · rfl

theorem memory_latest :
    (newIndexedEventLog.appendAll J (entries.map event)).getLatestSeq symbol =
      largest number (ofSymbol symbol entries) := by
  have hindexed := IndexedEventLog.indexed_appendAll J (entries.map event)
  rw [largest_eq_getLast (hnumbers.pairwise (ofSymbol_sublist _ _))]
  unfold IndexedEventLog.getLatestSeq
  rw [hindexed.latest, filter_map, List.getLast?_map, Option.map_map]
  show (Option.map _ (ofSymbol symbol entries).getLast?).getD 0 = _
  cases hlast : (ofSymbol symbol entries).getLast? with
  | none => rfl
  | some a => exact hnumbers.own a (mem_filter.mp (mem_of_getLast? hlast)).1

end

variable {earlier own : List Appended} {log : PostgresEventLog τ}

theorem postgres_events (hstored : StoredAs J earlier own log)
    (hnumbers : SameNumbers (earlier ++ own)) :
    log.getEventsBySymbol none symbol startSeq limit =
      .ok (((earlier ++ own).filter fun a => decide (a.event.symbol = symbol ∧
        int64 startSeq ≤ a.number ∧ a.number ≤ rangeEnd startSeq limit)).map
          fun a => (a.row J).toEnvelope) := by
  have hrows : (log.table.filter fun row => row.symbol = symbol &&
      (int64 startSeq ≤ row.globalSeq : Bool) && (row.globalSeq ≤ rangeEnd startSeq limit : Bool)) =
      ((earlier ++ own).filter fun a => decide (a.event.symbol = symbol ∧
        int64 startSeq ≤ a.number ∧ a.number ≤ rangeEnd startSeq limit)).map (row J) := by
    rw [hstored.table, filter_map]
    refine congrArg _ (filter_congr fun a ha => ?_)
    show (decide (a.event.symbol = symbol) && decide (int64 startSeq ≤ (a.row J).globalSeq) &&
      decide ((a.row J).globalSeq ≤ rangeEnd startSeq limit)) = _
    rw [row_globalSeq hnumbers ha, Bool.and_assoc, ← Bool.decide_and, ← Bool.decide_and]
  have hsorted : ((earlier ++ own).filter fun a => decide (a.event.symbol = symbol ∧
      int64 startSeq ≤ a.number ∧ a.number ≤ rangeEnd startSeq limit)).Pairwise
        fun a b => a.number < b.number := by
    have h := hnumbers.ascending
    rw [pairwise_map] at h
    exact h.sublist filter_sublist
  unfold getEventsBySymbol getSymbolEvents
  rw [hrows, mergeSort_of_pairwise, map_map]
  · rfl
  · rw [pairwise_map]
    refine hsorted.imp_of_mem fun {a b} ha hb hlt => ?_
    rw [decide_eq_true_eq, row_globalSeq hnumbers (mem_filter.mp ha).1,
      row_globalSeq hnumbers (mem_filter.mp hb).1]
    exact Int.ofNat_le.mpr hlt.le

theorem getLatestGlobalSeq_eq (hstored : StoredAs J earlier own log)
    (hnumbers : SameNumbers (earlier ++ own)) :
    uint64 (getLatestGlobalSeq log.table) = largest number (earlier ++ own) := by
  have hlargest : largest number (earlier ++ own) < 2 ^ 63 := by
    by_cases hne : earlier ++ own = []
    · rw [hne]
      exact Nat.two_pow_pos 63
    · obtain ⟨a, ha, hkey⟩ := exists_key_eq_largest number hne
      rw [← hkey]
      exact hnumbers.small a ha
  have hmax : getLatestGlobalSeq log.table = largest number (earlier ++ own) := by
    have hmap : log.table.map PersistentEvent.globalSeq =
        (earlier ++ own).map fun a => (a.number : Int) := by
      rw [hstored.table, map_map]
      refine map_congr_left fun a ha => ?_
      rw [Function.comp_apply, row_globalSeq hnumbers ha]
    unfold getLatestGlobalSeq
    rw [hmap, max?_eq_largest]
  rw [hmax, ← int64_of_small hlargest]
  exact uint64_int64 (by omega)

theorem postgres_latest_iff (hstored : StoredAs J earlier own log)
    (hnumbers : SameNumbers (earlier ++ own)) :
    log.getLatestSeq none symbol = .ok (largest number (ofSymbol symbol (earlier ++ own))) ↔
      LatestKnown (earlier ++ own) own symbol := by
  unfold getLatestSeq LatestKnown
  rw [hstored.tracked]
  cases hlast : (ofSymbol symbol own).getLast? with
  | some a =>
    have ha : a ∈ ofSymbol symbol own := mem_of_getLast? hlast
    obtain ⟨hown, hsymbol⟩ := mem_filter.mp ha
    have hmem : a ∈ earlier ++ own := mem_append_right _ hown
    have hlargest : largest number (ofSymbol symbol (earlier ++ own)) = a.number := by
      rw [largest_eq_getLast (hnumbers.pairwise (ofSymbol_sublist _ _))]
      unfold ofSymbol at hlast ⊢
      rw [filter_append, List.getLast?_append, hlast]
      rfl
    rw [hlargest]
    refine iff_of_true ?_ (.inl ⟨a, hown, of_decide_eq_true hsymbol⟩)
    exact congrArg Except.ok (uint64_int64_number hnumbers hmem)
  | none =>
    have hnone : ¬ ∃ a ∈ own, a.event.symbol = symbol := by
      rintro ⟨a, ha, hsymbol⟩
      have hmem : a ∈ ofSymbol symbol own :=
        mem_filter.mpr ⟨ha, decide_eq_true hsymbol⟩
      rw [List.getLast?_eq_none_iff.mp hlast] at hmem
      exact not_mem_nil hmem
    rw [or_iff_right hnone]
    show Except.ok (uint64 (getLatestGlobalSeq log.table)) = _ ↔ _
    rw [getLatestGlobalSeq_eq hstored hnumbers, Except.ok.injEq]
    exact largest_eq_iff_of_subset (ofSymbol_sublist _ _).subset

end

/-- For every sequence of events with ascending numbers, kept in both stores under these numbers,
and every query: the stores answer alike exactly if the window of numbers holds what the limit
asks for, and the latest number of the symbol is known to the process or is the latest of all. -/
theorem stores_answer_alike_iff (J : Encoding τ) {earlier own : List Appended}
    {log : PostgresEventLog τ} (hstored : StoredAs J earlier own log)
    (hnumbers : SameNumbers (earlier ++ own)) (symbol : String) (startSeq : Nat) (limit : Int) :
    AnswerAlike J (newIndexedEventLog.appendAll J ((earlier ++ own).map event)) log
        (earlier ++ own) symbol startSeq limit ↔
      WindowFits (earlier ++ own) symbol startSeq limit ∧
        LatestKnown (earlier ++ own) own symbol := by
  have hwindow : log.getEventsBySymbol none symbol startSeq limit =
      .ok ((requested symbol startSeq limit (earlier ++ own)).map
        fun a => (a.row J).toEnvelope) ↔
      WindowFits (earlier ++ own) symbol startSeq limit := by
    rw [postgres_events hstored hnumbers, requested_eq_filter hnumbers, Except.ok.injEq,
      map_filter_eq_iff (g := EventEnvelope.seq) hnumbers.ascending fun a ha =>
        (toEnvelope_seq a).trans (uint64_int64_number hnumbers ha)]
    refine forall₂_congr fun a _ => ?_
    rw [decide_eq_decide]
    constructor
    · intro h hsymbol
      exact ⟨fun hin => (h.mp ⟨hsymbol, hin⟩).2, fun hin => (h.mpr ⟨hsymbol, hin⟩).2⟩
    · intro h
      exact ⟨fun hin => ⟨hin.1, (h hin.1).mp hin.2⟩, fun hin => ⟨hin.1, (h hin.1).mpr hin.2⟩⟩
  rw [← hwindow, ← postgres_latest_iff hstored hnumbers]
  constructor
  · exact fun h => ⟨h.postgresEvents, h.postgresLatest⟩
  · exact fun h => ⟨memory_events hnumbers, h.1, memory_latest hnumbers, h.2⟩

/-! ## Three events of two symbols -/

def cancelledAs (seq : Nat) (symbol : String) : Appended :=
  ⟨.orderCancelled ⟨seq, 0, "o", symbol, ""⟩, seq, 0⟩

def twoSymbols : List Appended :=
  [cancelledAs 1 "BTC/USDT", cancelledAs 2 "ETH/USDT", cancelledAs 5 "BTC/USDT"]

def consecutive : List Appended := [cancelledAs 1 "BTC/USDT", cancelledAs 2 "BTC/USDT"]

def restarted (entries : List Appended) : PostgresEventLog Json :=
  newPostgresEventLog (entries.map (row Encoding.value)) newSequencer

def twoAppends : List LogAction :=
  [.append (cancelledAs 1 "BTC/USDT").event ⟨0, none⟩, .draw,
    .append (cancelledAs 3 "BTC/USDT").event ⟨0, none⟩]

theorem twoAppends_stored : ∃ log, (restarted []).run Encoding.value twoAppends = some log ∧
      StoredAs Encoding.value [] [cancelledAs 1 "BTC/USDT", cancelledAs 3 "BTC/USDT"] log := by
  have hsome : ((restarted []).run Encoding.value twoAppends).isSome := by decide +kernel
  obtain ⟨log, hrun⟩ := Option.isSome_iff_exists.mp hsome
  exact ⟨log, hrun, storedAs_run (storedAs_new Encoding.value [] newSequencer) hrun⟩

theorem sameNumbers_twoSymbols : SameNumbers twoSymbols :=
  ⟨by decide, by decide, by decide⟩

theorem sameNumbers_consecutive : SameNumbers consecutive :=
  ⟨by decide, by decide, by decide⟩

def seqsOf (answer : Except String (List (EventEnvelope Json))) : Option (List Nat) :=
  answer.toOption.map fun envelopes => envelopes.map EventEnvelope.seq

/-- With the numbers 1 and 5 for one symbol, a limit of two asks for both and gets the first; so
does no limit; and a symbol without events is given the latest number of another. -/
theorem window_is_not_a_count :
    StoredAs Encoding.value twoSymbols [] (restarted twoSymbols) ∧ SameNumbers (twoSymbols ++ []) ∧
    (∀ limit ∈ [2, 0, -1], (requested "BTC/USDT" 1 limit twoSymbols).map number = [1, 5] ∧
      ¬ AnswerAlike Encoding.value
        (newIndexedEventLog.appendAll Encoding.value ((twoSymbols ++ []).map event))
        (restarted twoSymbols) (twoSymbols ++ []) "BTC/USDT" 1 limit) ∧
    largest number (ofSymbol "DOGE/USDT" twoSymbols) = 0 ∧
    (restarted twoSymbols).getLatestSeq none "DOGE/USDT" = .ok 5 := by
  refine ⟨storedAs_new _ _ _, sameNumbers_twoSymbols, ?_, by decide, by decide +kernel⟩
  intro limit hlimit
  have hasked : (requested "BTC/USDT" 1 limit twoSymbols).map number = [1, 5] := by
    revert limit
    decide
  have hgiven : seqsOf ((restarted twoSymbols).getEventsBySymbol none "BTC/USDT" 1 limit) ≠
      some [1, 5] := by
    revert limit
    decide +kernel
  refine ⟨hasked, fun h => hgiven ?_⟩
  rw [h.postgresEvents]
  show some (((requested "BTC/USDT" 1 limit twoSymbols).map _).map EventEnvelope.seq) = _
  rw [map_map, ← hasked]
  refine congrArg some (map_congr_left fun a ha => ?_)
  rw [Function.comp_apply, toEnvelope_seq]
  refine uint64_int64_number sameNumbers_twoSymbols ?_
  unfold requested at ha
  split at ha
  · exact (ofSymbol_sublist _ _).subset (mem_filter.mp (mem_of_mem_take ha)).1
  · exact (ofSymbol_sublist _ _).subset (mem_filter.mp ha).1

theorem consecutive_answer_alike : AnswerAlike Encoding.value
      (newIndexedEventLog.appendAll Encoding.value ((consecutive ++ []).map event))
      (restarted consecutive) (consecutive ++ []) "BTC/USDT" 1 2 :=
  (stores_answer_alike_iff Encoding.value
    (storedAs_new Encoding.value consecutive newSequencer) sameNumbers_consecutive "BTC/USDT" 1
    2).mpr ⟨by decide +kernel, by decide⟩

end CexHertz
