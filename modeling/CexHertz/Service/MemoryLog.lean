import CexHertz.Service.EventStores

/-!
# The log in memory as a history

The index lists of `InMemoryEventLog` share out the positions of the event array, and what its two
queries return decodes to the events that were appended.
-/

namespace CexHertz.IndexedEventLog

open Function Json List

variable {τ : Type} {J : Encoding τ} {log : IndexedEventLog τ} {events : List MatchingEngineEvent}

def collectSince (log : IndexedEventLog τ) (timestamp : Int) :
    List Nat → List (EventEnvelope τ) → List (EventEnvelope τ)
  | [], result => result
  | idx :: rest, result =>
    match log.events[idx]? with
    | none => result
    | some envelope =>
      log.collectSince timestamp rest
        (if timestamp ≤ envelope.timestamp then result ++ [envelope] else result)

def getEventsSinceTime (log : IndexedEventLog τ) (symbol : String) (timestamp : Int) :
    List (EventEnvelope τ) :=
  match log.symbolIndexes symbol with
  | none => []
  | some indexes => log.collectSince timestamp indexes []

def indexesOf (log : IndexedEventLog τ) (symbol : String) : List Nat :=
  (log.symbolIndexes symbol).getD []

/-- The events of the symbol from `startSeq` on, the first `limit` of them if there is a limit. -/
def wanted (symbol : String) (startSeq : Nat) (limit : Int) (events : List MatchingEngineEvent) :
    List MatchingEngineEvent :=
  let found := events.filter fun event => event.symbol = symbol ∧ startSeq ≤ event.eventSeq
  if 0 < limit then found.take limit.toNat else found

structure FaithfulHistory (J : Encoding τ) (log : IndexedEventLog τ)
    (events : List MatchingEngineEvent) : Prop where
  positions : ∀ symbol, ∀ idx ∈ log.indexesOf symbol, idx < log.events.length
  shared : ∀ idx < log.events.length, ∃! symbol, idx ∈ log.indexesOf symbol
  ascending : ∀ symbol, (log.indexesOf symbol).Pairwise (· < ·)
  bySymbol : ∀ symbol startSeq limit,
    (log.getEventsBySymbol symbol startSeq limit).map (unmarshalEvent J) =
      (wanted symbol startSeq limit events).map fun event => .ok (some event)
  sinceTime : ∀ symbol timestamp, (log.getEventsSinceTime symbol timestamp).map (unmarshalEvent J) =
      (events.filter fun event => event.symbol = symbol ∧ timestamp ≤ event.eventTimestamp).map
        fun event => .ok (some event)

/-! ## The index lists -/

structure Positioned (log : IndexedEventLog τ) : Prop where
  ascending : ∀ symbol, (log.indexesOf symbol).Pairwise (· < ·)
  mem_iff : ∀ symbol idx,
    idx ∈ log.indexesOf symbol ↔ (log.events[idx]?).map EventEnvelope.symbol = some symbol

theorem indexesOf_appendEvent (event : MatchingEngineEvent) (symbol : String) :
    (log.appendEvent J (some event)).1.indexesOf symbol =
      if symbol = event.symbol then log.indexesOf symbol ++ [log.events.length]
      else log.indexesOf symbol := by
  unfold indexesOf appendEvent
  dsimp only
  split
  next heq => rw [heq, update_self, Option.getD_some]
  next hne => rw [update_of_ne hne]

theorem Positioned.lt (h : log.Positioned) {symbol : String} {idx : Nat}
    (hidx : idx ∈ log.indexesOf symbol) : idx < log.events.length := by
  have hsome := (h.mem_iff symbol idx).mp hidx
  by_contra hge
  rw [List.getElem?_eq_none (Nat.le_of_not_lt hge)] at hsome
  cases hsome

theorem Positioned.appendEvent (h : log.Positioned) (event : MatchingEngineEvent) :
    (log.appendEvent J (some event)).1.Positioned where
  ascending := by
    intro symbol
    rw [indexesOf_appendEvent]
    split
    · refine List.pairwise_append.mpr ⟨h.ascending symbol, pairwise_singleton _ _, ?_⟩
      intro idx hidx last hlast
      rw [List.mem_singleton.mp hlast]
      exact h.lt hidx
    · exact h.ascending symbol
  mem_iff := by
    intro symbol idx
    rw [indexesOf_appendEvent]
    show _ ↔ ((log.events ++ [marshalEvent J event])[idx]?).map EventEnvelope.symbol = some symbol
    rcases lt_trichotomy idx log.events.length with hlt | rfl | hgt
    · -- an old position: it is not the new one
      rw [List.getElem?_append_left hlt, ← h.mem_iff]
      split
      · rw [mem_append, mem_singleton, or_iff_left hlt.ne]
      · rfl
    · have hfresh : log.events.length ∉ log.indexesOf symbol := fun hmem => (h.lt hmem).ne rfl
      rw [List.getElem?_concat_length, Option.map_some, Option.some.injEq]
      split
      next heq => simp [heq, marshalEvent]
      next hne => exact iff_of_false hfresh fun heq => hne heq.symm
    · have hfresh : idx ∉ log.indexesOf symbol := fun hmem => by have := h.lt hmem; omega
      rw [List.getElem?_eq_none (by simp; omega)]
      split
      · simp [hfresh, hgt.ne']
      · simp [hfresh]

theorem positioned_appendAll (J : Encoding τ) (events : List MatchingEngineEvent) :
    (newIndexedEventLog.appendAll J events).Positioned := by
  induction events using List.reverseRecOn with
  | nil => exact ⟨fun _ => .nil, fun _ _ => ⟨nofun, nofun⟩⟩
  | append_singleton events event ih =>
    rw [appendAll, foldl_append]
    exact ih.appendEvent event

theorem Positioned.shared (h : log.Positioned) {idx : Nat} (hidx : idx < log.events.length) :
    ∃! symbol, idx ∈ log.indexesOf symbol := by
  refine ⟨log.events[idx].symbol, (h.mem_iff _ _).mpr ?_, fun symbol hsymbol => ?_⟩
  · rw [List.getElem?_eq_getElem hidx, Option.map_some]
  · have hsome := (h.mem_iff symbol idx).mp hsymbol
    rw [List.getElem?_eq_getElem hidx] at hsome
    exact (Option.some.inj hsome).symm

/-! ## The queries -/

theorem collectSince_eq (log : IndexedEventLog τ) (timestamp : Int) {indexes : List Nat}
    (result : List (EventEnvelope τ)) (hbounded : ∀ idx ∈ indexes, idx < log.events.length) :
    log.collectSince timestamp indexes result = result ++
      (indexes.filterMap fun idx => log.events[idx]?).filter fun envelope =>
        decide (timestamp ≤ envelope.timestamp) := by
  induction indexes generalizing result with
  | nil => exact (append_nil _).symm
  | cons idx rest ih =>
    have hidx : idx < log.events.length := hbounded idx mem_cons_self
    unfold collectSince
    simp only [List.getElem?_eq_getElem hidx, filterMap_cons]
    rw [ih _ fun i hi => hbounded i (.tail _ hi)]
    by_cases htime : timestamp ≤ log.events[idx].timestamp
    · rw [if_pos htime, filter_cons_of_pos (by simpa using htime), append_assoc]
      rfl
    · rw [if_neg htime, filter_cons_of_neg (by simpa using htime)]

theorem Indexed.getEventsSinceTime_eq (h : log.Indexed J events) (symbol : String)
    (timestamp : Int) : log.getEventsSinceTime symbol timestamp = log.events.filter fun envelope =>
        decide (envelope.symbol = symbol ∧ timestamp ≤ envelope.timestamp) := by
  have hcollect : log.getEventsSinceTime symbol timestamp =
      log.collectSince timestamp ((log.symbolIndexes symbol).getD []) [] := by
    unfold getEventsSinceTime
    cases log.symbolIndexes symbol with
    | none | some => rfl
  rw [hcollect, collectSince_eq log timestamp [] (h.bounded symbol), h.indexes symbol,
    filter_filter]
  simp only [nil_append, Bool.decide_and, Bool.and_comm]

-- Decoding undoes the marshalling, whatever the query selects.
theorem map_unmarshalEvent (J : Encoding τ) (hrange : ∀ event ∈ events, event.InRange) :
    (events.map (marshalEvent J)).map (unmarshalEvent J) =
      events.map fun event => .ok (some event) := by
  rw [map_map]
  exact map_congr_left fun event hevent => unmarshalEvent_marshalEvent J (hrange event hevent)

/-- For every sequence of appended events: the index lists share out the positions, and the two
queries return what was appended, in this order and field for field. -/
theorem memory_log_faithful (J : Encoding τ) (hrange : ∀ event ∈ events, event.InRange) :
    FaithfulHistory J (newIndexedEventLog.appendAll J events) events := by
  have hindexed := indexed_appendAll J events
  have hpositioned := positioned_appendAll J events
  refine ⟨fun _ _ => hpositioned.lt, fun _ => hpositioned.shared, hpositioned.ascending,
    fun symbol startSeq limit => ?_, fun symbol timestamp => ?_⟩
  · have hfound : wanted symbol startSeq limit events ⊆ events := by
      unfold wanted
      split
      · exact fun _ h => filter_subset_self _ (mem_of_mem_take h)
      · exact filter_subset_self _
    rw [← map_unmarshalEvent J fun event h => hrange event (hfound h),
      hindexed.getEventsBySymbol_eq, hindexed.events]
    unfold InMemoryEventLog.getEventsBySymbol wanted
    rw [filter_map]
    split
    · rw [← map_take]
      rfl
    · rfl
  · rw [← map_unmarshalEvent J fun event h => hrange event (mem_of_mem_filter h),
      hindexed.getEventsSinceTime_eq, hindexed.events, filter_map]
    rfl

/-- Numbers and times that do not ascend. -/
theorem memory_log_of_three :
    FaithfulHistory Encoding.value (newIndexedEventLog.appendAll Encoding.value
      [.orderCancelled ⟨5, 9, "a", "BTC", ""⟩, .orderCancelled ⟨2, 3, "b", "ETH", ""⟩,
        .orderCancelled ⟨1, 4, "c", "BTC", ""⟩])
      [.orderCancelled ⟨5, 9, "a", "BTC", ""⟩, .orderCancelled ⟨2, 3, "b", "ETH", ""⟩,
        .orderCancelled ⟨1, 4, "c", "BTC", ""⟩] :=
  memory_log_faithful Encoding.value (by decide)

end CexHertz.IndexedEventLog
