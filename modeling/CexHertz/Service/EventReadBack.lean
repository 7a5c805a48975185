import CexHertz.Service.PostgresEventLog
import Mathlib.Data.List.Sort

/-!
# Reading the persistent log back

The table after a run is the list of the appended events' rows. A row's payload is the envelope, so
decoding it as an event keeps the header only; and its number is the one drawn by the append.
-/

namespace CexHertz

open Json List Appended

variable {τ : Type} {J : Encoding τ}
variable {log : PostgresEventLog τ} {entries : List Appended}

def Appended.row (J : Encoding τ) (a : Appended) : PersistentEvent τ where
  globalSeq := int64 a.number
  eventType := a.event.eventType
  aggregateID := ""
  aggregateType := "MatchingEngine"
  symbol := a.event.symbol
  payload := J.print (.obj (envelopeMembers a.event))
  eventTimestamp := a.event.eventTimestamp
  createdAt := if a.event.eventTimestamp = 0 then a.now else a.event.eventTimestamp
  version := 1

/-! ## The table after a run -/

theorem writeEvent_ok {table table' : List (PersistentEvent τ)} {input : WriteInput}
    {row : PersistentEvent τ} (h : writeEvent table input row = .ok table') :
    (∀ r ∈ table, r.globalSeq ≠ row.globalSeq) ∧ table' = table ++ [{ row with
        createdAt := if row.createdAt = 0 then input.now else row.createdAt }] := by
  unfold writeEvent at h
  split at h
  · cases h
  · split at h
    · cases h
    next hany =>
      cases h
      refine ⟨fun r hr heq => hany ?_, rfl⟩
      exact any_eq_true.mpr ⟨r, hr, decide_eq_true heq⟩

theorem appendEvent_ok {log' : PostgresEventLog τ} {input : WriteInput}
    {event : MatchingEngineEvent} (h : log.appendEvent J input (some event) = (log', none)) :
    (∀ r ∈ log.table, r.globalSeq ≠ int64 log.sequencer.nextGlobalSeq.1) ∧ log'.table = log.table ++
        [row J ⟨event, log.sequencer.nextGlobalSeq.1, input.now⟩] ∧
      log'.sequencer = log.sequencer.nextGlobalSeq.2 ∧
      ∀ symbol, log'.localSeqMap symbol = if symbol = event.symbol then
        some (int64 log.sequencer.nextGlobalSeq.1) else log.localSeqMap symbol := by
  unfold PostgresEventLog.appendEvent at h
  simp only [marshalEvent_toJson] at h
  split at h
  · cases h
  next table hwrite =>
    cases h
    obtain ⟨hne, htable⟩ := writeEvent_ok hwrite
    exact ⟨hne, htable, rfl, fun _ => rfl⟩

theorem run_table {log' : PostgresEventLog τ} {actions : List LogAction}
    (h : log.run J actions = some log') (hnodup : (log.table.map (·.globalSeq)).Nodup) :
    log'.table = log.table ++ (appended log.sequencer actions).map (row J) ∧
      (log'.table.map (·.globalSeq)).Nodup := by
  induction actions generalizing log with
  | nil =>
    cases h
    exact ⟨(append_nil _).symm, hnodup⟩
  | cons action rest ih =>
    cases action with
    | draw => exact ih h hnodup
    | append event input =>
      rw [PostgresEventLog.run] at h
      split at h
      · cases h
      next next happend =>
        obtain ⟨hne, htable, hseq, -⟩ := appendEvent_ok happend
        have hnext : (next.table.map (·.globalSeq)).Nodup := by
          rw [htable, map_append, nodup_append]
          refine ⟨hnodup, nodup_singleton _, ?_⟩
          intro a ha b hb
          obtain ⟨r, hr, rfl⟩ := mem_map.mp ha
          rw [mem_singleton.mp hb]
          exact hne r hr
        obtain ⟨htable', hnodup'⟩ := ih h hnext
        refine ⟨?_, hnodup'⟩
        rw [htable', htable, hseq, append_assoc]
        rfl

-- Ten bits of node id above forty of the counter, or the counter alone: a number fits in 64 bits.
theorem appended_number_lt {sequencer : Sequencer} (h : sequencer.nodeID ≤ 1023)
    (actions : List LogAction) : ∀ a ∈ appended sequencer actions, a.number < 2 ^ 64 := by
  induction actions generalizing sequencer with
  | nil => exact fun a ha => nomatch ha
  | cons action rest ih =>
    have hrest : sequencer.nextGlobalSeq.2.nodeID ≤ 1023 := h
    cases action with
    | draw => exact ih hrest
    | append event input =>
      intro a ha
      rcases mem_cons.mp ha with rfl | ha
      · exact nextGlobalSeq_lt h
      · exact ih hrest a ha

/-! ## Rows as envelopes -/

theorem unmarshalEvent_row {a : Appended} (h : a.event.InRange) :
    unmarshalEvent J (a.row J).toEnvelope = .ok (some a.event.header) := by
  have htype : (a.row J).toEnvelope.eventType = a.event.eventType := rfl
  have hpayload : (a.row J).toEnvelope.payload = J.print (.obj (envelopeMembers a.event)) := rfl
  rw [unmarshalEvent_of_eventType htype, hpayload]
  unfold unmarshalAs
  rw [J.parse_print, Option.bind_some, decoder_envelope h]

theorem toEnvelope_seq (a : Appended) : (a.row J).toEnvelope.seq = uint64 (int64 a.number) := by
  rw [PersistentEvent.toEnvelope, row]

def byNumber (entries : List Appended) : List Appended :=
  entries.mergeSort fun a b => int64 a.number ≤ int64 b.number

theorem getEventsBySymbol_rows (htable : log.table = entries.map (row J)) {symbol : String}
    {startSeq : Nat} {limit : Int} (hcovers : Covers log symbol startSeq limit) :
    log.getEventsBySymbol none symbol startSeq limit =
      .ok ((byNumber (ofSymbol symbol entries)).map fun a => (a.row J).toEnvelope) := by
  have hfilter : (log.table.filter fun row => row.symbol = symbol &&
      (int64 startSeq ≤ row.globalSeq : Bool) && (row.globalSeq ≤ rangeEnd startSeq limit : Bool))
      = (ofSymbol symbol entries).map (row J) := by
    have hrange : (log.table.filter fun row => row.symbol = symbol &&
        (int64 startSeq ≤ row.globalSeq : Bool) &&
        (row.globalSeq ≤ rangeEnd startSeq limit : Bool)) =
        log.table.filter fun row => row.symbol = symbol := by
      apply filter_congr
      intro row hrow
      by_cases hsymbol : row.symbol = symbol
      · have := hcovers row hrow hsymbol
        simp [hsymbol, this.1, this.2]
      · simp [hsymbol]
    rw [hrange, htable, filter_map]
    rfl
  unfold PostgresEventLog.getEventsBySymbol getSymbolEvents
  rw [hfilter]
  rw [← map_mergeSort (r := fun a b => decide (int64 a.number ≤ int64 b.number))
    (fun a _ b _ => rfl), map_map]
  rfl

/-! ## What comes back -/

theorem byNumber_perm (entries : List Appended) : (byNumber entries).Perm entries :=
  mergeSort_perm _ _

theorem byNumber_sorted (entries : List Appended) :
    ((byNumber entries).map fun a => int64 a.number).Pairwise (· ≤ ·) := by
  rw [pairwise_map]
  have htrans : ∀ a b c : Appended, decide (int64 a.number ≤ int64 b.number) = true →
      decide (int64 b.number ≤ int64 c.number) = true →
      decide (int64 a.number ≤ int64 c.number) = true := by
    intro a b c hab hbc
    rw [decide_eq_true_eq] at hab hbc ⊢
    exact Int.le_trans hab hbc
  have htotal : ∀ a b : Appended, (decide (int64 a.number ≤ int64 b.number) ||
      decide (int64 b.number ≤ int64 a.number)) = true := by
    intro a b
    rw [Bool.or_eq_true, decide_eq_true_eq, decide_eq_true_eq]
    exact Int.le_total _ _
  exact (pairwise_mergeSort htrans htotal entries).imp fun h => of_decide_eq_true h

-- Rows that were stored in the order of their numbers are read in the order they were stored.
theorem byNumber_of_ascending (h : (entries.map fun a => int64 a.number).Pairwise (· < ·)) :
    byNumber entries = entries := by
  rw [pairwise_map] at h
  exact mergeSort_of_pairwise (h.imp fun hlt => decide_eq_true (Int.le_of_lt hlt))

theorem readsBack_iff_headers (htable : log.table = entries.map (row J))
    (hrange : ∀ a ∈ entries, a.event.InRange) (hnumber : ∀ a ∈ entries, a.number < 2 ^ 64)
    {symbol : String} {startSeq : Nat} {limit : Int} (hcovers : Covers log symbol startSeq limit) :
    ReadsBack J log symbol startSeq limit ((ofSymbol symbol entries).map (·.event)) ↔
      (byNumber (ofSymbol symbol entries)).map (·.event.header) =
        (ofSymbol symbol entries).map (·.event) ∧
      (byNumber (ofSymbol symbol entries)).map (·.number) =
        (ofSymbol symbol entries).map (·.event.eventSeq) := by
  have hmem : ∀ a ∈ byNumber (ofSymbol symbol entries), a ∈ entries := by
    intro a ha
    exact (mem_filter.mp ((byNumber_perm _).mem_iff.mp ha)).1
  have hdecode : ((byNumber (ofSymbol symbol entries)).map fun a => (a.row J).toEnvelope).map
      (unmarshalEvent J) =
      ((byNumber (ofSymbol symbol entries)).map (·.event.header)).map
        fun event => .ok (some event) := by
    rw [map_map, map_map]
    exact map_congr_left fun a ha => unmarshalEvent_row (hrange a (hmem a ha))
  have hseq : ((byNumber (ofSymbol symbol entries)).map fun a => (a.row J).toEnvelope).map
      EventEnvelope.seq = (byNumber (ofSymbol symbol entries)).map (·.number) := by
    rw [map_map]
    apply map_congr_left
    intro a ha
    rw [Function.comp_apply, toEnvelope_seq, uint64_int64 (hnumber a (hmem a ha))]
  have hinj : Function.Injective (fun event : MatchingEngineEvent =>
      (Except.ok (some event) : Except UnmarshalError (Option MatchingEngineEvent))) := by
    intro e e' h
    cases h
    rfl
  unfold ReadsBack
  rw [getEventsBySymbol_rows htable hcovers]
  simp only [Except.ok.injEq, exists_eq_left']
  rw [hdecode, hseq, map_injective_iff.mpr hinj |>.eq_iff, map_map]
  rfl

theorem kept_of_headers (hnodup : (entries.map fun a => int64 a.number).Nodup)
    (hheaders : (byNumber entries).map (·.event.header) = entries.map (·.event))
    (hnumbers : (byNumber entries).map (·.number) = entries.map (·.event.eventSeq)) :
    Kept entries := by
  have hperm := byNumber_perm entries
  have hbare : ∀ a ∈ entries, Bare a.event := by
    intro a ha
    have hmem : a.event ∈ (byNumber entries).map (·.event.header) := by
      rw [hheaders]
      exact mem_map_of_mem ha
    obtain ⟨b, -, hb⟩ := mem_map.mp hmem
    unfold Bare
    rw [← hb, header_header]
  have hevents : (byNumber entries).map (·.event) = entries.map (·.event) := by
    rw [← hheaders]
    exact map_congr_left fun a ha => (hbare a (hperm.mem_iff.mp ha)).symm
  have hown : ∀ a ∈ entries, a.event.eventSeq = a.number := by
    have hsame : (byNumber entries).map (·.number) = (byNumber entries).map (·.event.eventSeq) := by
      have hmap := congrArg (List.map MatchingEngineEvent.eventSeq) hevents
      rw [map_map, map_map] at hmap
      exact hnumbers.trans hmap.symm
    intro a ha
    exact (map_inj_left.mp hsame a (hperm.mem_iff.mpr ha)).symm
  have hsorted : (entries.map fun a => int64 a.number) =
      (byNumber entries).map fun a => int64 a.number := by
    have hnum : entries.map (·.number) = (byNumber entries).map (·.number) := by
      rw [hnumbers]
      exact map_congr_left fun a ha => (hown a ha).symm
    have hmap := congrArg (List.map int64) hnum
    rw [map_map, map_map] at hmap
    exact hmap
  refine ⟨fun a ha => ⟨hbare a ha, hown a ha⟩, ?_⟩
  have hle : (entries.map fun a => int64 a.number).Pairwise (· ≤ ·) := by
    rw [hsorted]
    exact byNumber_sorted entries
  exact (hle.and hnodup).imp fun h => Int.lt_iff_le_and_ne.mpr h

/-- For every run of appends and every symbol, reading the symbol back over a range that contains
its rows restores the events exactly when the events are bare, carry the numbers drawn for them,
and these ascend. -/
theorem readBack_iff_kept (J : Encoding τ) {sequencer : Sequencer} (hnode : sequencer.nodeID ≤ 1023)
    {actions : List LogAction} {log : PostgresEventLog τ}
    (hrun : (newPostgresEventLog [] sequencer).run J actions = some log)
    (hrange : ∀ a ∈ appended sequencer actions, a.event.InRange) {symbol : String} {startSeq : Nat}
    {limit : Int} (hcovers : Covers log symbol startSeq limit) :
    ReadsBack J log symbol startSeq limit
        ((ofSymbol symbol (appended sequencer actions)).map (·.event)) ↔
      Kept (ofSymbol symbol (appended sequencer actions)) := by
  obtain ⟨hgrown, hnodup⟩ := run_table hrun nodup_nil
  have htable : log.table = (appended sequencer actions).map (row J) := hgrown
  rw [readsBack_iff_headers htable hrange (appended_number_lt hnode actions) hcovers]
  constructor
  · rintro ⟨hheaders, hnumbers⟩
    have hdistinct : ((appended sequencer actions).map fun a => int64 a.number).Nodup := by
      rw [htable, map_map] at hnodup
      exact hnodup
    have hsub : (ofSymbol symbol (appended sequencer actions)).Sublist
        (appended sequencer actions) := filter_sublist
    exact kept_of_headers (hdistinct.sublist (hsub.map _)) hheaders hnumbers
  · rintro ⟨hbare, hascending⟩
    rw [byNumber_of_ascending hascending]
    exact ⟨map_congr_left fun a ha => (hbare a ha).1,
      map_congr_left fun a ha => (hbare a ha).2.symm⟩

/-! ## One event in a fresh log -/

/-- The log after one event was appended to an empty table with a fresh sequencer. -/
def oneEventLog (event : MatchingEngineEvent) : PostgresEventLog Json where
  table := [row Encoding.value ⟨event, 1, 0⟩]
  sequencer := ⟨0, 1⟩
  localSeqMap := fun symbol => if symbol = event.symbol then some (int64 1) else none

theorem run_oneEvent (event : MatchingEngineEvent) :
    (newPostgresEventLog [] newSequencer).run Encoding.value [.append event ⟨0, none⟩] =
      some (oneEventLog event) := rfl

theorem oneEventLog_covers (event : MatchingEngineEvent) (symbol : String) :
    Covers (oneEventLog event) symbol 0 100 := by
  intro row hrow _
  rw [mem_singleton.mp hrow]
  exact (by decide +kernel : int64 0 ≤ int64 1 ∧ int64 1 ≤ rangeEnd 0 100)

def testTrade : MatchingEngineEvent :=
  .tradeExecuted
    { seq := 1, timestamp := 1000, tradeID := "TRADE-001", symbolStr := "BTC/USDT",
      takerOrderID := "ORDER-1", makerOrderID := "ORDER-2", takerUser := "user1",
      makerUser := "user2", price := 50000 * 10 ^ 8, quantity := 10 ^ 8, takerSide := "buy" }

def bareEvents : List MatchingEngineEvent :=
  [testTrade.header, .orderCancelled ⟨2, 1001, "", "", ""⟩]

def appendBare : List LogAction := bareEvents.map fun event => .append event ⟨0, none⟩

theorem bareEvents_readBack :
    ∃ log, (newPostgresEventLog [] newSequencer).run Encoding.value appendBare = some log ∧
      ReadsBack Encoding.value log "" 0 100 bareEvents := by
  have hsome : ((newPostgresEventLog [] newSequencer).run Encoding.value appendBare).isSome := by
    decide +kernel
  obtain ⟨log, hrun⟩ := Option.isSome_iff_exists.mp hsome
  have hbare : ∀ a ∈ ofSymbol "" (appended newSequencer appendBare),
      a.event.header = a.event ∧ a.event.eventSeq = a.number := by
    decide +kernel
  refine ⟨log, hrun, (readBack_iff_kept Encoding.value (by decide) hrun (by decide) ?_).mpr
    ⟨hbare, by decide +kernel⟩⟩
  have hrows : ∀ r ∈ (appended newSequencer appendBare).map (row Encoding.value),
      int64 0 ≤ r.globalSeq ∧ r.globalSeq ≤ rangeEnd 0 100 := by
    decide +kernel
  intro r hr _
  rw [(run_table hrun nodup_nil).1] at hr
  exact hrows r hr

/-- The trade is appended and covered by the query, and what comes back has lost its fields. -/
theorem testTrade_not_readsBack :
    (newPostgresEventLog [] newSequencer).run Encoding.value [.append testTrade ⟨0, none⟩] =
        some (oneEventLog testTrade) ∧
      Covers (oneEventLog testTrade) "BTC/USDT" 0 100 ∧
      ¬ ReadsBack Encoding.value (oneEventLog testTrade) "BTC/USDT" 0 100 [testTrade] := by
  refine ⟨run_oneEvent testTrade, oneEventLog_covers testTrade _, ?_⟩
  have htable : (oneEventLog testTrade).table = [⟨testTrade, 1, 0⟩].map (row Encoding.value) := rfl
  have hentries : ofSymbol "BTC/USDT" [⟨testTrade, 1, 0⟩] = [⟨testTrade, 1, 0⟩] := rfl
  have hrange : ∀ a ∈ ([⟨testTrade, 1, 0⟩] : List Appended), a.event.InRange := by
    intro a ha
    rw [mem_singleton.mp ha]
    exact (by decide : testTrade.InRange)
  have hnumber : ∀ a ∈ ([⟨testTrade, 1, 0⟩] : List Appended), a.number < 2 ^ 64 := by
    intro a ha
    rw [mem_singleton.mp ha]
    decide
  have hiff := readsBack_iff_headers htable hrange hnumber (oneEventLog_covers testTrade "BTC/USDT")
  rw [hentries, byNumber_of_ascending (pairwise_singleton _ _)] at hiff
  intro hback
  have hheader : testTrade.header = testTrade := (List.cons.inj (hiff.mp hback).1).1
  exact absurd hheader (by decide)

end CexHertz
