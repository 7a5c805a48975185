import CexHertz.Service.OutboxDispatcher

/-!
# A trade is applied once as long as its row is kept

The trades whose legs were committed are the rows of the outbox and the rows that cleanups have
deleted. So a trade is applied again only by a delivery after the deletion of its row.
-/

namespace CexHertz

open List OutboxSystem

variable {pp : PositionProcessor} {od : OutboxDispatcher} {s s' : OutboxSystem}
  {action : OutboxAction}

/-! ## What the steps do to the rows -/

def PositionDb.eventIDs (db : PositionDb) : List String := db.outbox.map OutboxEntry.eventID

theorem mem_eventIDs {db : PositionDb} {eventID : String} :
    eventID ∈ db.eventIDs ↔ db.Processed eventID := mem_map

-- Both legs parse the quantity, whichever comes first.
theorem parseQuantity_of_moveQuantity {input : TxInput} {db db' : PositionDb}
    {e : TradeExecutedEvent} (h : moveQuantity pp input db e = .ok db') :
    ∃ q, Model.parseQuantity pp.conv (Model.nanoString e.quantity) = .ok q := by
  cases hq : Model.parseQuantity pp.conv (Model.nanoString e.quantity) with
  | ok q => exact ⟨q, rfl⟩
  | error msg =>
    have hbuy : ∀ (db : PositionDb) (user symbol price : String),
        buyPositionTx pp input db user symbol (Model.nanoString e.quantity) price =
          .error msg := by
      intro db user symbol price
      unfold buyPositionTx PositionLeg.compute
      dsimp only
      rw [hq]
      rfl
    unfold moveQuantity at h
    dsimp only at h
    split at h
    · rw [hbuy] at h
      cases h
    · split at h
      · cases h
      · rw [hbuy] at h
        cases h

theorem moveQuantity_outbox {input : TxInput} {db db' : PositionDb} {e : TradeExecutedEvent}
    (h : moveQuantity pp input db e = .ok db') : db'.outbox = db.outbox := by
  obtain ⟨q, hq⟩ := parseQuantity_of_moveQuantity h
  exact (moveQuantity_moved h hq).outbox

/-- A delivery changes nothing, or commits both legs of a trade that had no row and leaves one. -/
theorem OutboxSystem.deliver_cases (pp : PositionProcessor) (s : OutboxSystem)
    (event : TradeExecutedEvent) (input : TxInput) :
    s.deliver pp event input = s ∨
    ∃ db', ¬ s.db.Processed event.tradeID ∧ db'.eventIDs = s.db.eventIDs ++ [event.tradeID] ∧
      s.deliver pp event input =
        { s with db := db', committed := s.committed ++ [event.tradeID] } := by
  unfold deliver PositionProcessor.processEvent
  dsimp only
  rcases handleTradeExecutedTransactional_cases pp input s.db event with
    ⟨msg, heq⟩ | ⟨hdup, heq⟩ | ⟨db', hnew, hmove, heq⟩
  · left
    rw [heq]
    rfl
  · left
    rw [processed_iff_any] at hdup
    rw [heq]
    dsimp only
    rw [hdup, if_neg (by decide)]
  · refine .inr ⟨db', hnew, ?_, ?_⟩
    · unfold PositionDb.eventIDs
      rw [moveQuantity_outbox hmove, map_append]
      rfl
    · rw [processed_iff_any, Bool.not_eq_true] at hnew
      rw [heq]
      rw [hnew, if_pos ⟨rfl, rfl⟩]

theorem Batch.step_eventIDs {batch batch' : Batch} {rows rows' : List OutboxEntry}
    {input : OutboxInput} (h : batch.step od rows input = some (rows', batch')) :
    rows'.map OutboxEntry.eventID = rows.map OutboxEntry.eventID := by
  cases Batch.step_move h with
  | recorded | marked =>
    first
    | unfold recordPublishError
    | unfold markPublishedBatch
    rw [map_map]
    refine map_congr_left fun row _ => ?_
    dsimp only [Function.comp]
    split <;> rfl
  | _ => rfl

theorem OutboxSystem.cleanupPublished_eventIDs (od : OutboxDispatcher) (s : OutboxSystem)
    (retentionDays : Int) (input : OutboxInput) :
    (s.cleaned ++ s.db.eventIDs).Perm ((s.cleanupPublished od retentionDays input).cleaned ++
      (s.cleanupPublished od retentionDays input).db.eventIDs) ∧
    (s.cleanupPublished od retentionDays input).db.eventIDs.Sublist s.db.eventIDs ∧
    (s.cleanupPublished od retentionDays input).committed = s.committed := by
  unfold cleanupPublished
  split
  · exact ⟨.refl _, .refl _, rfl⟩
  · refine ⟨?_, filter_sublist.map _, rfl⟩
    unfold PositionDb.eventIDs cleanPublished
    rw [append_assoc, ← map_append]
    exact ((filter_append_perm _ _).symm.map _).append_left _

theorem OutboxSystem.step_cases (hstep : s.step pp od action = some s') :
    (∃ event input, action = .deliver event input ∧ s' = s.deliver pp event input) ∨
    (∃ retentionDays input, s' = s.cleanupPublished od retentionDays input) ∨
    (s'.db.eventIDs = s.db.eventIDs ∧ s'.committed = s.committed ∧ s'.cleaned = s.cleaned) := by
  cases action with
  | deliver event input =>
    cases hstep
    exact .inl ⟨event, input, rfl, rfl⟩
  | dispatchBatch =>
    cases hstep
    exact .inr (.inr ⟨rfl, rfl, rfl⟩)
  | advance k input =>
    rw [step] at hstep
    split at hstep
    next => cases hstep
    next batch hk =>
      split at hstep
      next => cases hstep
      next rows batch' hbatch =>
        cases hstep
        exact .inr (.inr ⟨Batch.step_eventIDs hbatch, rfl, rfl⟩)
  | cleanupPublished retentionDays input =>
    cases hstep
    exact .inr (.inl ⟨retentionDays, input, rfl⟩)

/-! ## Runs -/

structure RowPerCommit (s : OutboxSystem) : Prop where
  balance : s.committed.Perm (s.cleaned ++ s.db.eventIDs)
  distinct : s.db.eventIDs.Nodup

theorem rowPerCommit_new (positions : List Position) : RowPerCommit (newOutboxSystem positions) :=
  ⟨.refl _, nodup_nil⟩

theorem RowPerCommit.step (h : RowPerCommit s) (hstep : s.step pp od action = some s') :
    RowPerCommit s' := by
  rcases step_cases hstep with ⟨event, input, -, rfl⟩ | ⟨retentionDays, input, rfl⟩ |
    ⟨hids, hcommitted, hcleaned⟩
  · rcases s.deliver_cases pp event input with heq | ⟨db', hnew, hids, heq⟩
    · rwa [heq]
    · rw [heq]
      constructor
      · rw [hids, ← append_assoc]
        exact h.balance.append_right _
      · rw [hids]
        refine nodup_append.mpr ⟨h.distinct, nodup_singleton _, ?_⟩
        intro id hid id' hid'
        rw [mem_singleton.mp hid']
        rintro rfl
        exact hnew (mem_eventIDs.mp hid)
  · obtain ⟨hperm, hsub, hcommitted⟩ := s.cleanupPublished_eventIDs od retentionDays input
    exact ⟨by rw [hcommitted]; exact h.balance.trans hperm, h.distinct.sublist hsub⟩
  · exact ⟨by rw [hids, hcommitted, hcleaned]; exact h.balance, by rw [hids]; exact h.distinct⟩

def RowKept (s : OutboxSystem) : OutboxAction → Prop
  | .deliver event _ => event.tradeID ∉ s.cleaned
  | _ => True

theorem committed_nodup_step (hinv : RowPerCommit s) (h : s.committed.Nodup)
    (hallowed : RowKept s action) (hstep : s.step pp od action = some s') :
    s'.committed.Nodup := by
  rcases step_cases hstep with ⟨event, input, rfl, rfl⟩ |
    ⟨retentionDays, input, rfl⟩ | ⟨-, hcommitted, -⟩
  · rcases s.deliver_cases pp event input with heq | ⟨db', hnew, -, heq⟩
    · rwa [heq]
    · rw [heq]
      refine nodup_append.mpr ⟨h, nodup_singleton _, ?_⟩
      intro id hid id' hid'
      rw [mem_singleton.mp hid']
      rintro rfl
      -- a committed trade has its row, or had one that was deleted
      rcases mem_append.mp (hinv.balance.mem_iff.mp hid) with hcleaned | hrow
      · exact hallowed hcleaned
      · exact hnew (mem_eventIDs.mp hrow)
  · rwa [(s.cleanupPublished_eventIDs od retentionDays input).2.2]
  · rwa [hcommitted]

/-- In every run of deliveries, batches and cleanups in which no trade is delivered after the
deletion of its row, the legs of every trade are committed at most once. -/
theorem trade_applied_at_most_once (pp : PositionProcessor) (od : OutboxDispatcher)
    (positions : List Position) (s : OutboxSystem)
    (h : Run.Reaches (step pp od) RowKept (newOutboxSystem positions) s)
    (tradeID : String) : s.committed.count tradeID ≤ 1 := by
  have hinv : RowPerCommit s ∧ s.committed.Nodup :=
    h.invariant (I := fun s => RowPerCommit s ∧ s.committed.Nodup)
      ⟨rowPerCommit_new positions, nodup_nil⟩
      fun _ _ _ hs hallowed hstep =>
        ⟨hs.1.step hstep, committed_nodup_step hs.1 hs.2 hallowed hstep⟩
  exact nodup_iff_count_le_one.mp hinv.2 tradeID

/-! ## A row that is cleaned up too early -/

instance (s : OutboxSystem) (action : OutboxAction) : Decidable (RowKept s action) :=
  match action with
  | .deliver event _ => inferInstanceAs (Decidable (event.tradeID ∉ s.cleaned))
  | .dispatchBatch | .advance _ _ | .cleanupPublished _ _ => isTrue trivial

/-- A dispatcher that takes ten rows at a time, on a calendar without daylight saving. -/
def utcDispatcher : OutboxDispatcher := ⟨10, fun _ => none, fun now days => now + 86400 * days⟩

def sellOneCoin : OutboxAction :=
  .deliver (saleOf (10 ^ 8) (by decide) (by decide)).event ⟨0, 0, fun _ => none⟩

def publishAt (now : Int) : List OutboxAction :=
  [.dispatchBatch, .advance 0 ⟨now, now, none, none, 0⟩, .advance 0 ⟨now, now, none, none, 0⟩,
   .advance 0 ⟨now, now, none, none, 0⟩, .advance 0 ⟨now, now, none, none, 0⟩]

def fiveCoins : OutboxSystem := newOutboxSystem (soleHolder (5 * 10 ^ 8)).positions

/-- The trade is delivered twice, published, and its row is cleaned up. -/
theorem redelivered_then_cleaned_applied_once :
    ∃ s, Run.Reaches (step amd64Processor utcDispatcher) RowKept fiveCoins s ∧
      s.cleaned = ["t1"] ∧ s.db.holding "alice" "BTC" = 4 * 10 ^ 8 ∧
      s.committed.count "t1" ≤ 1 := by
  refine Run.exists_reaches
    (sellOneCoin :: sellOneCoin :: publishAt 0 ++
      [.cleanupPublished 7 ⟨8 * 86400, 0, none, none, 0⟩])
    (P := fun s => s.cleaned = ["t1"] ∧ s.db.holding "alice" "BTC" = 4 * 10 ^ 8) (by decide +kernel)
    fun s hreach ⟨hcleaned, hholding⟩ => ?_
  exact ⟨hcleaned, hholding, trade_applied_at_most_once _ _ _ s hreach "t1"⟩

/-- A replay eight days later, after the cleanup with seven days of retention, applies the trade a
second time. -/
theorem replay_after_cleanup_applies_twice :
    ∃ s, Run.Reaches (step amd64Processor utcDispatcher) (fun _ _ => True)
        fiveCoins s ∧
      s.db.holding "alice" "BTC" = 3 * 10 ^ 8 ∧ s.committed.count "t1" = 2 := by
  exact Run.exists_reaches
    (sellOneCoin :: publishAt 0 ++ [.cleanupPublished 7 ⟨8 * 86400, 0, none, none, 0⟩, sellOneCoin])
    (by decide +kernel) fun _ _ h => h

end CexHertz
