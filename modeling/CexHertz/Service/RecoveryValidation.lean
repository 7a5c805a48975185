import CexHertz.Lib.DelimitedRecords
import CexHertz.Service.RecoveryExecutor
import Mathlib

/-!
# What the validation of a recovery looks at

`CalculateStateChecksum` and the validation in `recovery_executor.go`. Both checksums hash the time
they are taken at, the positions read are always none, and the expected counts are compared with
themselves: the verdict is about the clock and the printed book.
-/

namespace CexHertz

open Json (Encoding)

variable {τ μ β π : Type}

/-! ## The checksum -/

abbrev PositionMap (π : Type) := AList fun _ : String => π

/-- What `%v` prints.  The pointers inside a book or a map are printed as addresses, so a text
depends on where the entries lie (`μ`). -/
structure Printing (μ β π : Type) where
  orderBook : μ → Option β → String
  positions : μ → PositionMap π → String

def stateText (P : Printing μ β π) (layout : μ) (orderBook : Option β)
    (positions : PositionMap π) : String :=
  "orderbook:" ++ P.orderBook layout orderBook ++ "|positions:" ++ P.positions layout positions

def calculateStateChecksum (md5 : String → String) (P : Printing μ β π) (layout : μ)
    (orderBook : Option β) (positions : PositionMap π) (now : Int) : String :=
  md5 (stateText P layout orderBook positions ++ "|timestamp" ++ ":" ++ toString now)

variable {md5 : String → String} {P : Printing μ β π}

theorem toList_stamped (text : String) (now : Int) :
    (text ++ "|timestamp" ++ ":" ++ toString now).toList =
      (text.toList ++ "|timestamp".toList) ++ ':' :: (toString now).toList := by
  rw [String.toList_append, String.toList_append, String.toList_append, List.append_assoc]
  rfl

theorem calculateStateChecksum_eq_iff (hmd5 : Function.Injective md5) {layout layout' : μ}
    {orderBook orderBook' : Option β} {positions positions' : PositionMap π} {now now' : Int} :
    calculateStateChecksum md5 P layout orderBook positions now =
        calculateStateChecksum md5 P layout' orderBook' positions' now' ↔
      stateText P layout orderBook positions = stateText P layout' orderBook' positions' ∧
        now = now' := by
  unfold calculateStateChecksum
  rw [hmd5.eq_iff]
  constructor
  · intro h
    have hlist := congrArg String.toList h
    rw [toList_stamped, toList_stamped] at hlist
    have hcolon : ∀ n : Int, ':' ∉ (toString n).toList :=
      Delimited.not_mem_toString (by decide) (by decide)
    obtain ⟨htext, htime⟩ := Delimited.append_cons_inj_last (hcolon now) (hcolon now') hlist
    exact ⟨String.toList_inj.mp (List.append_cancel_right htext),
      Int.repr_injective (String.toList_inj.mp htime)⟩
  · rintro ⟨htext, rfl⟩
    rw [htext]

/-! ## The readings of a recovery -/

structure Reading (μ β π : Type) where
  layout : μ
  orderBook : Option β
  positions : PositionMap π
  orderCount : Int
  tradeCount : Int
  now : Int

def Reading.getPositions (_ : Reading μ β π) : PositionMap π := ∅

def Reading.postChecksum (md5 : String → String) (P : Printing μ β π) (r : Reading μ β π) :
    String :=
  calculateStateChecksum md5 P r.layout r.orderBook r.getPositions r.now

structure EventOffsetCheckpoint.RecordOf (md5 : String → String) (P : Printing μ β π)
    (cp : EventOffsetCheckpoint) (r : Reading μ β π) : Prop where
  stateChecksum : cp.stateChecksum =
    calculateStateChecksum md5 P r.layout r.orderBook r.positions r.now
  orderCount : cp.orderCount = r.orderCount
  tradeCount : cp.tradeCount = r.tradeCount

def Reading.SameState (recorded restored : Reading μ β π) : Prop :=
  restored.orderBook = recorded.orderBook ∧ restored.positions = recorded.positions

def Reading.SameCounts (recorded restored : Reading μ β π) : Prop :=
  restored.orderCount = recorded.orderCount ∧ restored.tradeCount = recorded.tradeCount

/-- Two readings of one millisecond that print the same, with the positions that are given out. -/
def Reading.Alike (P : Printing μ β π) (recorded restored : Reading μ β π) : Prop :=
  stateText P recorded.layout recorded.orderBook recorded.positions =
      stateText P restored.layout restored.orderBook restored.getPositions ∧
    recorded.now = restored.now

/-- The verdict is about the state: an unchanged one is valid, one with other counts is not. -/
structure JudgesState (recorded restored : Reading μ β π) (isValid : Bool) : Prop where
  accepts : recorded.SameState restored → recorded.SameCounts restored → isValid = true
  rejects : ¬ recorded.SameCounts restored → isValid = false

/-! ## The verdict -/

theorem validateRecovery_self (preChecksum postChecksum : String) (orders trades : Int) :
    validateRecovery preChecksum postChecksum orders orders trades trades = none ↔
      preChecksum = postChecksum := by
  unfold validateRecovery
  rw [if_neg (not_not_intro rfl : ¬ orders ≠ orders),
    if_neg (not_not_intro rfl : ¬ trades ≠ trades)]
  constructor
  · intro h
    by_contra hne
    rw [if_pos hne] at h
    cases h
  · intro h
    rw [if_neg (not_not_intro h)]

theorem validated_isValid {opts : RecoveryOptions} (hvalidate : opts.validateAfterRecovery = true)
    (recoveryCtx : RecoveryContext) (stateChecksum : String) (result : RecoveryResult) :
    (validated opts recoveryCtx stateChecksum result).isValid = true ↔
      recoveryCtx.preCrashChecksum = stateChecksum := by
  unfold validated
  rw [if_pos hvalidate, ← validateRecovery_self _ _ recoveryCtx.expectedOrderCount
    recoveryCtx.expectedTradeCount]
  split
  next h => simp only [h, Bool.false_eq_true, reduceCtorEq]
  next h => simp only [h]

theorem getRecoveryContext_checksum {rows : List CheckpointRow} {fault : Option String}
    {processorName symbol : String} {cp : EventOffsetCheckpoint}
    (hcp : getLatestCheckpoint rows processorName symbol = some cp)
    {recoveryCtx : RecoveryContext}
    (h : getRecoveryContext rows fault processorName symbol = .ok recoveryCtx) :
    recoveryCtx.preCrashChecksum = cp.stateChecksum := by
  unfold getRecoveryContext at h
  split at h
  next => cases h
  next =>
    rw [hcp] at h
    cases h
    rfl

section

variable {J : Encoding τ} {re : RecoveryExecutor} {s : EngineNode τ} {item : String × String}
  {opts : RecoveryOptions} {input : RecoveryInput} {recovered : Recovered τ}
  {cp : EventOffsetCheckpoint}

theorem recovered_isValid (h : recoverSingleProcessor J re s item opts input = .ok recovered)
    (herr : recovered.err = none) (hvalidate : opts.validateAfterRecovery = true)
    (hcp : getLatestCheckpoint s.checkpoints.rows item.1 item.2 = some cp) :
    recovered.result.isValid = true ↔ cp.stateChecksum = input.stateChecksum := by
  obtain ⟨recoveryCtx, events, r, result, hctx, -, -, -, rfl⟩ := recoverSingleProcessor_last h herr
  rw [validated_isValid hvalidate, getRecoveryContext_checksum hcp hctx]

/-- For every book, all positions, all counts and every pair of times, in every recovery that comes
to its validation: the state is judged exactly when an unchanged one reads alike, to the
millisecond, and one with other counts does not. -/
theorem judgesState_iff_alike (hmd5 : Function.Injective md5)
    (h : recoverSingleProcessor J re s item opts input = .ok recovered)
    (herr : recovered.err = none) (hvalidate : opts.validateAfterRecovery = true)
    (hcp : getLatestCheckpoint s.checkpoints.rows item.1 item.2 = some cp)
    {recorded restored : Reading μ β π} (hrecorded : cp.RecordOf md5 P recorded)
    (hrestored : input.stateChecksum = restored.postChecksum md5 P) :
    JudgesState recorded restored recovered.result.isValid ↔
      (recorded.SameState restored → recorded.SameCounts restored → recorded.Alike P restored) ∧
      (¬ recorded.SameCounts restored → ¬ recorded.Alike P restored) := by
  -- the verdict looks at the clock and at the printed texts, and at nothing else
  have hvalid : recovered.result.isValid = true ↔ recorded.Alike P restored := by
    rw [recovered_isValid h herr hvalidate hcp, hrecorded.stateChecksum, hrestored]
    exact calculateStateChecksum_eq_iff hmd5
  rw [← hvalid, Bool.not_eq_true]
  constructor
  · intro hjudges
    exact ⟨hjudges.accepts, hjudges.rejects⟩
  · rintro ⟨haccepts, hrejects⟩
    exact ⟨haccepts, hrejects⟩

end

/-! ## One checkpoint -/

def nilPrinting : Printing Unit (List String) Unit where
  orderBook := fun _ orderBook =>
    match orderBook with
    | none => "<nil>"
    | some orders => "&\x7b" ++ String.intercalate " " orders ++ "\x7d"
  positions := fun _ positions => "map[" ++ String.intercalate " " positions.keys ++ "]"

def emptyEngine (orderCount now : Int) : Reading Unit (List String) Unit :=
  ⟨(), none, ∅, orderCount, 0, now⟩

def tradedEngine (now : Int) : Reading Unit (List String) Unit :=
  ⟨(), some ["o-1", "o-3"], ∅, 3, 2, now⟩

def checkpointOf (recorded : Reading Unit (List String) Unit) : EventOffsetCheckpoint where
  processorName := "position"
  symbol := "BTC/USDT"
  eventSeq := 0
  kafkaOffset := 0
  partitionID := 0
  timestamp := 1
  stateChecksum := calculateStateChecksum id nilPrinting recorded.layout recorded.orderBook
    recorded.positions recorded.now
  orderCount := recorded.orderCount
  tradeCount := recorded.tradeCount

def checkpointNode (recorded : Reading Unit (List String) Unit) : EngineNode Json :=
  newEngineNode (newPostgresEventLog [] newSequencer) ["position"]
    [⟨checkpointOf recorded, .none, 0⟩]

theorem checkpointNode_latest (recorded : Reading Unit (List String) Unit) :
    getLatestCheckpoint (checkpointNode recorded).checkpoints.rows "position" "BTC/USDT" =
      some (checkpointOf recorded) := by
  show ((([⟨checkpointOf recorded, .none, 0⟩] : List CheckpointRow).filter _).mergeSort
    _).head?.map _ = _
  rw [List.filter_cons_of_pos (by rfl), List.filter_nil, List.mergeSort_singleton]
  rfl

def recoverFrom (recorded restored : Reading Unit (List String) Unit) :
    Except Halt (Recovered Json) :=
  recoverSingleProcessor Encoding.value ⟨true, true, true⟩ (checkpointNode recorded)
    ("position", "BTC/USDT") defaultOptions
    { quietRecovery with stateChecksum := restored.postChecksum id nilPrinting }

def recoverEmpty : Reading Unit (List String) Unit → Except Halt (Recovered Json) :=
  recoverFrom (emptyEngine 0 1)

/-- One millisecond later the unchanged engine is rejected, and one with another number of orders
is accepted at once. -/
theorem verdict_follows_the_clock :
    (∃ recovered, recoverEmpty (emptyEngine 0 2) = .ok recovered ∧ recovered.err = none ∧
      ¬ JudgesState (emptyEngine 0 1) (emptyEngine 0 2) recovered.result.isValid) ∧
    ∃ recovered, recoverEmpty (emptyEngine 7 1) = .ok recovered ∧ recovered.err = none ∧
      ¬ JudgesState (emptyEngine 0 1) (emptyEngine 7 1) recovered.result.isValid := by
  have hlater : (recoverEmpty (emptyEngine 0 2)).toOption.any (fun recovered =>
      recovered.err = none ∧ recovered.result.isValid = false) = true := by
    decide +kernel
  have hother : (recoverEmpty (emptyEngine 7 1)).toOption.any (fun recovered =>
      recovered.err = none ∧ recovered.result.isValid = true) = true := by
    decide +kernel
  constructor
  · obtain ⟨recovered, hrecovered, htest⟩ := Run.exists_of_any hlater
    obtain ⟨herr, hvalid⟩ := of_decide_eq_true htest
    refine ⟨recovered, ok_of_toOption hrecovered, herr, fun hjudges => ?_⟩
    rw [hjudges.accepts ⟨rfl, rfl⟩ ⟨rfl, rfl⟩] at hvalid
    cases hvalid
  · obtain ⟨recovered, hrecovered, htest⟩ := Run.exists_of_any hother
    obtain ⟨herr, hvalid⟩ := of_decide_eq_true htest
    refine ⟨recovered, ok_of_toOption hrecovered, herr, fun hjudges => ?_⟩
    rw [hjudges.rejects (fun hsame => absurd hsame.1 (by decide))] at hvalid
    cases hvalid

/-- Within the millisecond the unchanged engine is judged. -/
theorem verdict_within_a_millisecond : ∃ recovered,
      recoverFrom (tradedEngine 1) (tradedEngine 1) = .ok recovered ∧
      JudgesState (tradedEngine 1) (tradedEngine 1) recovered.result.isValid := by
  have hrun : (recoverFrom (tradedEngine 1) (tradedEngine 1)).toOption.any (fun recovered =>
      recovered.err = none) = true := by
    decide +kernel
  obtain ⟨recovered, hrecovered, htest⟩ := Run.exists_of_any hrun
  have hok := ok_of_toOption hrecovered
  refine ⟨recovered, hok, ?_⟩
  refine (judgesState_iff_alike Function.injective_id hok (of_decide_eq_true htest) rfl
    (checkpointNode_latest _) ⟨rfl, rfl, rfl⟩ rfl).mpr ⟨fun _ _ => ⟨rfl, rfl⟩, ?_⟩
  intro hother
  exact absurd ⟨rfl, rfl⟩ hother

end CexHertz
