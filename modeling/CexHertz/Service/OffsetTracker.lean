import CexHertz.Lib.MachineInt
import CexHertz.Service.CheckpointFlush
import Mathlib.Data.List.Pairwise

/-!
# Tracking Kafka offsets

`kafka_offset_tracker.go`: the highest consumed offset and the offset committed last, after which a
recovery resumes. A commit takes whatever offset it is given, so the place to resume from can fall
back; and 0 stands both for the first record and for none.
-/

namespace CexHertz

open List

structure OffsetTracker where
  symbol : String
  processorName : String
  consumedOffset : Int
  committedOffset : Int
  lastCommitTime : Int
  commitCount : Int
  commitFailureCount : Int

open OffsetTracker

def newOffsetTracker (symbol processorName : String) (now : Int) : OffsetTracker where
  symbol := symbol
  processorName := processorName
  consumedOffset := 0
  committedOffset := 0
  lastCommitTime := now
  commitCount := 0
  commitFailureCount := 0

namespace OffsetTracker

variable (t : OffsetTracker)

def trackConsumedOffset (offset : Int) : OffsetTracker :=
  if t.consumedOffset < offset then { t with consumedOffset := offset } else t

def checkpoint (offset : Int) (eventSeq : Nat) (now : Int) : EventOffsetCheckpoint where
  processorName := t.processorName
  symbol := t.symbol
  eventSeq := eventSeq
  kafkaOffset := offset
  partitionID := 0
  timestamp := now
  stateChecksum := ""
  orderCount := 0
  tradeCount := 0

/-- `CommitOffset`: the tracker and the table afterwards, and the error. -/
def commitOffset (rows : List CheckpointRow) (input : WriteInput) (offset : Int) (eventSeq : Nat) :
    OffsetTracker × List CheckpointRow × Option String :=
  if t.consumedOffset < offset then
    (t, rows, some ("cannot commit offset " ++ toString offset ++ " > consumedOffset " ++
      toString t.consumedOffset))
  else
    match saveCheckpoint rows input (t.checkpoint offset eventSeq input.now) with
    | .error err =>
      ({ t with commitFailureCount := t.commitFailureCount + 1 }, rows,
        some ("save checkpoint failed: " ++ err))
    | .ok rows =>
      ({ t with
        committedOffset := offset
        lastCommitTime := input.now
        commitCount := t.commitCount + 1 }, rows, none)

def getRecoveryStartOffset : Int := wrapInt64 (t.committedOffset + 1)

variable {t} {committed : Int}

theorem start_eq (h : t.committedOffset = committed) (hnonneg : 0 ≤ committed)
    (hlt : committed < 2 ^ 63 - 1) : t.getRecoveryStartOffset = committed + 1 := by
  unfold getRecoveryStartOffset
  rw [h]
  exact Int.bmod_eq_of_le (by omega) (by omega)

theorem start_wraps (h : t.committedOffset = 2 ^ 63 - 1) : t.getRecoveryStartOffset = -2 ^ 63 := by
  unfold getRecoveryStartOffset
  rw [h]
  decide

end OffsetTracker

inductive OffsetCall where
  | track (offset : Int)
  | commit (offset : Int) (eventSeq : Nat) (input : WriteInput)

def OffsetCall.offset : OffsetCall → Int
  | track offset => offset
  | commit offset _ _ => offset

structure OffsetSession where
  tracker : OffsetTracker
  rows : List CheckpointRow

namespace OffsetSession

variable (s : OffsetSession)

def call : OffsetCall → OffsetSession
  | .track offset => { s with tracker := s.tracker.trackConsumedOffset offset }
  | .commit offset eventSeq input =>
    let (tracker, rows, _) := s.tracker.commitOffset s.rows input offset eventSeq
    ⟨tracker, rows⟩

def run (calls : List OffsetCall) : OffsetSession := calls.foldl call s

def storedOffset : Option Int :=
  (Table.row CheckpointRow.pair (s.tracker.processorName, s.tracker.symbol) s.rows).map fun row =>
    row.checkpoint.kafkaOffset

def NeverFallsBack : OffsetSession → List OffsetCall → Prop
  | _, [] => True
  | s, c :: rest =>
    s.tracker.getRecoveryStartOffset ≤ (s.call c).tracker.getRecoveryStartOffset ∧
      (s.call c).NeverFallsBack rest

end OffsetSession

def CheckpointSaves (processorName symbol : String) (input : WriteInput) : Prop :=
  processorName ≠ "" ∧ symbol ≠ "" ∧ input.fault = none

instance (processorName symbol : String) (input : WriteInput) :
    Decidable (CheckpointSaves processorName symbol input) :=
  inferInstanceAs (Decidable (_ ∧ _ ∧ _))

/-- The offsets that calls commit after `consumed` was consumed: those that are not above what has
been consumed until then and whose save goes through. -/
def committedOffsets (processorName symbol : String) (consumed : Int) : List OffsetCall → List Int
  | [] => []
  | .track offset :: rest => committedOffsets processorName symbol (max consumed offset) rest
  | .commit offset _ input :: rest =>
    if offset ≤ consumed ∧ CheckpointSaves processorName symbol input then
      offset :: committedOffsets processorName symbol consumed rest
    else committedOffsets processorName symbol consumed rest

section

variable {input : WriteInput} (rows : List CheckpointRow) (cp : EventOffsetCheckpoint)

theorem saveCheckpoint_ok (h : CheckpointSaves cp.processorName cp.symbol input) :
    ∃ rows', saveCheckpoint rows input cp = .ok rows' := by
  obtain ⟨hname, hsymbol, hfault⟩ := h
  unfold saveCheckpoint
  rw [if_neg (by rintro (h | h); exacts [hname h, hsymbol h]), hfault]
  dsimp only
  split <;> exact ⟨_, rfl⟩

theorem saveCheckpoint_error (h : ¬ CheckpointSaves cp.processorName cp.symbol input) :
    ∃ err, saveCheckpoint rows input cp = .error err := by
  unfold saveCheckpoint
  split
  next => exact ⟨_, rfl⟩
  next hnames =>
    rw [not_or] at hnames
    cases hfault : input.fault with
    | some err => exact ⟨err, rfl⟩
    | none => exact absurd ⟨hnames.1, hnames.2, hfault⟩ h

end

namespace OffsetSession

/-- The place to resume from never falls back; in the end it is 0 if nothing was committed, and else
the place after the largest committed offset, which is also the stored one. -/
def ResumesAfterLargest (s : OffsetSession) (committed : List Int) (calls : List OffsetCall) :
    Prop :=
  s.NeverFallsBack calls ∧
  (committed = [] → (s.run calls).tracker.getRecoveryStartOffset = 0) ∧
  ∀ largest ∈ committed, (∀ offset ∈ committed, offset ≤ largest) →
    (s.run calls).tracker.getRecoveryStartOffset = largest + 1 ∧
      (s.run calls).storedOffset = some largest

/-! ## One call -/

variable {s : OffsetSession} {offset : Int} {input : WriteInput}

structure Marks (s : OffsetSession) (processorName symbol : String) (consumed committed : Int) :
    Prop where
  processorName : s.tracker.processorName = processorName
  symbol : s.tracker.symbol = symbol
  consumed : s.tracker.consumedOffset = consumed
  committed : s.tracker.committedOffset = committed

variable {processorName symbol : String} {consumed committed : Int}

theorem Marks.track (h : s.Marks processorName symbol consumed committed) (offset : Int) :
    (s.call (.track offset)).Marks processorName symbol (max consumed offset) committed ∧
      (s.call (.track offset)).storedOffset = s.storedOffset := by
  unfold call trackConsumedOffset
  dsimp only
  rw [h.consumed]
  split
  next hlt => exact ⟨⟨h.processorName, h.symbol, by dsimp only; omega, h.committed⟩, rfl⟩
  next hle => exact ⟨⟨h.processorName, h.symbol, by rw [h.consumed]; omega, h.committed⟩, rfl⟩

theorem Marks.commit (h : s.Marks processorName symbol consumed committed) (eventSeq : Nat)
    (hle : offset ≤ consumed) (hsaves : CheckpointSaves processorName symbol input) :
    (s.call (.commit offset eventSeq input)).Marks processorName symbol consumed offset ∧
      (s.call (.commit offset eventSeq input)).storedOffset = some offset := by
  obtain ⟨rows, hrows⟩ := saveCheckpoint_ok s.rows
    (s.tracker.checkpoint offset eventSeq input.now) (h.processorName ▸ h.symbol ▸ hsaves)
  have hstored := (row_saveCheckpoint hrows EventOffsetCheckpoint.kafkaOffset
    (s.tracker.processorName, s.tracker.symbol)).trans (if_pos rfl)
  unfold call commitOffset
  dsimp only
  rw [if_neg (by rw [h.consumed]; omega), hrows]
  exact ⟨⟨h.processorName, h.symbol, h.consumed, rfl⟩, hstored⟩

theorem Marks.commit_refused (h : s.Marks processorName symbol consumed committed) (eventSeq : Nat)
    (hrefused : ¬ (offset ≤ consumed ∧ CheckpointSaves processorName symbol input)) :
    (s.call (.commit offset eventSeq input)).Marks processorName symbol consumed committed ∧
      (s.call (.commit offset eventSeq input)).storedOffset = s.storedOffset := by
  unfold call commitOffset
  dsimp only
  rw [h.consumed]
  split
  next => exact ⟨h, rfl⟩
  next hle =>
    obtain ⟨err, herr⟩ := saveCheckpoint_error s.rows
      (s.tracker.checkpoint offset eventSeq input.now)
      (h.processorName ▸ h.symbol ▸ fun hsaves => hrefused ⟨by omega, hsaves⟩)
    rw [herr]
    exact ⟨⟨h.processorName, h.symbol, rfl, h.committed⟩, rfl⟩

def fresh (symbol processorName : String) (now : Int) (rows : List CheckpointRow) : OffsetSession :=
  ⟨newOffsetTracker symbol processorName now, rows⟩

theorem fresh_marks (symbol processorName : String) (now : Int) (rows : List CheckpointRow) :
    (fresh symbol processorName now rows).Marks processorName symbol 0 0 :=
  ⟨rfl, rfl, rfl, rfl⟩

/-! ## Runs of calls -/

section

variable {calls : List OffsetCall}

theorem Marks.run (h : s.Marks processorName symbol consumed committed) :
    (s.run calls).tracker.committedOffset =
        (committedOffsets processorName symbol consumed calls).getLast?.getD committed ∧
      (s.run calls).storedOffset =
        (committedOffsets processorName symbol consumed calls).getLast?.or s.storedOffset := by
  induction calls generalizing s consumed committed with
  | nil => exact ⟨h.committed, rfl⟩
  | cons c rest ih =>
    unfold OffsetSession.run at ih ⊢
    rw [foldl_cons]
    cases c with
    | track offset =>
      obtain ⟨hmarks, hstored⟩ := h.track offset
      rw [← hstored]
      exact ih hmarks
    | commit offset eventSeq input =>
      unfold committedOffsets
      split
      next hok =>
        obtain ⟨hmarks, hstored⟩ := h.commit eventSeq hok.1 hok.2
        obtain ⟨hcommitted, hrow⟩ := ih hmarks
        rw [hcommitted, hrow, hstored, List.getLast?_cons]
        cases (committedOffsets processorName symbol consumed rest).getLast? <;> exact ⟨rfl, rfl⟩
      next hrefused =>
        obtain ⟨hmarks, hstored⟩ := h.commit_refused eventSeq hrefused
        rw [← hstored]
        exact ih hmarks

/-- The place to resume from falls back exactly when a commit goes below the one before, or has no
place after it. -/
theorem Marks.neverFallsBack_iff (h : s.Marks processorName symbol consumed committed)
    (hnonneg : 0 ≤ committed) (hlt : committed < 2 ^ 63 - 1)
    (hcalls : ∀ c ∈ calls, 0 ≤ c.offset ∧ c.offset < 2 ^ 63) :
    s.NeverFallsBack calls ↔
      (committed :: committedOffsets processorName symbol consumed calls).IsChain (· ≤ ·) ∧
        ∀ offset ∈ committedOffsets processorName symbol consumed calls, offset < 2 ^ 63 - 1 := by
  induction calls generalizing s consumed committed with
  | nil => simp [NeverFallsBack, committedOffsets]
  | cons c rest ih =>
    have hrest := fun c hc => hcalls c (.tail _ hc)
    unfold NeverFallsBack
    rw [start_eq h.committed hnonneg hlt]
    cases c with
    | track offset =>
      have hmarks := (h.track offset).1
      rw [start_eq hmarks.committed hnonneg hlt, ih hmarks hnonneg hlt hrest]
      exact and_iff_right (le_refl _)
    | commit offset eventSeq input =>
      have hoffset := hcalls _ mem_cons_self
      unfold committedOffsets
      split
      next hok =>
        have hmarks := (h.commit eventSeq hok.1 hok.2).1
        rw [isChain_cons_cons, forall_mem_cons]
        by_cases hwraps : offset < 2 ^ 63 - 1
        · rw [start_eq hmarks.committed hoffset.1 hwraps, ih hmarks hoffset.1 hwraps hrest]
          have hle : committed + 1 ≤ offset + 1 ↔ committed ≤ offset := by omega
          tauto
        · have hbelow : offset < 2 ^ 63 := hoffset.2
          have hmax : offset = 2 ^ 63 - 1 := by omega
          subst hmax
          rw [start_wraps hmarks.committed]
          constructor
          · intro hback
            omega
          · intro hback
            exact absurd hback.2.1 (by decide)
      next hrefused =>
        have hmarks := (h.commit_refused eventSeq hrefused).1
        rw [start_eq hmarks.committed hnonneg hlt, ih hmarks hnonneg hlt hrest]
        exact and_iff_right (le_refl _)

theorem exists_call_of_mem_committedOffsets {offset : Int}
    (h : offset ∈ committedOffsets processorName symbol consumed calls) :
    ∃ c ∈ calls, c.offset = offset := by
  induction calls generalizing consumed with
  | nil => cases h
  | cons c rest ih =>
    have hlater : ∀ consumed, offset ∈ committedOffsets processorName symbol consumed rest →
        ∃ c' ∈ c :: rest, c'.offset = offset := by
      intro consumed h
      obtain ⟨c', hc', hoffset⟩ := ih h
      exact ⟨c', .tail _ hc', hoffset⟩
    cases c with
    | track o => exact hlater _ h
    | commit o eventSeq input =>
      unfold committedOffsets at h
      split at h
      next =>
        rcases List.mem_cons.mp h with rfl | h
        · exact ⟨_, mem_cons_self, rfl⟩
        · exact hlater _ h
      next => exact hlater _ h

end

/-- The offset 0 is both the first record and the mark of a fresh tracker, so that a tracker without
a commit resumes after a record it has not committed; and a commit is not compared with the one
before it. -/
theorem resumesAfterLargest_iff_committed_in_order (symbol processorName : String) (now : Int)
    (rows : List CheckpointRow) (calls : List OffsetCall)
    (hcalls : ∀ c ∈ calls, 0 ≤ c.offset ∧ c.offset < 2 ^ 63) :
    let committed := committedOffsets processorName symbol 0 calls
    (fresh symbol processorName now rows).ResumesAfterLargest committed calls ↔
      committed ≠ [] ∧ committed.Pairwise (· ≤ ·) ∧ ∀ offset ∈ committed, offset < 2 ^ 63 - 1 := by
  intro committed
  have hmarks := fresh_marks symbol processorName now rows
  have hback := hmarks.neverFallsBack_iff (le_refl 0) (by decide) hcalls
  obtain ⟨hend, hstored⟩ : _ = committed.getLast?.getD 0 ∧ _ = committed.getLast?.or _ :=
    hmarks.run
  have hnonneg : ∀ offset ∈ committed, 0 ≤ offset := by
    intro offset hoffset
    obtain ⟨c, hc, rfl⟩ := exists_call_of_mem_committedOffsets hoffset
    exact (hcalls c hc).1
  rw [isChain_iff_pairwise, pairwise_cons, and_iff_right hnonneg] at hback
  constructor
  · rintro ⟨hnever, hzero, -⟩
    refine ⟨fun hnil => ?_, hback.mp hnever⟩
    rw [hnil] at hend
    have hstart := hzero hnil
    rw [start_eq hend (by decide) (by decide)] at hstart
    exact absurd hstart (by decide)
  · rintro ⟨hne, hordered, hlt⟩
    refine ⟨hback.mpr ⟨hordered, hlt⟩, fun hnil => absurd hnil hne, ?_⟩
    intro largest hmem hlargest
    have hlast : committed.getLast hne = largest :=
      le_antisymm (hlargest _ (getLast_mem hne)) (hordered.rel_getLast hmem)
    rw [List.getLast?_eq_some_getLast hne, hlast] at hend hstored
    exact ⟨start_eq hend (hnonneg _ hmem) (hlt _ hmem), hstored⟩

def commitsInOrder : List OffsetCall :=
  [.track 5, .commit 3 3 ⟨1, none⟩, .commit 5 5 ⟨2, none⟩]

def commitsOutOfOrder : List OffsetCall :=
  [.track 5, .commit 5 5 ⟨1, none⟩, .commit 3 3 ⟨2, none⟩]

theorem commitsInOrder_resume : (fresh "BTCUSDT" "settler" 0 []).ResumesAfterLargest
      (committedOffsets "settler" "BTCUSDT" 0 commitsInOrder) commitsInOrder :=
  (resumesAfterLargest_iff_committed_in_order "BTCUSDT" "settler" 0 [] commitsInOrder
    (by decide)).mpr (by decide)

/-- Without a commit the recovery resumes at the second record; and after the commits 5 and 3 it
resumes at 4 again, with 3 in the table. -/
theorem commitsOutOfOrder_fall_back : ¬ (fresh "BTCUSDT" "settler" 0 []).ResumesAfterLargest
        (committedOffsets "settler" "BTCUSDT" 0 []) [] ∧
      ¬ (fresh "BTCUSDT" "settler" 0 []).ResumesAfterLargest
        (committedOffsets "settler" "BTCUSDT" 0 commitsOutOfOrder) commitsOutOfOrder ∧
      (fresh "BTCUSDT" "settler" 0 []).tracker.getRecoveryStartOffset = 1 ∧
      ((fresh "BTCUSDT" "settler" 0 []).run commitsOutOfOrder).tracker.getRecoveryStartOffset = 4 ∧
      ((fresh "BTCUSDT" "settler" 0 []).run commitsOutOfOrder).storedOffset = some 3 := by
  refine ⟨fun h => ?_, fun h => ?_, by decide, by decide, by decide⟩
  · exact absurd (h.2.1 rfl) (by decide)
  · exact absurd (h.2.2 5 (by decide) (by decide)).1 (by decide)

end OffsetSession

end CexHertz
