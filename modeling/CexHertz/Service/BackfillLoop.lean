import CexHertz.Lib.Loop
import CexHertz.Service.BackfillPositions

/-!
# The batch loop of the backfill

The loop of `main` in `cmd/migrate/backfill_positions.go` with its flags, while nobody else writes.
It ends only when a query finds no row. A dry run queries the same batch forever, and the check of
`maxRows` breaks out of the rows of one batch only.
-/

namespace CexHertz

open List Option

open Rows (view)

structure BackfillArgs where
  batch : Nat
  dryRun : Bool
  maxRows : Int
  batch_pos : 0 < batch

structure BackfillLoop where
  rows : Nat → Option PositionRow
  checkpoint : Int
  lastID : Int
  processed : Nat

structure BackfillBatch where
  processed : Nat
  maxProcessedID : Int
  writes : List (Nat × PositionRow)

namespace BackfillBatch

def update (pp : PositionProcessor) (args : BackfillArgs) (rows : Nat → Option PositionRow)
    (b : BackfillBatch) (r : PosRow) : BackfillBatch :=
  let vol := parseOrZero (Model.parseQuantity pp.conv) r.volume
  let avg := parseOrZero (Model.parsePrice pp.conv) r.avgPrice
  { processed := b.processed + 1
    maxProcessedID := max b.maxProcessedID r.id
    writes :=
      if args.dryRun then b.writes
      else
        -- only a row that is still unfilled is updated
        match rows r.id with
        | some row => if row.Unfilled then (r.id, row.fill vol avg) :: b.writes else b.writes
        | none => b.writes }

/-- The loop over the rows of a batch; `fails` are the ids whose update fails, which is logged. -/
def updateRows (pp : PositionProcessor) (args : BackfillArgs) (rows : Nat → Option PositionRow)
    (fails : Nat → Bool) (b : BackfillBatch) : List PosRow → BackfillBatch
  | [] => b
  | r :: rest =>
    if 0 < args.maxRows ∧ args.maxRows ≤ b.processed then b
    else if args.dryRun = false ∧ fails r.id then b.updateRows pp args rows fails rest
    else (b.update pp args rows r).updateRows pp args rows fails rest

end BackfillBatch

namespace BackfillLoop

def start (rows : Nat → Option PositionRow) (checkpoint : Int) : BackfillLoop where
  rows := rows
  checkpoint := checkpoint
  lastID := checkpoint
  processed := 0

def turn (pp : PositionProcessor) (args : BackfillArgs) (n : Nat) (fails : Nat → Bool)
    (s : BackfillLoop) : Option BackfillLoop :=
  match (toFill s.rows n s.lastID).take args.batch with
  | [] => none
  | r :: rest =>
    let b := BackfillBatch.updateRows pp args s.rows fails ⟨s.processed, s.lastID, []⟩ (r :: rest)
    let s := { s with rows := view s.rows b.writes, processed := b.processed }
    if args.dryRun = false ∧ s.lastID < b.maxProcessedID then
      some { s with checkpoint := b.maxProcessedID, lastID := b.maxProcessedID }
    else some s

def noFailures (_ : Nat) : Bool := false

/-- When nothing fails, the loop ends after finitely many turns, with at most `maxRows` rows
processed. -/
def Finishes (pp : PositionProcessor) (args : BackfillArgs) (n : Nat) (s : BackfillLoop) : Prop :=
  ∃ last, Loop.Halts (turn pp args n noFailures) s last ∧
    (0 < args.maxRows → (last.processed : Int) ≤ args.maxRows)

end BackfillLoop

open BackfillBatch BackfillLoop

/-! ## Rows to fill -/

section

variable {rows rows' : Nat → Option PositionRow} {n : Nat} {lastID lastID' : Int}

theorem toFill_later (hle : lastID ≤ lastID')
    (hsame : ∀ id : Nat, lastID' < id → rows' id = rows id) :
    toFill rows' n lastID' = (toFill rows n lastID).filter fun e => lastID' < e.id := by
  unfold toFill
  rw [filter_filterMap]
  apply filterMap_congr
  intro id _
  by_cases hid : lastID' < id
  · rw [hsame id hid]
    cases rows id with
    | none => rfl
    | some r =>
      rw [bind_some, bind_some]
      by_cases hunfilled : r.Unfilled
      · rw [if_pos ⟨hid, hunfilled⟩, if_pos ⟨by omega, hunfilled⟩, filter_some,
          if_pos (decide_eq_true hid)]
      · rw [if_neg fun h => hunfilled h.2, if_neg fun h => hunfilled h.2]
        rfl
  · have hnone : ((rows' id).bind fun r =>
        if lastID' < id ∧ r.Unfilled then some (PosRow.mk id r.volume r.avgPrice) else none) =
          none :=
      bind_eq_none_iff.mpr fun r _ => if_neg fun h => hid h.1
    rw [hnone, eq_comm, filter_eq_none_iff]
    intro e he
    obtain ⟨r, -, he⟩ := bind_eq_some_iff.mp he
    rw [ite_none_right_eq_some] at he
    cases he.2
    rwa [decide_eq_true_eq]

theorem lastID_lt_of_mem_toFill {e : PosRow} (h : e ∈ toFill rows n lastID) : lastID < e.id := by
  obtain ⟨r, -, -, hlt, -⟩ := mem_toFill.mp h
  exact hlt

theorem filter_after_eq_drop {l : List PosRow} {k : Nat} {id : Int}
    (hbefore : ∀ e ∈ l.take k, (e.id : Int) ≤ id) (hafter : ∀ e ∈ l.drop k, id < e.id) :
    (l.filter fun e => id < e.id) = l.drop k := by
  conv_lhs => rw [← take_append_drop k l]
  rw [filter_append, filter_eq_nil_iff.mpr, nil_append, filter_eq_self.mpr]
  · exact fun e he => decide_eq_true (hafter e he)
  · intro e he
    rw [decide_eq_true_eq]
    exact not_lt.mpr (hbefore e he)

end

/-! ## A batch -/

def BackfillArgs.within (args : BackfillArgs) (processed : Nat) (l : List PosRow) : List PosRow :=
  if 0 < args.maxRows then l.take (args.maxRows - processed).toNat else l

theorem BackfillArgs.within_prefix (args : BackfillArgs) (processed : Nat) (l : List PosRow) :
    args.within processed l <+: l := by
  unfold within
  split
  next => exact take_prefix _ l
  next => exact prefix_rfl

namespace BackfillBatch

variable {pp : PositionProcessor} {args : BackfillArgs} {rows : Nat → Option PositionRow}

theorem updateRows_eq (b : BackfillBatch) (l : List PosRow) :
    b.updateRows pp args rows noFailures l =
      (args.within b.processed l).foldl (fun b r => b.update pp args rows r) b := by
  induction l generalizing b with
  | nil =>
    unfold BackfillArgs.within
    rw [take_nil, ite_self]
    rfl
  | cons r rest ih =>
    unfold updateRows
    split
    next hfull =>
      have hnone : args.within b.processed (r :: rest) = [] := by
        unfold BackfillArgs.within
        rw [if_pos hfull.1, show (args.maxRows - b.processed).toNat = 0 by omega]
        rfl
      rw [hnone]
      rfl
    next hroom =>
      have hcons : args.within b.processed (r :: rest) =
          r :: args.within (b.update pp args rows r).processed rest := by
        unfold BackfillArgs.within update
        split
        next hmax =>
          rw [show (args.maxRows - b.processed).toNat =
            (args.maxRows - (b.processed + 1 : Nat)).toNat + 1 by omega]
          rfl
        next => rfl
      rw [if_neg fun h => Bool.false_ne_true h.2, hcons, foldl_cons]
      exact ih _

structure Did (args : BackfillArgs) (b : BackfillBatch) (l : List PosRow) (b' : BackfillBatch) :
    Prop where
  processed : b'.processed = b.processed + l.length
  max_le : b.maxProcessedID ≤ b'.maxProcessedID
  le_max : ∀ e ∈ l, (e.id : Int) ≤ b'.maxProcessedID
  max_mem : b'.maxProcessedID = b.maxProcessedID ∨ ∃ e ∈ l, b'.maxProcessedID = e.id
  writes : ∀ id ∈ b'.writes.map Prod.fst, id ∈ b.writes.map Prod.fst ∨ id ∈ l.map PosRow.id
  dry : args.dryRun = true → b'.writes = b.writes

theorem did_update (b : BackfillBatch) (r : PosRow) : b.Did args [r] (b.update pp args rows r) where
  processed := rfl
  max_le := le_max_left _ _
  le_max := by
    intro e he
    rw [mem_singleton.mp he]
    exact le_max_right _ _
  max_mem := by
    rcases max_choice b.maxProcessedID r.id with h | h
    · exact .inl h
    · exact .inr ⟨r, mem_singleton_self r, h⟩
  writes := by
    intro id hid
    unfold update at hid
    split at hid
    next => exact .inl hid
    next =>
      split at hid
      next row _ =>
        split at hid
        next =>
          rw [map_cons, mem_cons] at hid
          rcases hid with rfl | hid
          · exact .inr (mem_map.mpr ⟨r, mem_singleton_self r, rfl⟩)
          · exact .inl hid
        next => exact .inl hid
      next => exact .inl hid
  dry hdry := by
    exact if_pos hdry

theorem Did.trans {b b' b'' : BackfillBatch} {l l' : List PosRow} (h : b.Did args l b')
    (h' : b'.Did args l' b'') : b.Did args (l ++ l') b'' where
  processed := by
    rw [h'.processed, h.processed, length_append]
    omega
  max_le := h.max_le.trans h'.max_le
  le_max := by
    intro e he
    rcases mem_append.mp he with he | he
    · exact (h.le_max e he).trans h'.max_le
    · exact h'.le_max e he
  max_mem := by
    rcases h'.max_mem with hsame | ⟨e, he, hmax⟩
    · rw [hsame]
      rcases h.max_mem with hsame | ⟨e, he, hmax⟩
      · exact .inl hsame
      · exact .inr ⟨e, mem_append_left _ he, hmax⟩
    · exact .inr ⟨e, mem_append_right _ he, hmax⟩
  writes := by
    intro id hid
    rw [map_append, mem_append]
    rcases h'.writes id hid with hid | hid
    · rcases h.writes id hid with hid | hid
      · exact .inl hid
      · exact .inr (.inl hid)
    · exact .inr (.inr hid)
  dry hdry := (h'.dry hdry).trans (h.dry hdry)

theorem did_foldl (b : BackfillBatch) (l : List PosRow) :
    b.Did args l (l.foldl (fun b r => b.update pp args rows r) b) := by
  induction l generalizing b with
  | nil => exact ⟨rfl, le_refl _, nofun, .inl rfl, fun id hid => .inl hid, fun _ => rfl⟩
  | cons r rest ih => exact (b.did_update r).trans (ih _)

theorem did_updateRows (pp : PositionProcessor) (args : BackfillArgs)
    (rows : Nat → Option PositionRow) (b : BackfillBatch) (l : List PosRow) :
    b.Did args (args.within b.processed l) (b.updateRows pp args rows noFailures l) := by
  rw [updateRows_eq]
  exact did_foldl b _

end BackfillBatch

/-! ## A turn -/

namespace BackfillLoop

variable {pp : PositionProcessor} {args : BackfillArgs} {n : Nat} {s s' : BackfillLoop}

def done (args : BackfillArgs) (n : Nat) (s : BackfillLoop) : List PosRow :=
  args.within s.processed ((toFill s.rows n s.lastID).take args.batch)

theorem done_eq_take (args : BackfillArgs) (n : Nat) (s : BackfillLoop) :
    s.done args n = (toFill s.rows n s.lastID).take (s.done args n).length :=
  prefix_iff_eq_take.mp ((args.within_prefix _ _).trans ( take_prefix _ _))

theorem turn_eq_none_iff : s.turn pp args n noFailures = none ↔ toFill s.rows n s.lastID = [] := by
  have hpos := args.batch_pos
  unfold turn
  cases htake : (toFill s.rows n s.lastID).take args.batch with
  | nil =>
    rcases take_eq_nil_iff.mp htake with h | h
    · omega
    · exact iff_of_true rfl h
  | cons r rest =>
    dsimp only
    constructor
    · intro h
      split at h <;> cases h
    · intro h
      rw [h, take_nil] at htake
      cases htake

theorem turn_eq_some (h : s.turn pp args n noFailures = some s') :
    ∃ b, BackfillBatch.Did args ⟨s.processed, s.lastID, []⟩ (s.done args n) b ∧
      s'.rows = view s.rows b.writes ∧ s'.processed = b.processed ∧
      s'.lastID = if args.dryRun = false ∧ s.lastID < b.maxProcessedID then b.maxProcessedID
        else s.lastID := by
  unfold turn at h
  unfold done
  split at h
  next => cases h
  next r rest htake =>
    rw [htake]
    refine ⟨_, did_updateRows pp args s.rows _ _, ?_⟩
    dsimp only at h
    split at h
    next hmoves =>
      cases h
      rw [if_pos hmoves]
      exact ⟨rfl, rfl, rfl⟩
    next hstays =>
      cases h
      rw [if_neg hstays]
      exact ⟨rfl, rfl, rfl⟩

theorem turn_dry (hdry : args.dryRun = true) (h : s.turn pp args n noFailures = some s') :
    toFill s'.rows n s'.lastID = toFill s.rows n s.lastID := by
  obtain ⟨b, hdid, hrows, -, hlast⟩ := turn_eq_some h
  rw [hdry, if_neg fun h => absurd h.1 (by decide)] at hlast
  rw [hrows, hlast, hdid.dry hdry]
  rfl

theorem turn_write (hdry : args.dryRun = false) (h : s.turn pp args n noFailures = some s') :
    s'.processed = s.processed + (s.done args n).length ∧
      toFill s'.rows n s'.lastID = (toFill s.rows n s.lastID).drop (s.done args n).length := by
  obtain ⟨b, hdid, hrows, hprocessed, hlast⟩ := turn_eq_some h
  refine ⟨hprocessed.trans hdid.processed, ?_⟩
  have htake := done_eq_take args n s
  have hsorted := toFill_sorted s.rows n s.lastID
  have hmoved : s'.lastID = b.maxProcessedID := by
    have hle : s.lastID ≤ b.maxProcessedID := hdid.max_le
    rw [hlast]
    split
    next => rfl
    next hstays =>
      have hge : ¬ s.lastID < b.maxProcessedID := fun hlt => hstays ⟨hdry, hlt⟩
      omega
  have huntouched : ∀ id : Nat, b.maxProcessedID < id → view s.rows b.writes id = s.rows id := by
    intro id hid
    apply Rows.view_of_not_mem
    intro hmem
    rcases hdid.writes id hmem with hmem | hmem
    · cases hmem
    · obtain ⟨e, he, rfl⟩ := mem_map.mp hmem
      have := hdid.le_max e he
      omega
  rw [hrows, hmoved, toFill_later hdid.max_le huntouched]
  apply filter_after_eq_drop
  · rw [← htake]
    exact hdid.le_max
  · intro e he
    rcases hdid.max_mem with hsame | ⟨largest, hmem, hmax⟩
    · rw [hsame]
      exact lastID_lt_of_mem_toFill (mem_of_mem_drop he)
    · rw [htake] at hmem
      rw [← take_append_drop (s.done args n).length (toFill s.rows n s.lastID)] at hsorted
      have := (pairwise_append.mp hsorted).2.2 largest hmem e he
      omega

theorem length_done (args : BackfillArgs) (n : Nat) (s : BackfillLoop) : (s.done args n).length =
      if 0 < args.maxRows then
        min (args.maxRows - s.processed).toNat (min args.batch (toFill s.rows n s.lastID).length)
      else min args.batch (toFill s.rows n s.lastID).length := by
  unfold done BackfillArgs.within
  split
  next => rw [length_take, length_take]
  next => rw [length_take]

theorem turn_write_length (hdry : args.dryRun = false) (h : s.turn pp args n noFailures = some s') :
    s'.processed + (toFill s'.rows n s'.lastID).length =
      s.processed + (toFill s.rows n s.lastID).length := by
  obtain ⟨hprocessed, hfill⟩ := turn_write hdry h
  have hle := congrArg List.length (done_eq_take args n s)
  rw [length_take] at hle
  rw [hprocessed, hfill, length_drop]
  omega

/-! ## The loop -/

theorem dryRun_never_halts (hdry : args.dryRun = true) (hfill : toFill s.rows n s.lastID ≠ [])
    (last : BackfillLoop) : ¬ Loop.Halts (turn pp args n noFailures) s last := by
  apply Loop.not_halts (I := fun s => toFill s.rows n s.lastID ≠ []) hfill
  intro a ha
  cases hturn : a.turn pp args n noFailures with
  | none => exact absurd (turn_eq_none_iff.mp hturn) ha
  | some b => exact ⟨b, rfl, by rw [turn_dry hdry hturn]; exact ha⟩

theorem limited_never_halts (hdry : args.dryRun = false) (hmax : 0 < args.maxRows)
    (hle : s.processed ≤ args.maxRows)
    (hmore : args.maxRows < s.processed + (toFill s.rows n s.lastID).length)
    (last : BackfillLoop) : ¬ Loop.Halts (turn pp args n noFailures) s last := by
  apply Loop.not_halts (I := fun s => (s.processed : Int) ≤ args.maxRows ∧
    args.maxRows < s.processed + (toFill s.rows n s.lastID).length) ⟨hle, hmore⟩
  rintro a ⟨hle, hmore⟩
  cases hturn : a.turn pp args n noFailures with
  | none =>
    rw [turn_eq_none_iff.mp hturn, length_nil] at hmore
    omega
  | some b =>
    have hsum := turn_write_length hdry hturn
    have hprocessed := (turn_write hdry hturn).1
    rw [length_done, if_pos hmax] at hprocessed
    refine ⟨b, rfl, by omega, by omega⟩

def WithinLimit (args : BackfillArgs) (n : Nat) (s : BackfillLoop) : Prop :=
  args.maxRows ≤ 0 ∨ (s.processed : Int) + (toFill s.rows n s.lastID).length ≤ args.maxRows

theorem write_finishes (pp : PositionProcessor) (hdry : args.dryRun = false)
    (hlimit : s.WithinLimit args n) : s.Finishes pp args n := by
  obtain ⟨last, hhalts, hlast⟩ : ∃ last, Loop.Halts (turn pp args n noFailures) s last ∧
      last.WithinLimit args n := by
    apply Loop.exists_halts (fun s : BackfillLoop => (toFill s.rows n s.lastID).length) hlimit
    intro a b ha hturn
    have hsum := turn_write_length hdry hturn
    have hprocessed := (turn_write hdry hturn).1
    have hbatch := args.batch_pos
    have hfill : 0 < (toFill a.rows n a.lastID).length := by
      apply length_pos_of_ne_nil
      intro hnil
      rw [turn_eq_none_iff.mpr hnil] at hturn
      cases hturn
    rw [length_done] at hprocessed
    unfold WithinLimit at ha ⊢
    split at hprocessed <;> constructor <;> omega
  exact ⟨last, hhalts, by unfold WithinLimit at hlast; omega⟩

/-- The loop ends within its limit exactly when there is nothing to fill, or in write mode with a
limit, if there is one, that is not below the rows to fill. -/
theorem finishes_iff (pp : PositionProcessor) (args : BackfillArgs)
    (rows : Nat → Option PositionRow) (n : Nat) (checkpoint : Int) :
    (start rows checkpoint).Finishes pp args n ↔ toFill rows n checkpoint = [] ∨
        (args.dryRun = false ∧
          (args.maxRows ≤ 0 ∨ ((toFill rows n checkpoint).length : Int) ≤ args.maxRows)) := by
  constructor
  · rintro ⟨last, hhalts, -⟩
    by_cases hfill : toFill rows n checkpoint = []
    · exact .inl hfill
    · cases hdry : args.dryRun with
      | true => exact absurd hhalts (dryRun_never_halts hdry hfill last)
      | false =>
        refine .inr ⟨rfl, ?_⟩
        by_contra hmore
        rw [not_or] at hmore
        refine limited_never_halts hdry (by omega) ?_ ?_ last hhalts <;>
        · dsimp only [start]
          omega
  · rintro (hnil | ⟨hdry, hmax⟩)
    · refine ⟨_, ⟨.refl, turn_eq_none_iff.mpr hnil⟩, fun hmax => ?_⟩
      dsimp only [start]
      omega
    · apply write_finishes pp hdry
      unfold WithinLimit start
      dsimp only
      omega

theorem defaultBatch_pos : 0 < 500 := by decide

def defaultArgs : BackfillArgs := ⟨500, true, 0, defaultBatch_pos⟩

def oneRowArgs : BackfillArgs := ⟨500, false, 1, defaultBatch_pos⟩

/-- One row to fill is queried forever by a dry run, the second of two by a run of one row. -/
theorem defaultRun_never_finishes :
    ¬ (start (Tables.ofRows [fiveCoinsAsText]).rows 0).Finishes amd64Processor defaultArgs 2 ∧
      ¬ (start (Tables.ofRows [fiveCoinsAsText, fiveCoinsAsText]).rows 0).Finishes amd64Processor
        oneRowArgs 3 := by
  constructor
  · rintro ⟨last, hhalts, -⟩
    exact dryRun_never_halts rfl (by decide) last hhalts
  · rintro ⟨last, hhalts, -⟩
    exact limited_never_halts rfl (by decide) (by decide) (by decide) last hhalts

end BackfillLoop

/-! ## The job alone

In write mode a turn of the loop is a query, its updates, the commit and the checkpoint of the job
among other writers, when there are none. -/

def BackfillFlags.args (flags : BackfillFlags) : BackfillArgs :=
  ⟨flags.batch, false, flags.maxRows, flags.batch_pos⟩

namespace BackfillSystem

variable {pp : PositionProcessor} {flags : BackfillFlags} {s : BackfillSystem}

def loop (s : BackfillSystem) : BackfillLoop :=
  ⟨s.tables.rows, s.checkpoint, s.job.lastID, s.job.processed⟩

def Quiet (s : BackfillSystem) : Prop := ∀ tx ∈ s.tables.txs, ¬ tx.phase.isOpen

/-- The statements of the job, none of which fails. -/
def Alone (_ : BackfillSystem) : BackfillAction → Prop
  | .query none | .update none | .commit none | .upsertCheckpoint none => True
  | _ => False

abbrev JobReaches (pp : PositionProcessor) (flags : BackfillFlags) :
    BackfillSystem → BackfillSystem → Prop :=
  Run.Reaches (step pp flags) Alone

theorem updates_reach (pp : PositionProcessor) (flags : BackfillFlags) (hquiet : s.Quiet)
    (rest : List PosRow) (b : BackfillBatch) (maxID : Nat) (hmax : b.maxProcessedID = maxID) :
    ∃ b' rest', ∃ maxID' : Nat, b.updateRows pp flags.args s.tables.rows noFailures rest = b' ∧
      b'.maxProcessedID = maxID' ∧
      JobReaches pp flags (s.setJob ⟨s.job.lastID, b.processed, .updating rest maxID b.writes⟩)
        (s.setJob ⟨s.job.lastID, b'.processed, .updating rest' maxID' b'.writes⟩) ∧
      (rest' = [] ∨ 0 < flags.maxRows ∧ flags.maxRows ≤ b'.processed) := by
  induction rest generalizing b maxID with
  | nil => exact ⟨b, [], maxID, rfl, hmax, .refl, .inl rfl⟩
  | cons r rest ih =>
    by_cases hfull : 0 < flags.args.maxRows ∧ flags.args.maxRows ≤ b.processed
    · exact ⟨b, r :: rest, maxID, if_pos hfull, hmax, .refl,
        .inr ⟨Int.natCast_pos.mp hfull.1, Int.ofNat_le.mp hfull.2⟩⟩
    · obtain ⟨b', rest', maxID', hbatch, hmax', hreach, hend⟩ :=
        ih (b.update pp flags.args s.tables.rows r) (max maxID r.id)
          (by rw [Nat.cast_max, ← hmax]; rfl)
      have hnext : b.updateRows pp flags.args s.tables.rows noFailures (r :: rest) = b' := by
        rw [updateRows, if_neg hfull, if_neg fun h => Bool.false_ne_true h.2, hbatch]
      refine ⟨b', rest', maxID', hnext, hmax',
        Run.Reaches.trans (.step (a := .update none) .refl trivial (if_neg ?_)) hreach, hend⟩
      rintro (⟨hpos, hle⟩ | ⟨tx, htx, hopen, -⟩)
      · exact hfull ⟨Int.natCast_pos.mpr hpos, Int.ofNat_le.mpr hle⟩
      · exact hquiet tx htx hopen

theorem turn_reaches (hquiet : s.Quiet) (hphase : s.job.phase = .querying) {l : BackfillLoop}
    (hturn : s.loop.turn pp flags.args s.tables.nextID noFailures = some l) :
    ∃ s', JobReaches pp flags s s' ∧ s'.loop = l ∧ s'.job.phase = .querying ∧
      s'.tables.txs = s.tables.txs ∧ s'.tables.nextID = s.tables.nextID := by
  unfold BackfillLoop.turn at hturn
  split at hturn
  next => cases hturn
  next r rest htake =>
    have hquery : step pp flags s (.query none) =
        some (s.setJob ⟨s.job.lastID, s.job.processed, .updating (r :: rest) s.job.lastID []⟩) := by
      dsimp only [loop, BackfillFlags.args] at htake
      simp only [step, hphase, htake]
    obtain ⟨b, rest', maxID, hbatch, hmax, hupdates, hend⟩ :=
      updates_reach pp flags hquiet (r :: rest) ⟨s.job.processed, s.job.lastID, []⟩ _ rfl
    have hcommit : step pp flags
        (s.setJob ⟨s.job.lastID, b.processed, .updating rest' maxID b.writes⟩) (.commit none) =
        some { s with
          tables := { s.tables with rows := view s.tables.rows b.writes }
          job := ⟨s.job.lastID, b.processed, if s.job.lastID < maxID then .checkpointing maxID
            else .querying⟩ } :=
      if_neg fun ⟨hrest, hroom⟩ => hend.elim hrest hroom
    have hreach : JobReaches pp flags s _ :=
      (Run.Reaches.trans (.step .refl (by trivial) hquery) hupdates).step (by trivial) hcommit
    dsimp only [loop] at hturn
    rw [hbatch, hmax] at hturn
    by_cases hmoves : s.job.lastID < maxID
    · rw [if_pos ⟨rfl, by omega⟩] at hturn
      cases hturn
      rw [if_pos hmoves] at hreach
      exact ⟨_, hreach.step (a := .upsertCheckpoint none) trivial rfl, rfl, rfl, rfl, rfl⟩
    · rw [if_neg fun h => hmoves (by omega)] at hturn
      cases hturn
      rw [if_neg hmoves] at hreach
      exact ⟨_, hreach, rfl, rfl, rfl, rfl⟩

theorem halts_reaches {l last : BackfillLoop} {n : Nat}
    (h : Loop.Halts (BackfillLoop.turn pp flags.args n noFailures) l last) (hl : s.loop = l)
    (hn : s.tables.nextID = n) (hquiet : s.Quiet) (hphase : s.job.phase = .querying) :
    ∃ s', JobReaches pp flags s s' ∧ s'.job.phase = .finished := by
  obtain ⟨hturns, hnone⟩ := h
  induction hturns using Relation.ReflTransGen.head_induction_on generalizing s with
  | refl =>
    subst hl hn
    have hnil := BackfillLoop.turn_eq_none_iff.mp hnone
    dsimp only [loop] at hnil
    have hquery : step pp flags s (.query none) =
        some (s.setJob { s.job with phase := .finished }) := by
      simp only [step, hphase, hnil, take_nil]
    exact ⟨_, .step .refl (by trivial) hquery, rfl⟩
  | head hturn _ ih =>
    subst hl hn
    obtain ⟨s₁, hreach, hloop, hphase₁, htxs, hnext⟩ := turn_reaches hquiet hphase hturn
    have hquiet₁ : s₁.Quiet := by
      unfold Quiet
      rwa [htxs]
    obtain ⟨s', hreach', hfinished⟩ := ih hloop hnext hquiet₁ hphase₁
    exact ⟨s', hreach.trans hreach', hfinished⟩

/-- Once no transaction is open and the limit is not below the rows left, the job finishes by its
own statements, whatever has run before, and every row is filled then. -/
theorem job_finishes {s₀ : BackfillSystem} (hstart : s₀.Start)
    (hrun : Run.Reaches (step pp flags) AfterFill s₀ s) (hquiet : s.Quiet)
    (hphase : s.job.phase = .querying) (hlimit : s.loop.WithinLimit flags.args s.tables.nextID) :
    ∃ s', Run.Reaches (step pp flags) Alone s s' ∧ s'.job.phase = .finished ∧
      ∀ id r, s'.tables.rows id = some r → r.Filled := by
  have hok : BackfillOk pp s₀ s := hrun.invariant hstart.backfillOk
    fun _ _ _ hok hallowed hstep => hok.step hallowed hstep
  obtain ⟨last, hhalts, -⟩ := BackfillLoop.write_finishes pp rfl hlimit
  obtain ⟨s', hreach, hfinished⟩ := halts_reaches hhalts rfl rfl hquiet hphase
  have hok' : BackfillOk pp s₀ s' := hreach.invariant hok fun _ a _ hok halone hstep =>
    hok.step (by cases a <;> trivial) hstep
  have hfilled := hok'.phase
  rw [hfinished] at hfilled
  exact ⟨s', hreach, hfinished, hfilled⟩

/-- Bob buys before the job fills the row of the five coins. -/
theorem toBackfill_finishes :
    ∃ s, Run.Reaches (step amd64Processor defaultFlags) AfterFill toBackfill s ∧
      s.tables.rows 1 = some fiveCoinsAsText ∧ s.tables.txs.map PositionTx.phase = [.committed] ∧
      ∃ s', Run.Reaches (step amd64Processor defaultFlags) Alone s s' ∧
        s'.job.phase = .finished ∧ ∀ id r, s'.tables.rows id = some r → r.Filled := by
  refine Run.exists_reaches
    [.tables (.begin 0 (.calls [.buy "bob" "BTC" "1.00000000" "1.00000000"])),
      .tables (.first 0 none), .tables (.write 0 none), .tables (.commit 0 none)]
    (P := fun s => s.tables.rows 1 = some fiveCoinsAsText ∧
      s.tables.txs.map PositionTx.phase = [.committed] ∧ s.job.phase = .querying)
    (by decide +kernel) fun s hreach ⟨hrow, htxs, hphase⟩ => ⟨hrow, htxs, ?_⟩
  have hquiet : s.Quiet := by
    intro tx htx
    have hcommitted := mem_map_of_mem (f := PositionTx.phase) htx
    rw [htxs, mem_singleton] at hcommitted
    rw [hcommitted]
    decide
  exact job_finishes toBackfill_start hreach hquiet hphase (.inl (le_refl _))

end BackfillSystem

end CexHertz
