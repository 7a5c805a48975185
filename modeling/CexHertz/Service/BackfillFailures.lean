import CexHertz.Service.BackfillLoop

/-!
# Bad rows and failed updates in the backfill

The batch loop of `cmd/migrate/backfill_positions.go` in write mode, with any rows and with updates
that fail: these are logged and skipped. The update writes both columns when either is NULL, a text
that is not parsed is written as zero, and the checkpoint is the largest id that succeeded. `failed`
is history.
-/

namespace CexHertz

open List BackfillBatch PositionRow Tables

open Rows (view)

/-! ## The loop with failures -/

/-- The rows of a batch that the loop comes to; only updates that succeed count as processed. -/
def BackfillArgs.attempts (args : BackfillArgs) (fails : Nat → Bool) (processed : Nat) :
    List PosRow → List PosRow
  | [] => []
  | r :: rest =>
    if 0 < args.maxRows ∧ args.maxRows ≤ processed then []
    else r :: args.attempts fails (if fails r.id then processed else processed + 1) rest

structure FailingLoop extends BackfillLoop where
  failed : List Nat

namespace FailingLoop

def start (rows : Nat → Option PositionRow) (checkpoint : Int) : FailingLoop :=
  ⟨.start rows checkpoint, []⟩

def attempts (args : BackfillArgs) (n : Nat) (fails : Nat → Bool) (s : FailingLoop) : List PosRow :=
  args.attempts fails s.processed ((toFill s.rows n s.lastID).take args.batch)

def turn (pp : PositionProcessor) (args : BackfillArgs) (n : Nat) (s : FailingLoop)
    (fails : Nat → Bool) : Option FailingLoop :=
  let failed := ((s.attempts args n fails).filter fun e => fails e.id).map PosRow.id
  (s.toBackfillLoop.turn pp args n fails).map fun loop => ⟨loop, s.failed ++ failed⟩

def run (pp : PositionProcessor) (args : BackfillArgs) (n : Nat) (s : FailingLoop) :
    List (Nat → Bool) → Option FailingLoop
  | [] => some s
  | fails :: rest => (s.turn pp args n fails).bind fun s' => s'.run pp args n rest

end FailingLoop

/-! ## What is asked of it -/

def Unreadable (parse : String → Except String Int64) (text : String) : Prop :=
  text ≠ "" ∧ ∃ err, parse text = .error err

def ColumnSound (parse : String → Except String Int64) (text : String) (column : Option Int64) :
    Prop :=
  match column with
  | some v => parseOrZero parse text = v
  | none => ¬ Unreadable parse text

def PositionRow.Sound (pp : PositionProcessor) (r : PositionRow) : Prop :=
  ColumnSound (Model.parseQuantity pp.conv) r.volume r.volumeBigint ∧
    ColumnSound (Model.parsePrice pp.conv) r.avgPrice r.avgPriceBigint

def ColumnKept (parse : String → Except String Int64) (text : String) (old new : Option Int64) :
    Prop :=
  (∀ v, old = some v → new = some v) ∧ (old = none → Unreadable parse text → new = none)

def PositionRow.Kept (pp : PositionProcessor) (r r' : PositionRow) : Prop :=
  ColumnKept (Model.parseQuantity pp.conv) r.volume r.volumeBigint r'.volumeBigint ∧
    ColumnKept (Model.parsePrice pp.conv) r.avgPrice r.avgPriceBigint r'.avgPriceBigint

/-- No data is invented or lost: every row is there with its columns kept, and the checkpoint has
not passed a row that is still unfilled because its update failed. -/
structure FailingLoop.Faithful (pp : PositionProcessor) (rows₀ : Nat → Option PositionRow)
    (s : FailingLoop) : Prop where
  kept : ∀ id r, rows₀ id = some r → ∃ r', s.rows id = some r' ∧ r.Kept pp r'
  not_passed : ∀ id ∈ s.failed, ∀ r, s.rows id = some r → r.Unfilled → s.checkpoint < id

structure FailingLoop.Clean (pp : PositionProcessor) (args : BackfillArgs) (n : Nat)
    (s : FailingLoop) (fails : Nat → Bool) : Prop where
  sound : ∀ e ∈ s.attempts args n fails, fails e.id = false → ∀ r, s.rows e.id = some r → r.Sound pp
  stops : ∀ e ∈ s.attempts args n fails, ∀ e' ∈ s.attempts args n fails, e.id < e'.id →
    fails e.id = true → fails e'.id = true

def FailingLoop.AllClean (pp : PositionProcessor) (args : BackfillArgs) (n : Nat)
    (s : FailingLoop) : List (Nat → Bool) → Prop
  | [] => True
  | fails :: rest => s.Clean pp args n fails ∧
      ∀ s', s.turn pp args n fails = some s' → s'.AllClean pp args n rest

/-! ## Columns -/

section

variable {parse : String → Except String Int64} {text : String} {column : Option Int64}

theorem columnKept_self : ColumnKept parse text column column :=
  ⟨fun _ h => h, fun h _ => h⟩

theorem columnKept_fill_iff : ColumnKept parse text column (some (parseOrZero parse text)) ↔
      ColumnSound parse text column := by
  unfold ColumnKept ColumnSound
  cases column with
  | some | none => simp

theorem PositionRow.kept_self {pp : PositionProcessor} (r : PositionRow) : r.Kept pp r :=
  ⟨columnKept_self, columnKept_self⟩

theorem PositionRow.kept_filled_iff {pp : PositionProcessor} {r : PositionRow} :
    r.Kept pp (r.filled pp) ↔ r.Sound pp :=
  and_congr columnKept_fill_iff columnKept_fill_iff

end

/-! ## A batch -/

section

variable {pp : PositionProcessor} {args : BackfillArgs} {rows : Nat → Option PositionRow}
  {fails : Nat → Bool}

theorem BackfillArgs.attempts_prefix (args : BackfillArgs) (fails : Nat → Bool) (processed : Nat)
    (l : List PosRow) : args.attempts fails processed l <+: l := by
  induction l generalizing processed with
  | nil => exact prefix_rfl
  | cons r rest ih =>
    rw [attempts]
    split
    · exact nil_prefix
    · exact cons_prefix_cons.mpr ⟨rfl, ih _⟩

theorem BackfillBatch.updateRows_eq_foldl (hwrite : args.dryRun = false) (b : BackfillBatch)
    (l : List PosRow) :
    b.updateRows pp args rows fails l =
      ((args.attempts fails b.processed l).filter fun e => !fails e.id).foldl
        (fun b r => b.update pp args rows r) b := by
  induction l generalizing b with
  | nil => rfl
  | cons r rest ih =>
    rw [updateRows, BackfillArgs.attempts]
    split
    next => rfl
    next =>
      cases hfails : fails r.id with
      | true =>
        rw [if_pos ⟨hwrite, rfl⟩, if_pos rfl, filter_cons_of_neg (by simp [hfails]), ih]
      | false =>
        rw [if_neg (by simp), if_neg (by simp), filter_cons_of_pos (by simp [hfails]),
          foldl_cons, ih]
        rfl

structure Filling (pp : PositionProcessor) (rows : Nat → Option PositionRow) (l : List PosRow)
    (writes : List (Nat × PositionRow)) : Prop where
  rows_filled : ∀ w ∈ writes, ∃ r, rows w.1 = some r ∧ w.2 = r.filled pp
  ids : ∀ id, id ∈ writes.map Prod.fst ↔ id ∈ l.map PosRow.id

theorem Filling.update (hwrite : args.dryRun = false) {b : BackfillBatch} {l : List PosRow}
    (h : Filling pp rows l b.writes) {e : PosRow} {r : PositionRow} (hr : rows e.id = some r)
    (hunfilled : r.Unfilled) (hvolume : e.volume = r.volume) (havg : e.avgPrice = r.avgPrice) :
    Filling pp rows (l ++ [e]) (b.update pp args rows e).writes := by
  have hwrites : (b.update pp args rows e).writes = (e.id, r.filled pp) :: b.writes := by
    unfold BackfillBatch.update
    dsimp only
    rw [if_neg (by simp [hwrite]), hr]
    dsimp only
    rw [if_pos hunfilled, hvolume, havg]
    rfl
  rw [hwrites]
  refine ⟨forall_mem_cons.mpr ⟨⟨r, hr, rfl⟩, h.rows_filled⟩, fun id => ?_⟩
  rw [map_cons, mem_cons, h.ids, map_append, mem_append, map_singleton, mem_singleton, or_comm]

theorem filling_foldl (hwrite : args.dryRun = false) {b : BackfillBatch} {l l' : List PosRow}
    (h : Filling pp rows l b.writes)
    (hl' : ∀ e ∈ l', ∃ r, rows e.id = some r ∧ r.Unfilled ∧ e.volume = r.volume ∧
      e.avgPrice = r.avgPrice) :
    Filling pp rows (l ++ l') (l'.foldl (fun b r => b.update pp args rows r) b).writes := by
  induction l' generalizing b l with
  | nil =>
    rwa [append_nil]
  | cons e rest ih =>
    obtain ⟨⟨r, hr, hunfilled, hvolume, havg⟩, hrest⟩ := forall_mem_cons.mp hl'
    have hnext := ih (h.update hwrite hr hunfilled hvolume havg) hrest
    rwa [append_assoc] at hnext

theorem Filling.view_of_mem {l : List PosRow} {writes : List (Nat × PositionRow)}
    (h : Filling pp rows l writes) {id : Nat} (hid : id ∈ l.map PosRow.id) {r : PositionRow}
    (hr : rows id = some r) : view rows writes id = some (r.filled pp) := by
  obtain ⟨new, hmem, hview⟩ := Rows.view_of_mem ((h.ids id).mpr hid)
  obtain ⟨old, hold, heq⟩ := h.rows_filled _ hmem
  dsimp only at hold heq
  rw [hr] at hold
  cases hold
  rw [hview, heq]

theorem Filling.view_of_not_mem {l : List PosRow} {writes : List (Nat × PositionRow)}
    (h : Filling pp rows l writes) {id : Nat} (hid : id ∉ l.map PosRow.id) :
    view rows writes id = rows id :=
  Rows.view_of_not_mem fun hmem => hid ((h.ids id).mp hmem)

end

/-! ## A turn -/

namespace FailingLoop

variable {pp : PositionProcessor} {args : BackfillArgs} {n : Nat} {s s' : FailingLoop}
  {fails : Nat → Bool}

def updated (args : BackfillArgs) (n : Nat) (fails : Nat → Bool) (s : FailingLoop) : List PosRow :=
  (s.attempts args n fails).filter fun e => !fails e.id

structure Did (pp : PositionProcessor) (args : BackfillArgs) (n : Nat) (fails : Nat → Bool)
    (s s' : FailingLoop) : Prop where
  filled : ∀ id r, id ∈ (s.updated args n fails).map PosRow.id → s.rows id = some r →
    s'.rows id = some (r.filled pp)
  same : ∀ id, id ∉ (s.updated args n fails).map PosRow.id → s'.rows id = s.rows id
  le : s.lastID ≤ s'.lastID
  updated_le : ∀ e ∈ s.updated args n fails, (e.id : Int) ≤ s'.lastID
  lastID : s'.lastID = s.lastID ∨ ∃ e ∈ s.updated args n fails, s'.lastID = e.id
  checkpoint : s.checkpoint = s.lastID → s'.checkpoint = s'.lastID
  failed : ∀ id, id ∈ s'.failed ↔
    id ∈ s.failed ∨ ∃ e ∈ s.attempts args n fails, fails e.id = true ∧ e.id = id

theorem mem_toFill_of_mem_attempts {e : PosRow} (h : e ∈ s.attempts args n fails) :
    e ∈ toFill s.rows n s.lastID :=
  mem_of_mem_take ((args.attempts_prefix fails s.processed _).subset h)

theorem mem_updated {e : PosRow} :
    e ∈ s.updated args n fails ↔ e ∈ s.attempts args n fails ∧ fails e.id = false := by
  unfold updated
  rw [mem_filter, Bool.not_eq_true']

theorem unfilled_of_mem_attempts {e : PosRow} {r : PositionRow}
    (h : e ∈ s.attempts args n fails) (hr : s.rows e.id = some r) : r.Unfilled := by
  obtain ⟨r', -, hr', -, hunfilled, -⟩ := mem_toFill.mp (mem_toFill_of_mem_attempts h)
  rw [hr] at hr'
  cases hr'
  exact hunfilled

theorem row_of_mem_updated {id : Nat} (h : id ∈ (s.updated args n fails).map PosRow.id) :
    id < n ∧ s.lastID < id ∧ ∃ r, s.rows id = some r ∧ r.Unfilled := by
  obtain ⟨e, he, rfl⟩ := mem_map.mp h
  obtain ⟨r, hlt, hr, hlast, hunfilled, -⟩ :=
    mem_toFill.mp (mem_toFill_of_mem_attempts (mem_updated.mp he).1)
  exact ⟨hlt, hlast, r, hr, hunfilled⟩

theorem exists_batch (hwrite : args.dryRun = false) {r : PosRow} {rest : List PosRow}
    (htake : (toFill s.rows n s.lastID).take args.batch = r :: rest) :
    ∃ b, updateRows pp args s.rows fails ⟨s.processed, s.lastID, []⟩ (r :: rest) = b ∧
      BackfillBatch.Did args ⟨s.processed, s.lastID, []⟩ (s.updated args n fails) b ∧
      Filling pp s.rows (s.updated args n fails) b.writes := by
  refine ⟨_, rfl, ?_⟩
  rw [updateRows_eq_foldl hwrite, ← htake]
  constructor
  · exact did_foldl _ _
  · have hnone : Filling pp s.rows [] (BackfillBatch.mk s.processed s.lastID []).writes :=
      ⟨by simp, by simp⟩
    refine filling_foldl hwrite hnone fun e he => ?_
    obtain ⟨r, -, hr, -, hunfilled, hvolume, havg⟩ :=
      mem_toFill.mp (mem_toFill_of_mem_attempts (mem_updated.mp he).1)
    exact ⟨r, hr, hunfilled, hvolume, havg⟩

theorem did_turn (hwrite : args.dryRun = false) (h : s.turn pp args n fails = some s') :
    Did pp args n fails s s' := by
  obtain ⟨loop, hturn, rfl⟩ := Option.map_eq_some_iff.mp h
  unfold BackfillLoop.turn at hturn
  split at hturn
  next => cases hturn
  next r rest htake =>
    obtain ⟨b, hb, hdid, hfilling⟩ : ∃ b, updateRows pp args s.rows fails
        ⟨s.processed, s.lastID, []⟩ (r :: rest) = b ∧ _ := exists_batch hwrite htake
    rw [hb] at hturn
    have hle : s.lastID ≤ b.maxProcessedID := hdid.max_le
    have hfailed : ∀ id, id ∈ s.failed ++
        ((s.attempts args n fails).filter fun e => fails e.id).map PosRow.id ↔
        id ∈ s.failed ∨ ∃ e ∈ s.attempts args n fails, fails e.id = true ∧ e.id = id := by
      intro id
      simp only [mem_append, mem_map, mem_filter, and_assoc]
    dsimp only at hturn
    split at hturn
    next hmoves =>
      cases hturn
      exact ⟨fun id r hid hr => hfilling.view_of_mem hid hr, fun id => hfilling.view_of_not_mem,
        hle, hdid.le_max, hdid.max_mem, fun _ => rfl, hfailed⟩
    next hstays =>
      cases hturn
      have hsame : b.maxProcessedID = s.lastID := by
        have hge : ¬ s.lastID < b.maxProcessedID := fun hlt => hstays ⟨hwrite, hlt⟩
        omega
      have hupdated := hdid.le_max
      rw [hsame] at hupdated
      exact ⟨fun id r hid hr => hfilling.view_of_mem hid hr, fun id => hfilling.view_of_not_mem,
        le_refl _, hupdated, .inl rfl, fun h => h, hfailed⟩

/-! ## What the turns keep -/

/-- A row is as it was or filled from its texts, and an unfilled row that `lastID` has passed is one
whose update failed. -/
structure Ok (pp : PositionProcessor) (rows₀ : Nat → Option PositionRow) (n : Nat)
    (checkpoint : Int) (s : FailingLoop) : Prop where
  stored : s.checkpoint = s.lastID
  rows : ∀ id, s.rows id = rows₀ id ∨
    ∃ r, rows₀ id = some r ∧ r.Unfilled ∧ s.rows id = some (r.filled pp)
  below : Rows.Below s.rows n
  passed : ∀ id r, s.rows id = some r → r.Unfilled → checkpoint < id → id ≤ s.lastID → id ∈ s.failed
  failed : ∀ id ∈ s.failed, checkpoint < id
  le : checkpoint ≤ s.lastID

def Passed (s : FailingLoop) (id : Nat) : Prop :=
  id ∈ s.failed ∧ (id : Int) ≤ s.lastID ∧ ∃ r, s.rows id = some r ∧ r.Unfilled

def Spoiled (pp : PositionProcessor) (rows₀ : Nat → Option PositionRow) (s : FailingLoop)
    (id : Nat) : Prop :=
  ∃ r, rows₀ id = some r ∧ ¬ r.Sound pp ∧ r.Unfilled ∧ s.rows id = some (r.filled pp)

def Harmed (pp : PositionProcessor) (rows₀ : Nat → Option PositionRow) (s : FailingLoop) : Prop :=
  ∃ id, s.Passed id ∨ s.Spoiled pp rows₀ id

section

variable {rows₀ : Nat → Option PositionRow} {checkpoint : Int}

theorem ok_start (hbelow : Rows.Below rows₀ n) :
    (start rows₀ checkpoint).Ok pp rows₀ n checkpoint where
  stored := rfl
  rows := fun _ => .inl rfl
  below := hbelow
  passed := by
    intro id r _ _ hlt hle
    exact absurd hlt (not_lt.mpr hle)
  failed := nofun
  le := le_refl _

-- An unfilled row was never written.
theorem Ok.rows_of_unfilled (hok : s.Ok pp rows₀ n checkpoint) {id : Nat} {r : PositionRow}
    (hr : s.rows id = some r) (hunfilled : r.Unfilled) : rows₀ id = some r := by
  rcases hok.rows id with hsame | ⟨old, -, -, hfilled⟩
  · rw [← hsame, hr]
  · rw [hr] at hfilled
    cases hfilled
    exact absurd hunfilled (old.filled_filled pp)

section

variable (hdid : Did pp args n fails s s')
include hdid

theorem Did.unfilled {id : Nat} {r : PositionRow} (hr : s'.rows id = some r)
    (hunfilled : r.Unfilled) :
    s.rows id = some r ∧ id ∉ (s.updated args n fails).map PosRow.id := by
  by_cases hid : id ∈ (s.updated args n fails).map PosRow.id
  · obtain ⟨-, -, old, hold, -⟩ := row_of_mem_updated hid
    rw [hdid.filled _ old hid hold] at hr
    cases hr
    exact absurd hunfilled (old.filled_filled pp)
  · exact ⟨by rw [← hdid.same id hid, hr], hid⟩

theorem Did.attempted (hbelow : Rows.Below s.rows n) {id : Nat} {r : PositionRow}
    (hr : s'.rows id = some r) (hunfilled : r.Unfilled) (hlt : s.lastID < id)
    (hle : (id : Int) ≤ s'.lastID) :
    ∃ e ∈ s.attempts args n fails, e.id = id ∧ fails e.id = true ∧
      ∃ e' ∈ s.updated args n fails, e.id < e'.id := by
  obtain ⟨hrow, hnot⟩ := hdid.unfilled hr hunfilled
  obtain ⟨e', he', hlast⟩ := hdid.lastID.resolve_left (by omega)
  have hne : id ≠ e'.id := fun heq => hnot (heq ▸ mem_map_of_mem he')
  have hfill : (⟨id, r.volume, r.avgPrice⟩ : PosRow) ∈ toFill s.rows n s.lastID :=
    mem_toFill.mpr ⟨r, hbelow id r hrow, hrow, hlt, hunfilled, rfl, rfl⟩
  have hattempt : (⟨id, r.volume, r.avgPrice⟩ : PosRow) ∈ s.attempts args n fails := by
    -- what comes before an attempted row in the sorted rows to fill is attempted
    obtain ⟨rest, hrest⟩ : s.attempts args n fails <+: toFill s.rows n s.lastID :=
      (args.attempts_prefix fails s.processed _).trans ( take_prefix _ _)
    have hsorted := toFill_sorted s.rows n s.lastID
    rw [← hrest] at hfill hsorted
    rcases mem_append.mp hfill with hmem | hmem
    · exact hmem
    · have hlt := (pairwise_append.mp hsorted).2.2 e' (mem_updated.mp he').1 _ hmem
      dsimp only at hlt
      omega
  refine ⟨_, hattempt, rfl, ?_, e', he', by dsimp only; omega⟩
  cases hfails : fails id with
  | true => rfl
  | false => exact absurd (mem_map.mpr ⟨_, mem_updated.mpr ⟨hattempt, hfails⟩, rfl⟩) hnot

theorem Ok.step (hok : s.Ok pp rows₀ n checkpoint) : s'.Ok pp rows₀ n checkpoint where
  stored := hdid.checkpoint hok.stored
  rows := by
    intro id
    by_cases hid : id ∈ (s.updated args n fails).map PosRow.id
    · obtain ⟨-, -, r, hr, hunfilled⟩ := row_of_mem_updated hid
      exact .inr ⟨r, hok.rows_of_unfilled hr hunfilled, hunfilled, hdid.filled _ r hid hr⟩
    · rw [hdid.same id hid]
      exact hok.rows id
  below := by
    intro id r hr
    by_cases hid : id ∈ (s.updated args n fails).map PosRow.id
    · exact (row_of_mem_updated hid).1
    · rw [hdid.same id hid] at hr
      exact hok.below id r hr
  passed := by
    intro id r hr hunfilled hfrom hle
    rw [hdid.failed]
    by_cases hlast : (id : Int) ≤ s.lastID
    · exact .inl (hok.passed id r (hdid.unfilled hr hunfilled).1 hunfilled hfrom hlast)
    · obtain ⟨e, he, heq, hfails, -⟩ := hdid.attempted hok.below hr hunfilled (by omega) hle
      exact .inr ⟨e, he, hfails, heq⟩
  failed := by
    intro id hid
    rcases (hdid.failed id).mp hid with hid | ⟨e, he, -, rfl⟩
    · exact hok.failed id hid
    · have hlast := lastID_lt_of_mem_toFill (mem_toFill_of_mem_attempts he)
      have hle := hok.le
      omega
  le := hok.le.trans hdid.le

theorem Harmed.step (h : s.Harmed pp rows₀) : s'.Harmed pp rows₀ := by
  obtain ⟨id, ⟨hfailed, hle, r, hr, hunfilled⟩ | ⟨r, hr, hsound, hunfilled, hfilled⟩⟩ := h
  · refine ⟨id, .inl ⟨(hdid.failed id).mpr (.inl hfailed), hle.trans hdid.le, r, ?_, hunfilled⟩⟩
    rw [hdid.same, hr]
    intro hid
    have hlast := (row_of_mem_updated hid).2.1
    omega
  · refine ⟨id, .inr ⟨r, hr, hsound, hunfilled, ?_⟩⟩
    rw [hdid.same, hfilled]
    intro hid
    obtain ⟨-, -, r', hr', hunfilled'⟩ := row_of_mem_updated hid
    rw [hfilled] at hr'
    cases hr'
    exact r.filled_filled pp hunfilled'

theorem Clean.not_harmed (hclean : s.Clean pp args n fails) (hok : s.Ok pp rows₀ n checkpoint)
    (hnot : ¬ s.Harmed pp rows₀) : ¬ s'.Harmed pp rows₀ := by
  rintro ⟨id, ⟨hfailed, hle, r, hr, hunfilled⟩ | ⟨r, hr, hsound, hunfilled, hfilled⟩⟩
  · have hrow := (hdid.unfilled hr hunfilled).1
    by_cases hlast : (id : Int) ≤ s.lastID
    · have hfrom := (Ok.step hdid hok).failed id hfailed
      exact hnot ⟨id, .inl ⟨hok.passed id r hrow hunfilled hfrom hlast, hlast, r, hrow, hunfilled⟩⟩
    · obtain ⟨e, he, -, hfails, e', he', hlt⟩ :=
        hdid.attempted hok.below hr hunfilled (by omega) hle
      obtain ⟨hattempt, hsucceeds⟩ := mem_updated.mp he'
      rw [hclean.stops e he e' hattempt hlt hfails] at hsucceeds
      cases hsucceeds
  · by_cases hid : id ∈ (s.updated args n fails).map PosRow.id
    · obtain ⟨-, -, r', hr', hunfilled'⟩ := row_of_mem_updated hid
      have heq := hok.rows_of_unfilled hr' hunfilled'
      rw [hr] at heq
      cases heq
      obtain ⟨e, he, rfl⟩ := mem_map.mp hid
      obtain ⟨hattempt, hsucceeds⟩ := mem_updated.mp he
      exact hsound (hclean.sound e hattempt hsucceeds r hr')
    · rw [hdid.same id hid] at hfilled
      exact hnot ⟨id, .inr ⟨r, hr, hsound, hunfilled, hfilled⟩⟩

/-- A turn that does no harm was clean: an unsound row it updates is spoiled, and a failed row
before one it updates is passed. -/
theorem clean_of_not_harmed (hok : s.Ok pp rows₀ n checkpoint) (hharm : ¬ s'.Harmed pp rows₀) :
    s.Clean pp args n fails := by
  constructor
  · intro e he hsucceeds r hr
    by_contra hsound
    have hunfilled := unfilled_of_mem_attempts he hr
    exact hharm ⟨e.id, .inr ⟨r, hok.rows_of_unfilled hr hunfilled, hsound, hunfilled,
      hdid.filled _ r (mem_map_of_mem (mem_updated.mpr ⟨he, hsucceeds⟩)) hr⟩⟩
  · intro e he e' he' hlt hfails
    by_contra hsucceeds
    rw [Bool.not_eq_true] at hsucceeds
    obtain ⟨r, -, hr, -, hunfilled, -⟩ := mem_toFill.mp (mem_toFill_of_mem_attempts he)
    have hle := hdid.updated_le e' (mem_updated.mpr ⟨he', hsucceeds⟩)
    have hnot : e.id ∉ (s.updated args n fails).map PosRow.id := by
      intro hid
      obtain ⟨e₁, he₁, heq⟩ := mem_map.mp hid
      rw [← heq, (mem_updated.mp he₁).2] at hfails
      cases hfails
    refine hharm ⟨e.id, .inl ⟨(hdid.failed _).mpr (.inr ⟨e, he, hfails, rfl⟩), by omega, r, ?_,
      hunfilled⟩⟩
    rw [hdid.same _ hnot, hr]

theorem harmed_step_iff (hok : s.Ok pp rows₀ n checkpoint) (hnot : ¬ s.Harmed pp rows₀) :
    s'.Harmed pp rows₀ ↔ ¬ s.Clean pp args n fails := by
  constructor
  · exact fun hharm hclean => Clean.not_harmed hdid hclean hok hnot hharm
  · exact fun hclean => by_contra fun hharm => hclean (clean_of_not_harmed hdid hok hharm)

end

/-! ## Runs -/

theorem Ok.faithful_iff (hok : s.Ok pp rows₀ n checkpoint) :
    s.Faithful pp rows₀ ↔ ¬ s.Harmed pp rows₀ := by
  constructor
  · rintro h ⟨id, ⟨hfailed, hle, r, hr, hunfilled⟩ | ⟨r, hr, hsound, hunfilled, hfilled⟩⟩
    · have hlt := h.not_passed id hfailed r hr hunfilled
      rw [hok.stored] at hlt
      omega
    · obtain ⟨r', hr', hkept⟩ := h.kept id r hr
      rw [hfilled] at hr'
      cases hr'
      exact hsound (kept_filled_iff.mp hkept)
  · intro h
    constructor
    · intro id r hr
      rcases hok.rows id with hsame | ⟨old, hold, hunfilled, hfilled⟩
      · exact ⟨r, by rw [hsame, hr], r.kept_self⟩
      · rw [hr] at hold
        cases hold
        refine ⟨_, hfilled, kept_filled_iff.mpr ?_⟩
        by_contra hsound
        exact h ⟨id, .inr ⟨r, hr, hsound, hunfilled, hfilled⟩⟩
    · intro id hid r hr hunfilled
      rw [hok.stored]
      by_contra hle
      exact h ⟨id, .inl ⟨hid, not_lt.mp hle, r, hr, hunfilled⟩⟩

section

variable {patterns : List (Nat → Bool)} (hwrite : args.dryRun = false)
include hwrite

theorem run_invariant {I : FailingLoop → Prop} (hI : I s)
    (hstep : ∀ {s s' fails}, Did pp args n fails s s' → I s → I s')
    (h : s.run pp args n patterns = some s') : I s' := by
  induction patterns generalizing s with
  | nil =>
    cases h
    exact hI
  | cons fails rest ih =>
    obtain ⟨s₁, hturn, hrun⟩ := Option.bind_eq_some_iff.mp h
    exact ih (hstep (did_turn hwrite hturn) hI) hrun

theorem Ok.run (hok : s.Ok pp rows₀ n checkpoint) (h : s.run pp args n patterns = some s') :
    s'.Ok pp rows₀ n checkpoint :=
  run_invariant hwrite hok Ok.step h

theorem Harmed.run (hharm : s.Harmed pp rows₀) (h : s.run pp args n patterns = some s') :
    s'.Harmed pp rows₀ :=
  run_invariant hwrite hharm Harmed.step h

theorem harmed_run_iff (hok : s.Ok pp rows₀ n checkpoint) (hnot : ¬ s.Harmed pp rows₀)
    (h : s.run pp args n patterns = some s') :
    s'.Harmed pp rows₀ ↔ ¬ s.AllClean pp args n patterns := by
  induction patterns generalizing s with
  | nil =>
    cases h
    exact iff_of_false hnot fun h => h trivial
  | cons fails rest ih =>
    obtain ⟨s₁, hturn, hrun⟩ := Option.bind_eq_some_iff.mp h
    have hstep := harmed_step_iff (did_turn hwrite hturn) hok hnot
    by_cases hharm : s₁.Harmed pp rows₀
    · exact iff_of_true (Harmed.run hwrite hharm hrun) fun hclean => hstep.mp hharm hclean.1
    · have hrest : s.AllClean pp args n (fails :: rest) ↔ s₁.AllClean pp args n rest := by
        constructor
        · intro hclean
          exact hclean.2 s₁ hturn
        · intro hclean
          refine ⟨by_contra fun hunclean => hharm (hstep.mpr hunclean), fun s₂ hs₂ => ?_⟩
          rw [hturn] at hs₂
          cases hs₂
          exact hclean
      rw [hrest]
      exact ih (Ok.step (did_turn hwrite hturn) hok) hharm hrun

end

end

/-- For every table and every pattern of failed updates: between any two batches of a write run, and
so when it ends, no data is invented or lost exactly when every batch so far has updated sound rows
only, and none after a row that failed. -/
theorem batches_faithful_iff (pp : PositionProcessor) (args : BackfillArgs)
    (rows₀ : Nat → Option PositionRow) (n : Nat) (checkpoint : Int)
    (patterns : List (Nat → Bool)) (s : FailingLoop) (hwrite : args.dryRun = false)
    (hbelow : Rows.Below rows₀ n)
    (hrun : (start rows₀ checkpoint).run pp args n patterns = some s) :
    s.Faithful pp rows₀ ↔ (start rows₀ checkpoint).AllClean pp args n patterns := by
  have hstart : (start rows₀ checkpoint).Ok pp rows₀ n checkpoint := ok_start hbelow
  have hnot : ¬ (start rows₀ checkpoint).Harmed pp rows₀ := by
    rintro ⟨id, ⟨hfailed, -⟩ | ⟨r, hr, -, hunfilled, hfilled⟩⟩
    · cases hfailed
    · have hr' : rows₀ id = some (r.filled pp) := hfilled
      rw [hr] at hr'
      rw [Option.some.inj hr'] at hunfilled
      exact r.filled_filled pp hunfilled
  rw [(hstart.run hwrite hrun).faithful_iff, harmed_run_iff hwrite hstart hnot hrun, not_not]

theorem Ok.clean {rows₀ : Nat → Option PositionRow} {checkpoint : Int}
    (hok : s.Ok pp rows₀ n checkpoint)
    (hsound : ∀ id r, rows₀ id = some r → r.Unfilled → r.Sound pp)
    (hstops : ∀ e ∈ s.attempts args n fails, ∀ e' ∈ s.attempts args n fails, e.id < e'.id →
      fails e.id = true → fails e'.id = true) : s.Clean pp args n fails := by
  refine ⟨fun e he _ r hr => ?_, hstops⟩
  have hunfilled := unfilled_of_mem_attempts he hr
  exact hsound e.id r (hok.rows_of_unfilled hr hunfilled) hunfilled

/-! ### Bad rows -/

def writeArgs : BackfillArgs := ⟨500, false, 0, BackfillLoop.defaultBatch_pos⟩

theorem ofRows_below (rows : List PositionRow) :
    Rows.Below (ofRows rows).rows (rows.length + 1) := by
  intro id r hr
  cases id with
  | zero => cases hr
  | succ n => exact Nat.succ_lt_succ (List.getElem?_eq_some_iff.mp hr).1

theorem fiveCoinsAsText_sound : fiveCoinsAsText.Sound amd64Processor := by
  constructor
  · rintro ⟨-, err, herr⟩
    rw [show Model.parseQuantity amd64Processor.conv fiveCoinsAsText.volume = .ok 500000000 by
      decide +kernel] at herr
    cases herr
  · rintro ⟨-, err, herr⟩
    rw [show Model.parsePrice amd64Processor.conv fiveCoinsAsText.avgPrice = .ok 100000000 by
      decide +kernel] at herr
    cases herr

/-- The second of two rows fails in the first batch and is filled by the next one. -/
theorem failed_last_row_retried :
    ∃ s, (start (ofRows [fiveCoinsAsText, fiveCoinsAsText]).rows 0).run amd64Processor
        writeArgs 3 [fun id => id = 2, fun _ => false] = some s ∧
      s.failed = [2] ∧ s.checkpoint = 2 ∧
      s.Faithful amd64Processor (ofRows [fiveCoinsAsText, fiveCoinsAsText]).rows := by
  have hrun : ((start (ofRows [fiveCoinsAsText, fiveCoinsAsText]).rows 0).run
      amd64Processor writeArgs 3 [fun id => id = 2, fun _ => false]).any
      (fun s => decide (s.failed = [2] ∧ s.checkpoint = 2)) = true := by
    decide +kernel
  obtain ⟨s, hs, htest⟩ := Run.exists_of_any hrun
  obtain ⟨hfailed, hcheckpoint⟩ := of_decide_eq_true htest
  have hbelow := ofRows_below [fiveCoinsAsText, fiveCoinsAsText]
  have hsound : ∀ id r, (ofRows [fiveCoinsAsText, fiveCoinsAsText]).rows id = some r →
      r.Unfilled → r.Sound amd64Processor := by
    intro id r hr _
    cases id with
    | zero => cases hr
    | succ n =>
      have hmem : r ∈ [fiveCoinsAsText, fiveCoinsAsText] := mem_of_getElem? hr
      rw [mem_pair, or_self] at hmem
      exact hmem ▸ fiveCoinsAsText_sound
  refine ⟨s, hs, hfailed, hcheckpoint, (batches_faithful_iff _ _ _ _ _ _ _ rfl hbelow hs).mpr ?_⟩
  have hstart : (start (ofRows [fiveCoinsAsText, fiveCoinsAsText]).rows 0).Ok
      amd64Processor _ 3 0 := ok_start hbelow
  refine ⟨hstart.clean hsound ?_, fun s₁ hturn => ⟨(hstart.step (did_turn rfl hturn)).clean hsound
    ?_, fun _ _ => trivial⟩⟩
  · intro e _ e' he' hlt hfails
    have htwo : e.id = 2 := of_decide_eq_true hfails
    obtain ⟨-, hbound, -⟩ := mem_toFill.mp (mem_toFill_of_mem_attempts he')
    omega
  · intro e _ e' _ _ hfails
    cases hfails

/-- A row whose volume was traded already, one with a text that is not a number, and two to fill. -/
def badRows : List PositionRow :=
  [{ fiveCoinsAsText with volumeBigint := some 700000000 },
    { fiveCoinsAsText with volume := "five" }, fiveCoinsAsText, fiveCoinsAsText]

/-- The traded volume is replaced by the text, the text that is not a number is zero, and the third
row, whose update failed, is passed by the checkpoint. -/
theorem badRows_not_faithful : ∃ s, (start (ofRows badRows).rows 0).run amd64Processor writeArgs 5
        [fun id => id = 3] = some s ∧
      (s.turn amd64Processor writeArgs 5 fun _ => false) = none ∧
      (s.rows 1).map volumeBigint = some (some 500000000) ∧
      (s.rows 2).map volumeBigint = some (some 0) ∧
      s.rows 3 = some fiveCoinsAsText ∧ s.failed = [3] ∧ s.checkpoint = 4 ∧
      ¬ s.Faithful amd64Processor (ofRows badRows).rows := by
  have hrun : ((start (ofRows badRows).rows 0).run amd64Processor writeArgs 5
      [fun id => id = 3]).any
      (fun s => (s.turn amd64Processor writeArgs 5 fun _ => false).isNone &&
        decide ((s.rows 1).map volumeBigint = some (some 500000000) ∧
          (s.rows 2).map volumeBigint = some (some 0) ∧
          s.rows 3 = some fiveCoinsAsText ∧ s.failed = [3] ∧ s.checkpoint = 4)) = true := by
    decide +kernel
  obtain ⟨s, hs, htest⟩ := Run.exists_of_any hrun
  obtain ⟨hend, htest⟩ := Bool.and_eq_true_iff.mp htest
  obtain ⟨hone, htwo, hthree, hfailed, hcheckpoint⟩ := of_decide_eq_true htest
  refine ⟨s, hs, Option.isNone_iff_eq_none.mp hend, hone, htwo, hthree, hfailed, hcheckpoint, ?_⟩
  intro h
  have hlt := h.not_passed 3 (by rw [hfailed]; exact mem_singleton_self 3) _ hthree
    (.inl rfl)
  rw [hcheckpoint] at hlt
  omega

end FailingLoop

end CexHertz
