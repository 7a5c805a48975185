import CexHertz.Service.ConcurrentPositions

/-!
# Backfilling positions under live traffic

The job of `cmd/migrate` fills the bigint columns of `positions` from the text columns while
`BuyPositionTx` and `SellPositionTx` go on. Those take NULL for zero and write both columns: a row
they touch before the job has filled it loses what its text said.
-/

namespace CexHertz

open List PositionRow Rows Option

open Rows (view cell)

/-! ## Rows to fill -/

namespace PositionRow

def Unfilled (r : PositionRow) : Prop := r.volumeBigint = none ∨ r.avgPriceBigint = none

instance : DecidablePred Unfilled := fun r =>
  inferInstanceAs (Decidable (r.volumeBigint = none ∨ r.avgPriceBigint = none))

def Filled (r : PositionRow) : Prop := ¬ r.Unfilled

instance : DecidablePred Filled := fun r => inferInstanceAs (Decidable (¬ r.Unfilled))

def Null (r : PositionRow) : Prop := r.volumeBigint = none ∧ r.avgPriceBigint = none

end PositionRow

def parseOrZero (parse : String → Except String Int64) (text : String) : Int64 :=
  if text = "" then 0
  else
    match parse text with
    | .ok v => v
    | .error _ => 0

def PositionRow.fill (r : PositionRow) (vol avg : Int64) : PositionRow :=
  { r with volumeBigint := some vol, avgPriceBigint := some avg }

def PositionRow.trueVolume (pp : PositionProcessor) (r : PositionRow) : Int64 :=
  match r.volumeBigint with
  | some v => v
  | none => parseOrZero (Model.parseQuantity pp.conv) r.volume

/-! ## The job -/

structure BackfillFlags where
  batch : Nat
  maxRows : Nat
  batch_pos : 0 < batch

structure PosRow where
  id : Nat
  volume : String
  avgPrice : String
  deriving DecidableEq

inductive BackfillPhase where
  | querying
  | updating (rows : List PosRow) (maxProcessedID : Nat) (writes : List (Nat × PositionRow))
  | checkpointing (maxProcessedID : Nat)
  | finished
  | stopped
  | died (msg : String)
  deriving DecidableEq

structure BackfillJob where
  lastID : Nat
  processed : Nat
  phase : BackfillPhase
  deriving DecidableEq

def BackfillJob.places (job : BackfillJob) : List Nat :=
  match job.phase with
  | .updating _ _ writes => writes.map Prod.fst
  | _ => []

def BackfillJob.start (checkpoint : Nat) : BackfillJob where
  lastID := checkpoint
  processed := 0
  phase := .querying

structure BackfillSystem where
  tables : Tables
  checkpoint : Nat
  job : BackfillJob

open BackfillSystem

inductive BackfillAction where
  | tables (a : TablesAction)
  | query (fault : Option String)
  | update (fault : Option String)
  | commit (fault : Option String)
  | upsertCheckpoint (fault : Option String)
  | signal
  | crash
  | restart
  deriving DecidableEq

def toFill (rows : Nat → Option PositionRow) (n : Nat) (lastID : Int) : List PosRow :=
  (List.range n).filterMap fun id =>
    (rows id).bind fun r =>
      if lastID < id ∧ r.Unfilled then some ⟨id, r.volume, r.avgPrice⟩ else none

namespace BackfillSystem

def setJob (s : BackfillSystem) (job : BackfillJob) : BackfillSystem := { s with job := job }

def die (s : BackfillSystem) (msg : String) : BackfillSystem :=
  s.setJob { s.job with phase := .died msg }

def full (flags : BackfillFlags) (job : BackfillJob) : Prop :=
  0 < flags.maxRows ∧ flags.maxRows ≤ job.processed

instance (flags : BackfillFlags) (job : BackfillJob) : Decidable (full flags job) :=
  inferInstanceAs (Decidable (_ ∧ _))

def step (pp : PositionProcessor) (flags : BackfillFlags) (s : BackfillSystem) :
    BackfillAction → Option BackfillSystem
  | .tables a =>
    match s.tables.step pp s.job.places a with
    | none => none
    | some tables => some { s with tables := tables }
  | .query fault =>
    match s.job.phase, fault with
    | .querying, some msg => some (s.die msg)
    | .querying, none =>
      match (toFill s.tables.rows s.tables.nextID s.job.lastID).take flags.batch with
      | [] => some (s.setJob { s.job with phase := .finished })
      | r :: rows =>
        some (s.setJob { s.job with phase := .updating (r :: rows) s.job.lastID [] })
    | _, _ => none
  | .update fault =>
    match s.job.phase, fault with
    -- a failed statement fails the transaction, and the commit after it is fatal
    | .updating (_ :: _) _ _, some msg => some (s.die msg)
    | .updating (r :: rows) maxProcessedID writes, none =>
      if full flags s.job ∨ ∃ tx ∈ s.tables.txs, tx.phase.isOpen ∧ r.id ∈ tx.places then none
      else
        let vol := parseOrZero (Model.parseQuantity pp.conv) r.volume
        let avg := parseOrZero (Model.parsePrice pp.conv) r.avgPrice
        -- only a row that is still unfilled is updated
        let writes :=
          match s.tables.rows r.id with
          | some row => if row.Unfilled then (r.id, row.fill vol avg) :: writes else writes
          | none => writes
        some (s.setJob
          { s.job with
            processed := s.job.processed + 1
            phase := .updating rows (max maxProcessedID r.id) writes })
    | _, _ => none
  | .commit fault =>
    match s.job.phase, fault with
    | .updating _ _ _, some msg => some (s.die msg)
    | .updating rows maxProcessedID writes, none =>
      if rows ≠ [] ∧ ¬ full flags s.job then none
      else
        some
          { s with
            tables := { s.tables with rows := view s.tables.rows writes }
            job :=
              { s.job with
                phase :=
                  if s.job.lastID < maxProcessedID then .checkpointing maxProcessedID
                  else .querying } }
    | _, _ => none
  | .upsertCheckpoint fault =>
    match s.job.phase, fault with
    | .checkpointing _, some msg => some (s.die msg)
    | .checkpointing maxProcessedID, none =>
      some
        { s with
          checkpoint := maxProcessedID
          job := { s.job with lastID := maxProcessedID, phase := .querying } }
    | _, _ => none
  | .signal =>
    match s.job.phase with
    | .querying => some (s.setJob { s.job with phase := .stopped })
    | _ => none
  | .crash => some (s.die "killed")
  | .restart =>
    match s.job.phase with
    | .finished | .stopped | .died _ => some (s.setJob (.start s.checkpoint))
    | _ => none

def AfterFill (s : BackfillSystem) : BackfillAction → Prop
  | .tables a => s.tables.Isolated a ∧ s.tables.Finds PositionRow.Filled a
  | _ => True

instance (s : BackfillSystem) : (a : BackfillAction) → Decidable (s.AfterFill a)
  | .tables _ => inferInstanceAs (Decidable (_ ∧ _))
  | .query _ | .update _ | .commit _ | .upsertCheckpoint _ | .signal | .crash | .restart =>
    isTrue trivial

structure Start (s : BackfillSystem) : Prop where
  tables : s.tables.Start
  null : ∀ id r, s.tables.rows id = some r → r.Null
  pos : s.tables.rows 0 = none
  checkpoint : s.checkpoint = 0
  job : s.job = .start 0

def holding (pp : PositionProcessor) (s₀ s : BackfillSystem) (k : String × String) : Int :=
  (s₀.tables.volume (trueVolume pp) k).toInt + s.tables.net pp k

end BackfillSystem

/-! ## Unfilled rows -/

section

variable {pp : PositionProcessor} {r old : PositionRow}

theorem Position.row_filled (p : Position) : p.row.Filled := by
  rintro (h | h) <;> cases h

theorem PositionRow.Null.unfilled (h : r.Null) : r.Unfilled := .inl h.1

theorem PositionRow.Filled.trueVolume_eq (h : r.Filled) :
    r.trueVolume pp = r.scan.volumeBigint := by
  unfold trueVolume scan
  cases hv : r.volumeBigint with
  | none => exact absurd (.inl hv) h
  | some v => rfl

def PositionRow.filled (pp : PositionProcessor) (r : PositionRow) : PositionRow :=
  r.fill (parseOrZero (Model.parseQuantity pp.conv) r.volume)
    (parseOrZero (Model.parsePrice pp.conv) r.avgPrice)

theorem PositionRow.filled_filled (pp : PositionProcessor) (r : PositionRow) :
    (r.filled pp).Filled := by
  rintro (h | h) <;> cases h

theorem PositionRow.Null.trueVolume_filled (h : r.Null) :
    (r.filled pp).trueVolume pp = r.trueVolume pp := by
  unfold trueVolume
  rw [h.1]
  rfl

end

def UnfilledAfter (rows : Nat → Option PositionRow) (id : Nat) : Prop :=
  ∀ i r, rows i = some r → r.Unfilled → id < i

def Fills (pp : PositionProcessor) (rows : Nat → Option PositionRow)
    (writes : List (Nat × PositionRow)) : Prop :=
  ∀ w ∈ writes, ∃ old, rows w.1 = some old ∧ old.Null ∧ w.2 = old.filled pp

section

variable {pp : PositionProcessor} {rows : Nat → Option PositionRow}
  {writes : List (Nat × PositionRow)} {id : Nat} {r : PositionRow}

theorem Fills.view_some (h : Fills pp rows writes) (hr : view rows writes id = some r) :
    ∃ old, rows id = some old ∧ old.key = r.key ∧
      (r = old ∨ (old.Null ∧ r = old.filled pp)) := by
  rcases view_cases hr with hmem | ⟨-, hrow⟩
  · obtain ⟨old, hold, hnull, heq⟩ := h _ hmem
    subst heq
    exact ⟨old, hold, rfl, .inr ⟨hnull, rfl⟩⟩
  · exact ⟨r, hrow, rfl, .inl rfl⟩

theorem Fills.view_of_some (h : Fills pp rows writes) (hr : rows id = some r) :
    ∃ new, view rows writes id = some new ∧ new.key = r.key ∧
      new.trueVolume pp = r.trueVolume pp := by
  by_cases hid : id ∈ writes.map Prod.fst
  · obtain ⟨new, hmem, hview⟩ := view_of_mem hid
    obtain ⟨old, hold, hnull, heq⟩ := h _ hmem
    rw [hr] at hold
    cases hold
    subst heq
    exact ⟨_, hview rows, rfl, hnull.trueVolume_filled⟩
  · exact ⟨r, by rw [view_of_not_mem hid, hr], rfl, rfl⟩

-- Filled rows are left alone.
theorem Fills.view_filled (h : Fills pp rows writes) (hr : rows id = some r) (hfilled : r.Filled) :
    view rows writes id = some r := by
  rw [view_of_not_mem, hr]
  intro hid
  obtain ⟨w, hw, rfl⟩ := mem_map.mp hid
  obtain ⟨old, hold, hnull, -⟩ := h w hw
  rw [hr] at hold
  cases hold
  exact hfilled hnull.unfilled

theorem Fills.view_unfilled (h : Fills pp rows writes) (hr : view rows writes id = some r)
    (hunfilled : r.Unfilled) : rows id = some r ∧ id ∉ writes.map Prod.fst := by
  rcases view_cases hr with hmem | ⟨hid, hrow⟩
  · obtain ⟨old, -, -, heq⟩ := h _ hmem
    subst heq
    exact absurd hunfilled (old.filled_filled pp)
  · exact ⟨hrow, hid⟩

theorem TablesOk.filled {start : String × String → Int64} {s : Tables}
    (hok : TablesOk pp (trueVolume pp) PositionRow.Filled start s)
    (h : Fills pp s.rows writes) :
    TablesOk pp (trueVolume pp) PositionRow.Filled start
      { s with rows := view s.rows writes } := by
  have hbelow : Rows.Below (view s.rows writes) s.nextID := by
    intro i r hr
    obtain ⟨old, hold, -⟩ := h.view_some hr
    exact hok.below i old hold
  have hunique : Rows.Unique key (view s.rows writes) := by
    intro i j r r' hr hr' hkey
    obtain ⟨old, hold, hk, -⟩ := h.view_some hr
    obtain ⟨old', hold', hk', -⟩ := h.view_some hr'
    exact hok.unique i j old old' hold hold' (hk.trans (hkey.trans hk'.symm))
  apply hok.outside hbelow hunique
  · intro k
    apply cell_eq hok.unique hok.below hunique hbelow
    · intro i r hr hk
      obtain ⟨new, hnew, hkey, hvolume⟩ := h.view_of_some hr
      exact ⟨new, hnew, hkey.trans hk, hvolume⟩
    · intro i r hr hk
      obtain ⟨old, hold, hkey, -⟩ := h.view_some hr
      exact ⟨old, hold, hkey.trans hk⟩
  · intro tx htx hopen k hk i r hrk
    obtain ⟨j, hj⟩ := mem_iff_getElem?.mp htx
    have hgood := (hok.txs j tx hj hopen).good_rows
    constructor
    · intro hr
      exact h.view_filled hr (hgood i r hr (hrk ▸ hk))
    · intro hr
      obtain ⟨old, hold, hkey, rfl | ⟨hnull, -⟩⟩ := h.view_some hr
      · exact hold
      · exact absurd hnull.unfilled (hgood i old hold (by rw [hkey, hrk]; exact hk))
  · intro i hnone
    cases hrow : view s.rows writes i with
    | none => rfl
    | some r =>
      obtain ⟨old, hold, -⟩ := h.view_some hrow
      rw [hnone] at hold
      cases hold

end

theorem TablesOk.step_unfilled {pp : PositionProcessor} {val : PositionRow → Int64}
    {start : String × String → Int64} {held : List Nat} {s s' : Tables} {a : TablesAction}
    (hok : TablesOk pp val PositionRow.Filled start s) (h : s.step pp held a = some s') (id : Nat)
    (r : PositionRow) (hr : r.Unfilled) : s'.rows id = some r ↔ s.rows id = some r := by
  cases Tables.step_move h with
  | begin | close | reserve | first | save | create => exact Iff.rfl
  | @commit k tx hk hphase htodo =>
    have htx := hok.txs k tx hk (by rw [hphase]; rfl)
    constructor
    · intro hview
      rcases view_cases hview with hmem | ⟨-, hrow⟩
      · exact absurd hr (htx.good_writes _ hmem)
      · exact hrow
    · intro hrow
      show view s.rows tx.writes id = some r
      rw [view_of_not_mem, hrow]
      intro hid
      obtain ⟨w, hw, rfl⟩ := mem_map.mp hid
      have hkey := htx.owns.same_key w hw r hrow
      exact htx.good_rows _ r hrow (hkey ▸ htx.owns.writes_owned w hw) hr

/-! ## The moves of the job -/

def PosRow.writesAfter (pp : PositionProcessor) (rows : Nat → Option PositionRow) (e : PosRow)
    (writes : List (Nat × PositionRow)) : List (Nat × PositionRow) :=
  match rows e.id with
  | some row =>
    if row.Unfilled then
      (e.id, row.fill (parseOrZero (Model.parseQuantity pp.conv) e.volume)
        (parseOrZero (Model.parsePrice pp.conv) e.avgPrice)) :: writes
    else writes
  | none => writes

def BackfillPhase.Idle : BackfillPhase → Prop
  | .querying | .stopped | .died _ => True
  | .updating _ _ _ | .checkpointing _ | .finished => False

inductive BackfillSystem.JobMove (pp : PositionProcessor) (flags : BackfillFlags)
    (s : BackfillSystem) : BackfillAction → BackfillSystem → Prop
  | pause (a : BackfillAction) (job : BackfillJob) (hcommit : a ≠ .commit none)
      (hidle : job.phase.Idle) (hlast : job.lastID = s.job.lastID ∨ job.lastID = s.checkpoint) :
      JobMove pp flags s a (s.setJob job)
  | finish
      (hnil : (toFill s.tables.rows s.tables.nextID s.job.lastID).take flags.batch = []) :
      JobMove pp flags s (.query none) (s.setJob { s.job with phase := .finished })
  | fetch (batch : List PosRow)
      (hbatch : (toFill s.tables.rows s.tables.nextID s.job.lastID).take flags.batch =
        batch) :
      JobMove pp flags s (.query none)
        (s.setJob { s.job with phase := .updating batch s.job.lastID [] })
  | update (e : PosRow) (rest : List PosRow) (maxID : Nat) (writes : List (Nat × PositionRow))
      (hphase : s.job.phase = .updating (e :: rest) maxID writes) :
      JobMove pp flags s (.update none)
        (s.setJob
          { s.job with
            processed := s.job.processed + 1
            phase := .updating rest (max maxID e.id) (e.writesAfter pp s.tables.rows writes) })
  | commit (rest : List PosRow) (maxID : Nat) (writes : List (Nat × PositionRow))
      (hphase : s.job.phase = .updating rest maxID writes) :
      JobMove pp flags s (.commit none)
        { s with
          tables := { s.tables with rows := view s.tables.rows writes }
          job :=
            { s.job with
              phase := if s.job.lastID < maxID then .checkpointing maxID else .querying } }
  | upsertCheckpoint (maxID : Nat) (hphase : s.job.phase = .checkpointing maxID) :
      JobMove pp flags s (.upsertCheckpoint none)
        { s with checkpoint := maxID, job := { s.job with lastID := maxID, phase := .querying } }

theorem BackfillSystem.step_jobMove {pp : PositionProcessor} {flags : BackfillFlags}
    {s s' : BackfillSystem} {a : BackfillAction} (hjob : ∀ t, a ≠ .tables t)
    (h : s.step pp flags a = some s') : s.JobMove pp flags a s' := by
  have hdie : ∀ a msg, a ≠ .commit none → s.JobMove pp flags a (s.die msg) :=
    fun a msg hcommit => .pause a _ hcommit trivial (.inl rfl)
  cases a with
  | tables a => exact absurd rfl (hjob a)
  | query fault =>
    dsimp only [step] at h
    split at h
    · cases h
      exact hdie _ _ (by simp)
    · split at h
      next hnil =>
        cases h
        exact .finish hnil
      next hcons =>
        cases h
        exact .fetch _ hcons
    · cases h
  | update fault | commit fault =>
    dsimp only [step] at h
    split at h
    · cases h
      exact hdie _ _ (by simp)
    next hupdating =>
      split at h
      · cases h
      · cases h
        first
        | exact .update _ _ _ _ hupdating
        | exact .commit _ _ _ hupdating
    · cases h
  | upsertCheckpoint fault =>
    dsimp only [step] at h
    split at h
    · cases h
      exact hdie _ _ (by simp)
    next hcheckpointing =>
      cases h
      exact .upsertCheckpoint _ hcheckpointing
    · cases h
  | signal =>
    dsimp only [step] at h
    split at h
    · cases h
      exact .pause _ _ (by simp) trivial (.inl rfl)
    · cases h
  | crash =>
    cases h
    exact hdie _ _ (by simp)
  | restart =>
    have hstart : s.JobMove pp flags .restart (s.setJob (.start s.checkpoint)) :=
      .pause _ _ (by simp) trivial (.inr rfl)
    dsimp only [step] at h
    split at h
    · cases h
      exact hstart
    · cases h
      exact hstart
    · cases h
      exact hstart
    · cases h

/-! ## The job's invariant -/

/-- In the middle of a batch: what is left unfilled and not yet updated is in the rest of the batch
or after all of it. -/
structure UpdatingOk (pp : PositionProcessor) (rows₀ rows : Nat → Option PositionRow)
    (rest : List PosRow) (maxID : Nat) (writes : List (Nat × PositionRow)) : Prop where
  entries : ∀ e ∈ rest, ∃ r, rows₀ e.id = some r ∧ e.volume = r.volume ∧ e.avgPrice = r.avgPrice
  sorted : rest.Pairwise fun e e' => e.id < e'.id
  fills : Fills pp rows writes
  left : ∀ id r, rows id = some r → r.Unfilled → id ∉ writes.map Prod.fst →
    maxID < id ∧ (id ∈ rest.map PosRow.id ∨ ∀ e ∈ rest, e.id < id)

def BackfillPhase.Ok (pp : PositionProcessor) (rows₀ rows : Nat → Option PositionRow) :
    BackfillPhase → Prop
  | .updating rest maxID writes => UpdatingOk pp rows₀ rows rest maxID writes
  | .checkpointing maxID => UnfilledAfter rows maxID
  | .finished => ∀ id r, rows id = some r → r.Filled
  | .querying | .stopped | .died _ => True

theorem BackfillPhase.Idle.ok {pp : PositionProcessor} {phase : BackfillPhase} (h : phase.Idle)
    (rows₀ rows : Nat → Option PositionRow) : phase.Ok pp rows₀ rows := by
  cases phase with
  | querying | stopped | died => trivial
  | updating | checkpointing | finished => cases h

/-- What the job relies on and keeps: what is unfilled is as it was at the start, and after the
checkpoint and `lastID`. -/
structure JobOk (pp : PositionProcessor) (rows₀ : Nat → Option PositionRow) (s : BackfillSystem) :
    Prop where
  below : Rows.Below s.tables.rows s.tables.nextID
  null : ∀ id r, s.tables.rows id = some r → r.Unfilled → r.Null ∧ rows₀ id = some r
  checkpoint : UnfilledAfter s.tables.rows s.checkpoint
  lastID : UnfilledAfter s.tables.rows s.job.lastID
  phase : s.job.phase.Ok pp rows₀ s.tables.rows

structure BackfillOk (pp : PositionProcessor) (s₀ s : BackfillSystem) : Prop extends
    JobOk pp s₀.tables.rows s where
  tables : TablesOk pp (trueVolume pp) PositionRow.Filled
    (s₀.tables.volume (trueVolume pp)) s.tables

section

variable {pp : PositionProcessor} {flags : BackfillFlags} {s₀ s s' : BackfillSystem}

theorem BackfillPhase.Ok.congr {rows₀ rows rows' : Nat → Option PositionRow}
    {phase : BackfillPhase} (h : phase.Ok pp rows₀ rows)
    (hsame : ∀ id r, r.Unfilled → (rows' id = some r ↔ rows id = some r)) :
    phase.Ok pp rows₀ rows' := by
  cases phase with
  | updating rest maxID writes =>
    refine ⟨h.entries, h.sorted, fun w hw => ?_, fun id r hr hunfilled => ?_⟩
    · obtain ⟨old, hold, hnull, heq⟩ := h.fills w hw
      exact ⟨old, (hsame _ old hnull.unfilled).mpr hold, hnull, heq⟩
    · exact h.left id r ((hsame id r hunfilled).mp hr) hunfilled
  | checkpointing | finished =>
    exact fun id r hr hunfilled => h id r ((hsame id r hunfilled).mp hr) hunfilled
  | querying | stopped | died => trivial

theorem BackfillOk.tablesStep (hok : BackfillOk pp s₀ s) {a : TablesAction} {held : List Nat}
    {tables : Tables} (hisolated : s.tables.Isolated a)
    (hfinds : s.tables.Finds PositionRow.Filled a) (h : s.tables.step pp held a = some tables) :
    BackfillOk pp s₀ { s with tables := tables } := by
  have hsame := hok.tables.step_unfilled h
  have htables := hok.tables.step (fun r hr => hr.trueVolume_eq) Position.row_filled hisolated
    hfinds h
  refine ⟨⟨htables.below, ?_, ?_, ?_, hok.phase.congr hsame⟩, htables⟩
  · exact fun id r hr hunfilled => hok.null id r ((hsame id r hunfilled).mp hr) hunfilled
  · exact fun id r hr hunfilled => hok.checkpoint id r ((hsame id r hunfilled).mp hr) hunfilled
  · exact fun id r hr hunfilled => hok.lastID id r ((hsame id r hunfilled).mp hr) hunfilled

theorem mem_toFill {rows : Nat → Option PositionRow} {n : Nat} {lastID : Int} {e : PosRow} :
    e ∈ toFill rows n lastID ↔ ∃ r, e.id < n ∧ rows e.id = some r ∧ lastID < e.id ∧
      r.Unfilled ∧ e.volume = r.volume ∧ e.avgPrice = r.avgPrice := by
  unfold toFill
  rw [mem_filterMap]
  constructor
  · rintro ⟨id, hid, h⟩
    obtain ⟨r, hr, hfound⟩ := bind_eq_some_iff.mp h
    rw [ite_none_right_eq_some] at hfound
    cases hfound.2
    exact ⟨r, mem_range.mp hid, hr, hfound.1.1, hfound.1.2, rfl, rfl⟩
  · rintro ⟨r, hlt, hr, hlast, hunfilled, hvolume, havg⟩
    refine ⟨e.id, mem_range.mpr hlt, ?_⟩
    rw [hr, bind_some, if_pos ⟨hlast, hunfilled⟩, ← hvolume, ← havg]

theorem toFill_sorted (rows : Nat → Option PositionRow) (n : Nat) (lastID : Int) :
    (toFill rows n lastID).Pairwise fun e e' => e.id < e'.id := by
  refine List.Pairwise.filterMap _ (fun i j hlt e he e' he' => ?_) pairwise_lt_range
  obtain ⟨r, -, he⟩ := bind_eq_some_iff.mp he
  obtain ⟨r', -, he'⟩ := bind_eq_some_iff.mp he'
  rw [ite_none_right_eq_some] at he he'
  cases he.2
  cases he'.2
  exact hlt

section

variable {rows₀ : Nat → Option PositionRow}

theorem JobOk.setJob (hok : JobOk pp rows₀ s) {job : BackfillJob}
    (hlast : UnfilledAfter s.tables.rows job.lastID)
    (hphase : job.phase.Ok pp rows₀ s.tables.rows) : JobOk pp rows₀ (s.setJob job) :=
  ⟨hok.below, hok.null, hok.checkpoint, hlast, hphase⟩

theorem JobOk.batch (hok : JobOk pp rows₀ s) (batch : Nat) : UpdatingOk pp rows₀ s.tables.rows
      ((toFill s.tables.rows s.tables.nextID s.job.lastID).take batch) s.job.lastID [] := by
  have hsorted := toFill_sorted s.tables.rows s.tables.nextID s.job.lastID
  constructor
  · intro e he
    obtain ⟨r, -, hr, -, hunfilled, hvolume, havg⟩ :=
      mem_toFill.mp (mem_of_mem_take he)
    exact ⟨r, (hok.null _ r hr hunfilled).2, hvolume, havg⟩
  · exact hsorted.sublist (take_sublist _ _)
  · exact nofun
  · intro id r hr hunfilled _
    have hlast := hok.lastID id r hr hunfilled
    refine ⟨hlast, ?_⟩
    have hmem : (⟨id, r.volume, r.avgPrice⟩ : PosRow) ∈
        toFill s.tables.rows s.tables.nextID s.job.lastID :=
      mem_toFill.mpr ⟨r, hok.below id r hr, hr, by simpa, hunfilled, rfl, rfl⟩
    rw [← take_append_drop batch (toFill _ _ _)] at hmem hsorted
    rcases mem_append.mp hmem with hmem | hmem
    · exact .inl (mem_map.mpr ⟨_, hmem, rfl⟩)
    · exact .inr fun e he => (pairwise_append.mp hsorted).2.2 e he _ hmem

theorem JobOk.all_filled (hok : JobOk pp rows₀ s)
    (h : (toFill s.tables.rows s.tables.nextID s.job.lastID).take flags.batch = [])
    (id : Nat) (r : PositionRow) (hr : s.tables.rows id = some r) : r.Filled := by
  intro hunfilled
  rcases take_eq_nil_iff.mp h with hzero | hnil
  · have hpos := flags.batch_pos
    omega
  · have hmem : (⟨id, r.volume, r.avgPrice⟩ : PosRow) ∈
        toFill s.tables.rows s.tables.nextID s.job.lastID :=
      mem_toFill.mpr ⟨r, hok.below id r hr, hr, by simpa using hok.lastID id r hr hunfilled,
        hunfilled, rfl, rfl⟩
    rw [hnil] at hmem
    cases hmem

theorem JobOk.update (hok : JobOk pp rows₀ s) {e : PosRow} {rest : List PosRow}
    {maxID : Nat} {writes : List (Nat × PositionRow)}
    (h : UpdatingOk pp rows₀ s.tables.rows (e :: rest) maxID writes) :
    UpdatingOk pp rows₀ s.tables.rows rest (max maxID e.id)
      (e.writesAfter pp s.tables.rows writes) := by
  have hsorted := pairwise_cons.mp h.sorted
  -- whatever is left besides this row comes after it
  have hleft : ∀ id r, s.tables.rows id = some r → r.Unfilled → id ∉ writes.map Prod.fst →
      id ≠ e.id → max maxID e.id < id ∧ (id ∈ rest.map PosRow.id ∨ ∀ e' ∈ rest, e'.id < id) := by
    intro id r hr hunfilled hid hne
    obtain ⟨hmax, hmem | hall⟩ := h.left id r hr hunfilled hid
    · rw [map_cons, mem_cons] at hmem
      have hrest := hmem.resolve_left hne
      obtain ⟨e', he', rfl⟩ := mem_map.mp hrest
      exact ⟨Nat.max_lt.mpr ⟨hmax, hsorted.1 e' he'⟩, .inl hrest⟩
    · have hall' := forall_mem_cons.mp hall
      exact ⟨Nat.max_lt.mpr ⟨hmax, hall'.1⟩, .inr hall'.2⟩
  have hentries := (forall_mem_cons.mp h.entries).2
  -- a row that is not updated is filled or not there
  have hskip : (∀ r, s.tables.rows e.id = some r → r.Filled) →
      UpdatingOk pp rows₀ s.tables.rows rest (max maxID e.id) writes := by
    intro hfilled
    refine ⟨hentries, hsorted.2, h.fills, fun id r hr hunfilled hid => ?_⟩
    refine hleft id r hr hunfilled hid fun heq => ?_
    rw [heq] at hr
    exact hfilled r hr hunfilled
  unfold PosRow.writesAfter
  cases hrow : s.tables.rows e.id with
  | none => exact hskip fun r hr => by rw [hrow] at hr; cases hr
  | some row =>
    dsimp only
    split
    next hunfilled =>
      obtain ⟨hnull, hrow₀⟩ := hok.null _ row hrow hunfilled
      obtain ⟨r, hr, hvolume, havg⟩ := h.entries e mem_cons_self
      rw [hrow₀] at hr
      cases hr
      refine ⟨hentries, hsorted.2, forall_mem_cons.mpr ⟨?_, h.fills⟩, ?_⟩
      · exact ⟨row, hrow, hnull, by rw [hvolume, havg]; rfl⟩
      · intro id r hr hun hid
        rw [map_cons, mem_cons, not_or] at hid
        exact hleft id r hr hun hid.2 hid.1
    next hfilled =>
      apply hskip
      intro r hr
      rw [hrow] at hr
      cases hr
      exact hfilled

theorem JobOk.commit (hok : JobOk pp rows₀ s) {rest : List PosRow} {maxID : Nat}
    {writes : List (Nat × PositionRow)}
    (h : UpdatingOk pp rows₀ s.tables.rows rest maxID writes) :
    JobOk pp rows₀
      { s with
        tables := { s.tables with rows := view s.tables.rows writes }
        job :=
          { s.job with
            phase :=
              if s.job.lastID < maxID then .checkpointing maxID else .querying } } := by
  have hafter : UnfilledAfter (view s.tables.rows writes) maxID := by
    intro id r hr hunfilled
    obtain ⟨hrow, hid⟩ := h.fills.view_unfilled hr hunfilled
    exact (h.left id r hrow hunfilled hid).1
  constructor
  · intro id r hr
    obtain ⟨old, hold, -⟩ := h.fills.view_some hr
    exact hok.below id old hold
  · exact fun id r hr hun => hok.null id r (h.fills.view_unfilled hr hun).1 hun
  · exact fun id r hr hun => hok.checkpoint id r (h.fills.view_unfilled hr hun).1 hun
  · exact fun id r hr hun => hok.lastID id r (h.fills.view_unfilled hr hun).1 hun
  · show BackfillPhase.Ok pp rows₀ (view s.tables.rows writes)
      (if s.job.lastID < maxID then .checkpointing maxID else .querying)
    split
    · exact hafter
    · trivial

theorem JobOk.step (hok : JobOk pp rows₀ s) {a : BackfillAction} (hjob : ∀ t, a ≠ .tables t)
    (h : s.step pp flags a = some s') : JobOk pp rows₀ s' := by
  have hphase := hok.phase
  cases step_jobMove hjob h with
  | pause a job hcommit hidle hlast =>
    refine hok.setJob ?_ (hidle.ok rows₀ _)
    rcases hlast with hlast | hlast <;> rw [hlast]
    · exact hok.lastID
    · exact hok.checkpoint
  | finish hnil => exact hok.setJob hok.lastID (hok.all_filled hnil)
  | fetch batch hbatch => exact hok.setJob hok.lastID (hbatch ▸ hok.batch flags.batch)
  | update e rest maxID writes hupdating =>
    rw [hupdating] at hphase
    exact hok.setJob hok.lastID (hok.update hphase)
  | commit rest maxID writes hupdating =>
    rw [hupdating] at hphase
    exact hok.commit hphase
  | upsertCheckpoint maxID hcheckpointing =>
    rw [hcheckpointing] at hphase
    exact ⟨hok.below, hok.null, hphase, hphase, trivial⟩

theorem BackfillSystem.step_tables {a : BackfillAction} (hjob : ∀ t, a ≠ .tables t)
    (h : s.step pp flags a = some s') :
    (s'.tables = s.tables ∧ (a ≠ .commit none)) ∨
      ∃ rest maxID writes, a = .commit none ∧ s.job.phase = .updating rest maxID writes ∧
        s'.tables = { s.tables with rows := view s.tables.rows writes } := by
  cases step_jobMove hjob h with
  | pause a job hcommit => exact .inl ⟨rfl, hcommit⟩
  | commit rest maxID writes hupdating => exact .inr ⟨rest, maxID, writes, rfl, hupdating, rfl⟩
  | finish | fetch | update | upsertCheckpoint => exact .inl ⟨rfl, by simp⟩

end

theorem BackfillOk.step (hok : BackfillOk pp s₀ s) {a : BackfillAction} (hallowed : s.AfterFill a)
    (h : s.step pp flags a = some s') : BackfillOk pp s₀ s' := by
  by_cases hjob : ∀ t, a ≠ .tables t
  · refine ⟨hok.toJobOk.step hjob h, ?_⟩
    rcases step_tables hjob h with ⟨htables, -⟩ | ⟨rest, maxID, writes, -, hupdating, htables⟩
    · rw [htables]
      exact hok.tables
    · have hphase := hok.phase
      rw [hupdating] at hphase
      rw [htables]
      exact hok.tables.filled hphase.fills
  · obtain ⟨t, rfl⟩ := not_forall_not.mp hjob
    dsimp only [BackfillSystem.step] at h
    split at h
    · cases h
    next tables hstep =>
      cases h
      exact hok.tablesStep hallowed.1 hallowed.2 hstep

theorem BackfillSystem.Start.backfillOk (hstart : s₀.Start) : BackfillOk pp s₀ s₀ := by
  have hafter : UnfilledAfter s₀.tables.rows 0 := by
    intro id r hr _
    apply Nat.pos_of_ne_zero
    rintro rfl
    rw [hstart.pos] at hr
    cases hr
  have htables : TablesOk pp _ PositionRow.Filled _ _ := hstart.tables.tablesOk (trueVolume pp) _
  refine ⟨⟨htables.below, ?_, ?_, ?_, ?_⟩, htables⟩
  · exact fun id r hr _ => ⟨hstart.null id r hr, hr⟩
  · rwa [hstart.checkpoint]
  · rwa [hstart.job]
  · rw [hstart.job]
    trivial

theorem BackfillOk.volume_eq (hok : BackfillOk pp s₀ s) (k : String × String) :
    s.tables.volume (trueVolume pp) k = Int64.ofInt (s₀.holding pp s k) := by
  rw [hok.tables.volume k]
  unfold holding
  rw [Int64.ofInt_add, Int64.ofInt_toInt]

theorem BackfillOk.sell_accepted (hok : BackfillOk pp s₀ s) {k : Nat} {tx : PositionTx}
    {userID symbol sellQtyStr : String} {rest : List PositionLeg} {q : Int64}
    (hk : s.tables.txs[k]? = some tx) (hphase : tx.phase = .select)
    (htodo : tx.todo = .sell userID symbol sellQtyStr :: rest)
    (hq : Model.parseQuantity pp.conv sellQtyStr = .ok q) (hpos : 0 < q.toInt)
    (hallowed : s.AfterFill (.tables (.first k none)))
    (hcovered : q.toInt ≤
      s₀.holding pp s (userID, symbol) + PositionLeg.net pp (userID, symbol) tx.done)
    (hlt : s₀.holding pp s (userID, symbol) + PositionLeg.net pp (userID, symbol) tx.done <
      2 ^ 63) :
    ∃ s' target new, s.step pp flags (.tables (.first k none)) = some s' ∧
      s'.tables.txs[k]? = some { tx with phase := .write target new } := by
  have htx := hok.tables.txs k tx hk (by rw [hphase]; rfl)
  have hbelow := hok.tables.below.view htx.below
  -- what the transaction sees is what it should
  have hcell : (cell key (trueVolume pp) 0 (userID, symbol)
      (view s.tables.rows tx.writes) s.tables.nextID).toInt =
      s₀.holding pp s (userID, symbol) + PositionLeg.net pp (userID, symbol) tx.done := by
    have hvolume : cell key (trueVolume pp) 0 (userID, symbol)
        s.tables.rows s.tables.nextID = _ := hok.volume_eq (userID, symbol)
    rw [htx.volume, hvolume, ← Int64.ofInt_add]
    exact Int64.toInt_ofInt_of_le (by omega) hlt
  cases hfirst : first key (userID, symbol) (view s.tables.rows tx.writes)
      s.tables.nextID with
  | none =>
    unfold cell at hcell
    rw [hfirst] at hcell
    change (0 : Int64).toInt = _ at hcell
    rw [Int64.toInt_zero] at hcell
    omega
  | some found =>
    obtain ⟨hrow, hkey⟩ := first_eq_some hfirst
    have hgood : found.2.Filled := by
      rcases view_cases hrow with hmem | ⟨-, hcommitted⟩
      · exact htx.good_writes _ hmem
      · exact hallowed.2 tx hk (.sell userID symbol sellQtyStr) (by rw [htodo]; rfl) _
          (hok.tables.below _ _ hcommitted) _ hcommitted hkey
    rw [cell_of_row htx.owns.unique hbelow hrow hkey, hgood.trueVolume_eq] at hcell
    have hquery : s.tables.query tx none (userID, symbol) = .ok (found.1, found.2.scan) := by
      unfold Tables.query
      rw [hfirst]
    have hle : q.toInt ≤ found.2.scan.volumeBigint.toInt := by omega
    have hsell : ∃ written, (PositionLeg.sell userID symbol sellQtyStr).compute pp
        (.ok (found.1, found.2.scan)) = .ok written := (PositionLeg.compute_sell hq).mpr hle
    obtain ⟨⟨target, new⟩, hcompute⟩ := hsell
    have hstep : s.tables.step pp s.job.places (.first k none) =
        some (s.tables.setTx k { tx with phase := .write target new }) := by
      dsimp only [Tables.step]
      rw [hk]
      dsimp only
      rw [hphase, htodo]
      dsimp only [PositionLeg.key]
      rw [hquery, hcompute]
    refine ⟨{ s with tables := s.tables.setTx k { tx with phase := .write target new } }, target,
      new, ?_, Run.getElem?_set_self hk _⟩
    dsimp only [BackfillSystem.step]
    rw [hstep]

end

/-- In a run whose legs query in turn and only after the row is filled: when the job has finished,
every bigint volume is the initial text volume plus what was bought less what was sold, in `int64`
and exactly if that fits; and at no time a covered sell is rejected. -/
theorem backfill_keeps_holdings {pp : PositionProcessor} {flags : BackfillFlags}
    {s₀ s : BackfillSystem} (hstart : s₀.Start)
    (hrun : Run.Reaches (step pp flags) BackfillSystem.AfterFill s₀ s) :
    (s.job.phase = .finished → ∀ id r, s.tables.rows id = some r →
      r.volumeBigint = some (Int64.ofInt (s₀.holding pp s r.key)) ∧
      (-2 ^ 63 ≤ s₀.holding pp s r.key → s₀.holding pp s r.key < 2 ^ 63 →
        ∃ v, r.volumeBigint = some v ∧ v.toInt = s₀.holding pp s r.key)) ∧
    ∀ k tx userID symbol sellQtyStr rest q, s.tables.txs[k]? = some tx → tx.phase = .select →
      tx.todo = .sell userID symbol sellQtyStr :: rest →
      Model.parseQuantity pp.conv sellQtyStr = .ok q → 0 < q.toInt →
      s.AfterFill (.tables (.first k none)) →
      q.toInt ≤ s₀.holding pp s (userID, symbol) + PositionLeg.net pp (userID, symbol) tx.done →
      s₀.holding pp s (userID, symbol) + PositionLeg.net pp (userID, symbol) tx.done < 2 ^ 63 →
      ∃ s' target new, s.step pp flags (.tables (.first k none)) = some s' ∧
        s'.tables.txs[k]? = some { tx with phase := .write target new } := by
  have hok : BackfillOk pp s₀ s := hrun.invariant (I := BackfillOk pp s₀) hstart.backfillOk
    fun s a s' hok hallowed hstep => hok.step hallowed hstep
  constructor
  · intro hfinished id r hr
    have hphase := hok.phase
    rw [hfinished] at hphase
    have hfilled : r.Filled := hphase id r hr
    have hvolume : r.volumeBigint = some (Int64.ofInt (s₀.holding pp s r.key)) := by
      rw [← hok.volume_eq r.key, Tables.volume,
        cell_of_row hok.tables.unique hok.tables.below hr rfl, hfilled.trueVolume_eq]
      unfold scan
      cases hv : r.volumeBigint with
      | none => exact absurd (.inl hv) hfilled
      | some v => rfl
    exact ⟨hvolume, fun hlo hhi => ⟨_, hvolume, Int64.toInt_ofInt_of_le hlo hhi⟩⟩
  · intro k tx userID symbol sellQtyStr rest q hk hphase htodo hq hpos hallowed hcovered hlt
    exact hok.sell_accepted hk hphase htodo hq hpos hallowed hcovered hlt

/-! ## A row that is traded before it is filled -/

def fiveCoinsAsText : PositionRow where
  userID := "alice"
  symbol := "BTC"
  volume := "5.00000000"
  avgPrice := "1.00000000"
  volumeBigint := none
  avgPriceBigint := none

def defaultFlags : BackfillFlags := ⟨500, 0, by decide⟩

def toBackfill : BackfillSystem where
  tables := Tables.ofRows [fiveCoinsAsText]
  checkpoint := 0
  job := .start 0

/-- The five coins of the text are gone after a purchase of one, and the job finds nothing to fill;
a sale of one coin is rejected although there are five. -/
theorem traded_before_filled :
    (∃ s, Run.Reaches (step amd64Processor defaultFlags) (fun _ _ => True)
        toBackfill s ∧ s.job.phase = .finished ∧ (∀ tx ∈ s.tables.txs, tx.phase = .committed) ∧
      toBackfill.holding amd64Processor s ("alice", "BTC") = 600000000 ∧
      (s.tables.rows 1).map volumeBigint = some (some 100000000)) ∧
    ∃ s, Run.Reaches (step amd64Processor defaultFlags) (fun _ _ => True)
        toBackfill s ∧ s.job.phase = .finished ∧
      toBackfill.holding amd64Processor s ("alice", "BTC") = 500000000 ∧
      s.tables.txs.map PositionTx.work = [.calls [.sell "alice" "BTC" "1.00000000"]] ∧
      s.tables.txs.map PositionTx.phase = [.rolledBack "持仓不足"] := by
  constructor
  · exact Run.exists_reaches
      [.tables (.begin 0 (.calls [.buy "alice" "BTC" "1.00000000" "1.00000000"])),
        .tables (.first 0 none), .tables (.write 0 none), .tables (.commit 0 none), .query none]
      (by decide +kernel) fun _ _ h => h
  · exact Run.exists_reaches
      [.tables (.begin 0 (.calls [.sell "alice" "BTC" "1.00000000"])), .tables (.first 0 none),
        .query none, .update none, .commit none, .upsertCheckpoint none, .query none]
      (by decide +kernel) fun _ _ h => h

theorem toBackfill_start : toBackfill.Start where
  tables := Tables.ofRows_start (nodup_singleton _)
  null := by
    intro id r hr
    cases id with
    | zero => cases hr
    | succ n =>
      rw [mem_singleton.mp (mem_of_getElem? hr)]
      exact ⟨rfl, rfl⟩
  pos := rfl
  checkpoint := rfl
  job := rfl

/-- A sale that is begun while the batch is under way and queries the row when it is filled. -/
theorem sold_after_filled :
    ∃ s, Run.Reaches (step amd64Processor defaultFlags) BackfillSystem.AfterFill
        toBackfill s ∧ s.job.phase = .finished ∧
      toBackfill.holding amd64Processor s ("alice", "BTC") = 400000000 ∧
      ∃ r, s.tables.rows 1 = some r ∧ r.key = ("alice", "BTC") ∧
        r.volumeBigint = some (Int64.ofInt (toBackfill.holding amd64Processor s r.key)) := by
  refine Run.exists_reaches
    [.query none, .update none,
      .tables (.begin 0 (.calls [.sell "alice" "BTC" "1.00000000"])), .commit none,
      .tables (.first 0 none), .upsertCheckpoint none, .tables (.write 0 none),
      .tables (.commit 0 none), .query none]
    (P := fun s => s.job.phase = .finished ∧
      toBackfill.holding amd64Processor s ("alice", "BTC") = 400000000 ∧
      (s.tables.rows 1).map key = some ("alice", "BTC")) (by decide +kernel)
    fun _ hreach ⟨hfinished, hholding, hrow⟩ => ?_
  obtain ⟨r, hr, hkey⟩ := map_eq_some_iff.mp hrow
  exact ⟨hfinished, hholding, r, hr, hkey,
    ((backfill_keeps_holdings toBackfill_start hreach).1 hfinished 1 r hr).1⟩

end CexHertz
