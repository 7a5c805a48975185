import CexHertz.Service.BackfillPositions

/-!
# Killing and resuming the backfill

Runs of the job of `cmd/migrate` one after the other, each with its own batch size and without a
limit of rows. A run can be killed between any two statements; the next one starts from the stored
checkpoint. `written` is history: the ids that committed updates have written.
-/

namespace CexHertz

open List

open Rows (view)

/-- The table and the job, the flags of the current run and what was written so far. -/
structure BackfillRuns where
  system : BackfillSystem
  flags : BackfillFlags
  written : List Nat

inductive RunsAction where
  | job (a : BackfillAction)
  | start (flags : BackfillFlags)

namespace BackfillRuns

def writes (s : BackfillSystem) : BackfillAction → List Nat
  | .commit none => s.job.places
  | _ => []

def step (pp : PositionProcessor) (s : BackfillRuns) : RunsAction → Option BackfillRuns
  | .job a =>
    (s.system.step pp s.flags a).map fun system =>
      { s with system := system, written := s.written ++ writes s.system a }
  | .start flags =>
    (s.system.step pp flags .restart).map fun system =>
      { s with system := system, flags := flags }

def Alone : RunsAction → Prop
  | .job (.query fault) | .job (.update fault) | .job (.commit fault)
  | .job (.upsertCheckpoint fault) => fault = none
  | .job .signal | .job .crash => True
  | .job (.tables _) | .job .restart => False
  | .start flags => flags.maxRows = 0

instance : (a : RunsAction) → Decidable (Alone a)
  | .job (.query fault) | .job (.update fault) | .job (.commit fault)
  | .job (.upsertCheckpoint fault) => inferInstanceAs (Decidable (fault = none))
  | .job .signal | .job .crash => isTrue trivial
  | .job (.tables _) | .job .restart => isFalse id
  | .start flags => inferInstanceAs (Decidable (flags.maxRows = 0))

end BackfillRuns

def ReadsAs (parse : String → Except String Int64) (text : String) (v : Int64) : Prop :=
  (text = "" ∧ v = 0) ∨ (text ≠ "" ∧ parse text = .ok v)

def PositionRow.Readable (pp : PositionProcessor) (r : PositionRow) : Prop :=
  (∃ v, ReadsAs (Model.parseQuantity pp.conv) r.volume v) ∧
    ∃ v, ReadsAs (Model.parsePrice pp.conv) r.avgPrice v

/-- The first start: no checkpoint, and rows with positive ids that are NULL and readable or
filled. -/
structure BackfillRuns.Start (pp : PositionProcessor) (s : BackfillRuns) : Prop where
  below : Rows.Below s.system.tables.rows s.system.tables.nextID
  pos : s.system.tables.rows 0 = none
  rows : ∀ id r, s.system.tables.rows id = some r → (r.Null ∧ r.Readable pp) ∨ r.Filled
  checkpoint : s.system.checkpoint = 0
  job : s.system.job = .start 0
  flags : s.flags.maxRows = 0
  written : s.written = []

theorem ReadsAs.parseOrZero_eq {parse : String → Except String Int64} {text : String} {v : Int64}
    (h : ReadsAs parse text v) : parseOrZero parse text = v := by
  unfold parseOrZero
  rcases h with ⟨htext, rfl⟩ | ⟨htext, hparse⟩
  · rw [if_pos htext]
  · rw [if_neg htext, hparse]

/-! ## What the runs keep -/

def BackfillPhase.Once : BackfillPhase → Prop
  | .updating rest _ writes =>
    (writes.map Prod.fst).Nodup ∧ ∀ e ∈ rest, e.id ∉ writes.map Prod.fst
  | _ => True

structure ResumeOk (pp : PositionProcessor) (rows₀ : Nat → Option PositionRow) (s : BackfillRuns) :
    Prop where
  job : JobOk pp rows₀ s.system
  once : s.system.job.phase.Once
  origin : ∀ id, s.system.tables.rows id = rows₀ id ∨
    ∃ r, rows₀ id = some r ∧ r.Null ∧ s.system.tables.rows id = some (r.filled pp)
  filled : ∀ id ∈ s.written, ∃ r, s.system.tables.rows id = some r ∧ r.Filled
  nodup : s.written.Nodup

section

variable {pp : PositionProcessor} {rows₀ : Nat → Option PositionRow} {s s' : BackfillRuns}

theorem BackfillRuns.Start.resumeOk (h : s.Start pp) : ResumeOk pp s.system.tables.rows s := by
  have hafter : UnfilledAfter s.system.tables.rows 0 := by
    intro id r hr _
    apply Nat.pos_of_ne_zero
    rintro rfl
    rw [h.pos] at hr
    cases hr
  refine ⟨⟨h.below, ?_, ?_, ?_, ?_⟩, ?_, fun _ => .inl rfl, ?_, ?_⟩
  · intro id r hr hunfilled
    exact ⟨((h.rows id r hr).resolve_right fun hfilled => hfilled hunfilled).1, hr⟩
  · rwa [h.checkpoint]
  · rwa [h.job]
  · rw [h.job]
    trivial
  · rw [h.job]
    trivial
  · simp [h.written]
  · simp [h.written]

theorem BackfillPhase.Once.update {rows : Nat → Option PositionRow} {e : PosRow}
    {rest : List PosRow} {maxID : Nat} {writes : List (Nat × PositionRow)}
    (h : BackfillPhase.Once (.updating (e :: rest) maxID writes))
    (hlater : ∀ e' ∈ rest, e.id < e'.id) :
    BackfillPhase.Once (.updating rest (max maxID e.id) (e.writesAfter pp rows writes)) := by
  have hrest := forall_mem_cons.mp h.2
  unfold PosRow.writesAfter
  split
  next row _ =>
    split
    · refine ⟨nodup_cons.mpr ⟨hrest.1, h.1⟩, fun e' he' => ?_⟩
      rw [map_cons, mem_cons, not_or]
      exact ⟨Nat.ne_of_gt (hlater e' he'), hrest.2 e' he'⟩
    · exact ⟨h.1, hrest.2⟩
  · exact ⟨h.1, hrest.2⟩

theorem JobOk.step_once {system system' : BackfillSystem} {flags : BackfillFlags}
    {a : BackfillAction} (hok : JobOk pp rows₀ system) (honce : system.job.phase.Once)
    (hjob : ∀ t, a ≠ .tables t) (h : system.step pp flags a = some system') :
    system'.job.phase.Once := by
  cases BackfillSystem.step_jobMove hjob h with
  | pause a job hcommit hidle =>
    show job.phase.Once
    cases hphase : job.phase with
    | updating rest maxID writes =>
      rw [hphase] at hidle
      cases hidle
    | querying | checkpointing | finished | stopped | died => trivial
  | fetch batch => exact ⟨nodup_nil, fun e _ => not_mem_nil⟩
  | update e rest maxID writes hupdating =>
    have hphase := hok.phase
    rw [hupdating] at honce hphase
    exact honce.update (pairwise_cons.mp hphase.sorted).1
  | commit rest maxID writes =>
    show BackfillPhase.Once (if _ then _ else _)
    split <;> trivial
  | finish | upsertCheckpoint => trivial

theorem ResumeOk.commit (hok : ResumeOk pp rows₀ s) {rest : List PosRow} {maxID : Nat}
    {writes : List (Nat × PositionRow)}
    (hphase : s.system.job.phase = .updating rest maxID writes) :
    (∀ id, view s.system.tables.rows writes id = rows₀ id ∨ ∃ r, rows₀ id = some r ∧ r.Null ∧
        view s.system.tables.rows writes id = some (r.filled pp)) ∧
    (∀ id ∈ s.written ++ writes.map Prod.fst,
      ∃ r, view s.system.tables.rows writes id = some r ∧ r.Filled) ∧
    (s.written ++ writes.map Prod.fst).Nodup := by
  have hupdating := hok.job.phase
  rw [hphase] at hupdating
  have honce := hok.once
  rw [hphase] at honce
  refine ⟨fun id => ?_, fun id hid => ?_, ?_⟩
  · by_cases hid : id ∈ writes.map Prod.fst
    · obtain ⟨new, hmem, hview⟩ := Rows.view_of_mem hid
      obtain ⟨old, hold, hnull, heq⟩ := hupdating.fills _ hmem
      refine .inr ⟨old, (hok.job.null _ _ hold hnull.unfilled).2, hnull, ?_⟩
      rw [hview, ← heq]
    · rw [Rows.view_of_not_mem hid]
      exact hok.origin id
  · rcases mem_append.mp hid with hid | hid
    · obtain ⟨r, hr, hfilled⟩ := hok.filled id hid
      exact ⟨r, hupdating.fills.view_filled hr hfilled, hfilled⟩
    · obtain ⟨new, hmem, hview⟩ := Rows.view_of_mem hid
      obtain ⟨old, -, -, heq⟩ := hupdating.fills _ hmem
      subst heq
      exact ⟨_, hview _, old.filled_filled pp⟩
  · refine nodup_append.mpr ⟨hok.nodup, honce.1, fun id hid id' hid' heq => ?_⟩
    obtain ⟨r, hr, hfilled⟩ := hok.filled id hid
    obtain ⟨w, hw, rfl⟩ := mem_map.mp hid'
    obtain ⟨old, hold, hnull, -⟩ := hupdating.fills w hw
    rw [heq, hold] at hr
    cases hr
    exact hfilled hnull.unfilled

theorem ResumeOk.step (hok : ResumeOk pp rows₀ s) {a : RunsAction} (halone : BackfillRuns.Alone a)
    (h : s.step pp a = some s') : ResumeOk pp rows₀ s' := by
  cases a with
  | start flags =>
    obtain ⟨system, hstep, rfl⟩ := Option.map_eq_some_iff.mp h
    have hjob : ∀ t, BackfillAction.restart ≠ .tables t := fun t => by simp
    rcases BackfillSystem.step_tables hjob hstep with ⟨htables, -⟩ | ⟨_, _, _, hcommit, -, -⟩
    · exact ⟨hok.job.step hjob hstep, hok.job.step_once hok.once hjob hstep,
        by dsimp only; rw [htables]; exact hok.origin,
        by dsimp only; rw [htables]; exact hok.filled, hok.nodup⟩
    · cases hcommit
  | job a =>
    obtain ⟨system, hstep, rfl⟩ := Option.map_eq_some_iff.mp h
    have hjob : ∀ t, a ≠ .tables t := by
      rintro t rfl
      exact halone
    have hnext := hok.job.step hjob hstep
    have honce := hok.job.step_once hok.once hjob hstep
    rcases BackfillSystem.step_tables hjob hstep with ⟨htables, hcommit⟩ |
      ⟨rest, maxID, writes, rfl, hphase, htables⟩
    · have hnone : BackfillRuns.writes s.system a = [] := by
        unfold BackfillRuns.writes
        split
        · exact absurd rfl hcommit
        · rfl
      refine ⟨hnext, honce, ?_, ?_, ?_⟩ <;> dsimp only
      · rw [htables]
        exact hok.origin
      · rw [htables, hnone, append_nil]
        exact hok.filled
      · rw [hnone, append_nil]
        exact hok.nodup
    · have hwrites : BackfillRuns.writes s.system (.commit none) = writes.map Prod.fst := by
        unfold BackfillRuns.writes BackfillJob.places
        rw [hphase]
      obtain ⟨horigin, hfilled, hnodup⟩ := hok.commit hphase
      refine ⟨hnext, honce, ?_, ?_, ?_⟩ <;> dsimp only
      · rwa [htables]
      · rwa [htables, hwrites]
      · rwa [hwrites]

/-- However often the job was killed and with whatever batch sizes it was resumed: when a run ends
normally, every row that was NULL has the values of its texts, every row that was filled is as it
was, and no row was written twice. -/
theorem resumed_backfill_fills {pp : PositionProcessor} {s₀ s : BackfillRuns}
    (hstart : s₀.Start pp)
    (hrun : Run.Reaches (BackfillRuns.step pp) (fun _ a => BackfillRuns.Alone a) s₀ s)
    (hend : s.system.job.phase = .finished) :
    (∀ id r, s₀.system.tables.rows id = some r → r.Null →
      ∃ vol avg, ReadsAs (Model.parseQuantity pp.conv) r.volume vol ∧
        ReadsAs (Model.parsePrice pp.conv) r.avgPrice avg ∧
        s.system.tables.rows id = some (r.fill vol avg)) ∧
    (∀ id r, s₀.system.tables.rows id = some r → r.Filled → s.system.tables.rows id = some r) ∧
    s.written.Nodup := by
  have hok : ResumeOk pp s₀.system.tables.rows s :=
    hrun.invariant (I := ResumeOk pp s₀.system.tables.rows) hstart.resumeOk
      fun s a s' hok halone hstep => hok.step halone hstep
  have hphase := hok.job.phase
  rw [hend] at hphase
  refine ⟨fun id r hr hnull => ?_, fun id r hr hfilled => ?_, hok.nodup⟩
  · obtain ⟨⟨vol, hvol⟩, avg, havg⟩ :=
      ((hstart.rows id r hr).resolve_right fun hfilled => hfilled hnull.unfilled).2
    refine ⟨vol, avg, hvol, havg, ?_⟩
    rcases hok.origin id with hsame | ⟨r', hr', -, hfilled⟩
    · rw [hr] at hsame
      exact absurd hnull.unfilled (hphase id r hsame)
    · rw [hr] at hr'
      cases hr'
      rw [hfilled, PositionRow.filled, hvol.parseOrZero_eq, havg.parseOrZero_eq]
  · rcases hok.origin id with hsame | ⟨r', hr', hnull, -⟩
    · rw [hsame, hr]
    · rw [hr] at hr'
      cases hr'
      exact absurd hnull.unfilled hfilled

end

/-! ### A run killed between commit and checkpoint -/

/-- Rows to fill around one that is filled, before a run with batches of one row. -/
def threeRows : BackfillRuns where
  system :=
    { tables := Tables.ofRows [fiveCoinsAsText, tenCoins "bob", fiveCoinsAsText]
      checkpoint := 0
      job := .start 0 }
  flags := ⟨1, 0, Nat.one_pos⟩
  written := []

theorem fiveCoinsAsText_readable : fiveCoinsAsText.Readable amd64Processor :=
  ⟨⟨500000000, .inr ⟨by decide +kernel, by decide +kernel⟩⟩,
    100000000, .inr ⟨by decide +kernel, by decide +kernel⟩⟩

theorem threeRows_start : threeRows.Start amd64Processor where
  below := by
    intro id r hr
    cases id with
    | zero => cases hr
    | succ n => exact Nat.succ_lt_succ (List.getElem?_eq_some_iff.mp hr).1
  pos := rfl
  rows := by
    intro id r hr
    cases id with
    | zero => cases hr
    | succ n =>
      have hmem := mem_of_getElem? hr
      simp only [mem_cons, not_mem_nil, or_false] at hmem
      rcases hmem with rfl | rfl | rfl
      · exact .inl ⟨⟨rfl, rfl⟩, fiveCoinsAsText_readable⟩
      · exact .inr (by decide)
      · exact .inl ⟨⟨rfl, rfl⟩, fiveCoinsAsText_readable⟩
  checkpoint := rfl
  job := rfl
  flags := rfl
  written := rfl

/-- The first row is committed, the checkpoint is not; the next run takes the third row only. -/
theorem threeRows_resumed :
    ∃ s, Run.Reaches (BackfillRuns.step amd64Processor) (fun _ a => BackfillRuns.Alone a)
        threeRows s ∧ s.system.job.phase = .finished ∧ s.written = [1, 3] ∧ s.written.Nodup ∧
      s.system.tables.rows 2 = some (tenCoins "bob") := by
  refine Run.exists_reaches
    [.job (.query none), .job (.update none), .job (.commit none), .job .crash,
      .start defaultFlags, .job (.query none), .job (.update none), .job (.commit none),
      .job (.upsertCheckpoint none), .job (.query none)]
    (P := fun s => s.system.job.phase = .finished ∧ s.written = [1, 3]) (by decide +kernel)
    fun _ hreach ⟨hend, hwritten⟩ => ?_
  obtain ⟨-, hfilled, hnodup⟩ := resumed_backfill_fills threeRows_start hreach hend
  exact ⟨hend, hwritten, hnodup, hfilled 2 _ rfl (by decide)⟩

end CexHertz
