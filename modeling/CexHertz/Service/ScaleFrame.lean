import CexHertz.Service.ScaleSettling

/-!
# What scaling leaves alone

`scaleIfNeeded` on a table with migrations. The copy of a migration is without its `NewPartitionID`,
which the redirects need. Symbols with a moderate load lose their place when a new partition takes
the id of theirs.
-/

namespace CexHertz

open PartitionTable ScaleRun Run

/-! ## The table with its migrations -/

structure SymbolMigrationInfo where
  symbol : String
  from_ : String
  to_ : String
  migrating : Bool
  updateTime : Int
  newPartitionID : String
  deriving DecidableEq, Repr

def SymbolMigrationInfo.copy (info : SymbolMigrationInfo) : SymbolMigrationInfo where
  symbol := info.symbol
  from_ := info.from_
  to_ := info.to_
  migrating := info.migrating
  updateTime := info.updateTime
  newPartitionID := ""

structure MigratingTable where
  table : PartitionTable
  migrationInfo : AList fun _ : String => SymbolMigrationInfo

def MigratingTable.deepCopy (mt : MigratingTable) : MigratingTable where
  table := mt.table
  migrationInfo := mapValues SymbolMigrationInfo.copy mt.migrationInfo

/-- Where a request for the symbol is redirected to, on the node `currentID`. -/
def symbolMigrationChecker (mt : MigratingTable) (currentID symbol : String) : Bool × String :=
  match mt.migrationInfo.lookup symbol with
  | none => (false, "")
  | some info =>
    if info.migrating ∧ info.newPartitionID ≠ "" ∧ currentID ≠ info.newPartitionID then
      (true, info.newPartitionID)
    else (false, "")

/-- A call of `scaleIfNeeded`: the copy with other partitions and routes, if it is written back. -/
def MigratingTable.scaled (mt : MigratingTable) (choices : ScaleChoices) : Option MigratingTable :=
  (scaleIfNeeded mt.deepCopy.table choices).map fun r =>
    if r.2 then { mt.deepCopy with table := r.1 } else mt

/-! ## What is asked of it -/

def PartitionTable.workersOf (pt : PartitionTable) (pid : String) : List String :=
  ((pt.partitions.lookup pid).map (·.workers)).getD []

section

variable (getSymbolQPS : String → Int)

def Neutral (symbol : String) : Prop :=
  5 ≤ getSymbolQPS symbol ∧ getSymbolQPS symbol ≤ 800

instance : DecidablePred (Neutral getSymbolQPS) :=
  fun _ => inferInstanceAs (Decidable (_ ∧ _))

structure PartitionTable.NeutralKept (pt pt' : PartitionTable) : Prop where
  routes : ∀ s, Neutral getSymbolQPS s → pt'.symbolToPartition s = pt.symbolToPartition s
  members : ∀ s, Neutral getSymbolQPS s → ∀ pid, s ∈ pt'.symbolsOf pid ↔ s ∈ pt.symbolsOf pid
  workers : ∀ s, Neutral getSymbolQPS s → ∀ pid, s ∈ pt.symbolsOf pid →
    pt'.workersOf pid = pt.workersOf pid

structure MigratingTable.Framed (mt mt' : MigratingTable) : Prop where
  migrations : ∀ symbol, mt'.migrationInfo.lookup symbol = mt.migrationInfo.lookup symbol
  neutral : mt.table.NeutralKept getSymbolQPS mt'.table

def ScaleRun.Spares (run : ScaleRun) : ScaleAction → Prop
  | .create clock =>
    ∀ symbol ∈ run.hotSymbols.head?,
      ∀ s ∈ run.newPT.symbolsOf (hotPartitionID run.pid symbol clock), ¬ Neutral getSymbolQPS s
  | .finish order clock =>
    1 < (findColdSymbols order run.symbolLoad).length →
      ∀ s ∈ run.newPT.symbolsOf (coldPartitionID clock), ¬ Neutral getSymbolQPS s
  | _ => True

instance (run : ScaleRun) : (action : ScaleAction) → Decidable (run.Spares getSymbolQPS action)
  | .create _ => inferInstanceAs (Decidable (∀ _ ∈ run.hotSymbols.head?, _))
  | .finish .. => inferInstanceAs (Decidable (_ < _ → _))
  | .start _ | .visit _ => instDecidableTrue

/-- No turn of the call overwrites a partition that lists a symbol with a moderate load. -/
def PartitionTable.Spared (pt : PartitionTable) (moves : List ScaleAction) (order : List String)
    (clock : String) : Prop :=
  ∃ run, execute move (ScaleRun.Spares getSymbolQPS)
      (AutoScaler.start ⟨pt, none⟩ getSymbolQPS) moves = some run ∧
    run.Spares getSymbolQPS (.finish order clock)

/-! ## Neutral symbols -/

def PartitionTable.NeutralLost (pt pt' : PartitionTable) : Prop :=
  ∃ s pid, Neutral getSymbolQPS s ∧ s ∈ pt.symbolsOf pid ∧ s ∉ pt'.symbolsOf pid

end

section

variable {getSymbolQPS : String → Int} {pt pt' pt'' : PartitionTable}

theorem PartitionTable.NeutralKept.refl : pt.NeutralKept getSymbolQPS pt :=
  ⟨fun _ _ => rfl, fun _ _ _ => Iff.rfl, fun _ _ _ _ => rfl⟩

theorem PartitionTable.NeutralKept.trans (h : pt.NeutralKept getSymbolQPS pt')
    (h' : pt'.NeutralKept getSymbolQPS pt'') : pt.NeutralKept getSymbolQPS pt'' where
  routes := fun s hs => (h'.routes s hs).trans (h.routes s hs)
  members := fun s hs pid => (h'.members s hs pid).trans (h.members s hs pid)
  workers := by
    intro s hs pid hmem
    rw [h'.workers s hs pid ((h.members s hs pid).mpr hmem), h.workers s hs pid hmem]

theorem PartitionTable.NeutralKept.not_lost (h : pt.NeutralKept getSymbolQPS pt') :
    ¬ pt.NeutralLost getSymbolQPS pt' := by
  rintro ⟨s, pid, hs, hmem, hnot⟩
  exact hnot ((h.members s hs pid).mpr hmem)

theorem PartitionTable.NeutralKept.lost (h : pt.NeutralKept getSymbolQPS pt')
    (h' : pt'.NeutralLost getSymbolQPS pt'') : pt.NeutralLost getSymbolQPS pt'' := by
  obtain ⟨s, pid, hs, hmem, hnot⟩ := h'
  exact ⟨s, pid, hs, (h.members s hs pid).mp hmem, hnot⟩

theorem PartitionTable.workersOf_putPartition (pid pid' : String) (p : Partition) :
    (pt.putPartition pid p).workersOf pid' =
      if pid' = pid then p.workers else pt.workersOf pid' := by
  unfold workersOf putPartition
  split
  next heq => rw [heq, AList.lookup_insert]; rfl
  next hne => rw [AList.lookup_insert_ne hne]

/-- The partition `pid` was written, without neutral symbols, and other partitions and routes have
changed at most in symbols that are not neutral. -/
structure PartitionTable.Overwrites (getSymbolQPS : String → Int) (pt : PartitionTable)
    (pid : String) (pt' : PartitionTable) : Prop where
  routes : ∀ s, Neutral getSymbolQPS s → pt'.symbolToPartition s = pt.symbolToPartition s
  members : ∀ s, Neutral getSymbolQPS s → ∀ pid',
    s ∈ pt'.symbolsOf pid' ↔ pid' ≠ pid ∧ s ∈ pt.symbolsOf pid'
  workers : ∀ pid', pid' ≠ pid → pt'.workersOf pid' = pt.workersOf pid'

theorem PartitionTable.Overwrites.kept {pid : String} (h : pt.Overwrites getSymbolQPS pid pt')
    (hspared : ∀ s ∈ pt.symbolsOf pid, ¬ Neutral getSymbolQPS s) :
    pt.NeutralKept getSymbolQPS pt' := by
  have hne : ∀ s, Neutral getSymbolQPS s → ∀ pid', s ∈ pt.symbolsOf pid' → pid' ≠ pid := by
    rintro s hs pid' hmem rfl
    exact hspared s hmem hs
  refine ⟨h.routes, fun s hs pid' => ?_, fun s hs pid' hmem => h.workers pid' (hne s hs pid' hmem)⟩
  rw [h.members s hs pid']
  exact and_iff_right_of_imp (hne s hs pid')

theorem PartitionTable.Overwrites.lost {pid : String} (h : pt.Overwrites getSymbolQPS pid pt')
    (hnot : ¬ ∀ s ∈ pt.symbolsOf pid, ¬ Neutral getSymbolQPS s) :
    pt.NeutralLost getSymbolQPS pt' := by
  push Not at hnot
  obtain ⟨s, hmem, hs⟩ := hnot
  exact ⟨s, pid, hs, hmem, fun hmem' => ((h.members s hs pid).mp hmem').1 rfl⟩

def PartitionTable.NoneAdded (getSymbolQPS : String → Int) (pt pt' : PartitionTable) : Prop :=
  ∀ s, Neutral getSymbolQPS s → ∀ pid, s ∈ pt'.symbolsOf pid → s ∈ pt.symbolsOf pid

theorem PartitionTable.Overwrites.noneAdded {pid : String}
    (h : pt.Overwrites getSymbolQPS pid pt') : pt.NoneAdded getSymbolQPS pt' :=
  fun s hs pid' hmem => ((h.members s hs pid').mp hmem).2

theorem PartitionTable.NeutralKept.noneAdded (h : pt.NeutralKept getSymbolQPS pt') :
    pt.NoneAdded getSymbolQPS pt' :=
  fun s hs pid => (h.members s hs pid).mp

theorem PartitionTable.NeutralLost.trans (h : pt.NeutralLost getSymbolQPS pt')
    (h' : pt'.NoneAdded getSymbolQPS pt'') : pt.NeutralLost getSymbolQPS pt'' := by
  obtain ⟨s, pid, hs, hmem, hnot⟩ := h
  exact ⟨s, pid, hs, hmem, fun hmem' => hnot (h' s hs pid hmem')⟩

/-! ## Turns -/

theorem kept_removeSymbols {pid : String} {p : Partition} {symbols : List String}
    (hp : pt.partitions.lookup pid = some p)
    (hsymbols : ∀ s ∈ symbols, ¬ Neutral getSymbolQPS s) :
    pt.NeutralKept getSymbolQPS
      (pt.putPartition pid (removeSymbolsFromPartition p symbols)) where
  routes := fun s _ => rfl
  members := by
    intro s hs pid'
    rw [symbolsOf_putPartition]
    split
    next heq =>
      subst heq
      have hkeep : s ∉ symbols := fun hmem => hsymbols s hmem hs
      simp [symbolsOf, hp, removeSymbolsFromPartition, hkeep]
    next => rfl
  workers := by
    intro s _ pid' _
    rw [workersOf_putPartition]
    split
    next heq =>
      subst heq
      simp [workersOf, hp, removeSymbolsFromPartition]
    next => rfl

theorem overwrites_createHotPartition {symbol : String} (hsymbol : ¬ Neutral getSymbolQPS symbol)
    (pid clock : String) (wlp : WorkerLoadProvider) :
    pt.Overwrites getSymbolQPS (hotPartitionID pid symbol clock)
      (createHotPartition pt pid symbol wlp clock) where
  routes := by
    intro s hs
    have hne : s ≠ symbol := fun heq => hsymbol (heq ▸ hs)
    exact Function.update_of_ne hne _ _
  members := by
    intro s hs pid'
    have hne : s ≠ symbol := fun heq => hsymbol (heq ▸ hs)
    rw [symbolsOf_createHotPartition]
    split
    next heq => simp [heq, hne]
    next hpid => simp [hpid]
  workers := by
    intro pid' hne
    exact (pt.workersOf_putPartition _ pid' _).trans (if_neg hne)

theorem mem_dropColdSymbols {newPID s : String} {coldSymbols : List String} {p : Partition}
    (hs : s ∉ coldSymbols) :
    s ∈ (dropColdSymbols newPID coldSymbols p).symbols ↔ s ∈ p.symbols := by
  unfold dropColdSymbols
  split
  next => rfl
  next => simp [hs]

theorem overwrites_mergeColdSymbols {order : List String} {symbolLoad : SymbolLoad}
    (hcold : 1 < (findColdSymbols order symbolLoad).length)
    (hsymbols : ∀ s ∈ findColdSymbols order symbolLoad, ¬ Neutral getSymbolQPS s)
    (wlp : WorkerLoadProvider) (clock : String) :
    pt.Overwrites getSymbolQPS (coldPartitionID clock)
      (mergeColdSymbols pt order symbolLoad wlp clock).1 := by
  have hkeep : ∀ s, Neutral getSymbolQPS s → s ∉ findColdSymbols order symbolLoad :=
    fun s hs hmem => hsymbols s hmem hs
  unfold mergeColdSymbols
  rw [if_neg (by omega)]
  refine ⟨fun s hs => if_neg (hkeep s hs), fun s hs pid' => ?_, fun pid' hne => ?_⟩
  · unfold symbolsOf putPartition
    rw [lookup_mapValues]
    rcases eq_or_ne pid' (coldPartitionID clock) with rfl | hne
    · simp [AList.lookup_insert, mem_dropColdSymbols (hkeep s hs), idlePartition, hkeep s hs]
    · rw [AList.lookup_insert_ne hne]
      cases pt.partitions.lookup pid' with
      | none => simp
      | some p => simp [hne, mem_dropColdSymbols (hkeep s hs)]
  · unfold workersOf putPartition
    rw [lookup_mapValues, AList.lookup_insert_ne hne]
    cases pt.partitions.lookup pid' with
    | none => rfl
    | some p =>
      show (dropColdSymbols _ _ p).workers = p.workers
      unfold dropColdSymbols
      split <;> rfl

theorem not_neutral_of_hot {s : String}
    (h : 800 < (collectLoads getSymbolQPS pt).qps s) : ¬ Neutral getSymbolQPS s := by
  have hlt := (hot_collectLoads_iff.mp h).2
  intro hs
  exact absurd hs.2 (Int.not_le.mpr hlt)

end

section

variable {getSymbolQPS : String → Int} {pt : PartitionTable} {run run' : ScaleRun}

theorem ScaleRun.Ongoing.visit_kept (h : run.Ongoing getSymbolQPS pt) {pid : String}
    (hvisit : run.visit pid = some run') : run.newPT.NeutralKept getSymbolQPS run'.newPT := by
  obtain ⟨-, -, p, hp, rfl⟩ := visit_eq_some hvisit
  split
  next => exact .refl
  next =>
    refine kept_removeSymbols hp fun s hs => ?_
    have hlt := (mem_findHotSymbols.mp hs).2
    rw [h.symbolLoad] at hlt
    exact not_neutral_of_hot hlt

theorem ScaleRun.Ongoing.create_overwrites (h : run.Ongoing getSymbolQPS pt) {clock : String}
    (hcreate : run.create clock = some run') :
    ∃ symbol, run.hotSymbols.head? = some symbol ∧
      run.newPT.Overwrites getSymbolQPS (hotPartitionID run.pid symbol clock) run'.newPT := by
  obtain ⟨symbol, rest, hhot, rfl⟩ := create_eq_some hcreate
  have hsymbol := h.splits.waiting symbol (by rw [hhot]; exact List.mem_cons_self)
  rw [h.symbolLoad] at hsymbol
  exact ⟨symbol, by rw [hhot]; rfl,
    overwrites_createHotPartition (not_neutral_of_hot hsymbol) _ _ _⟩

theorem ScaleRun.Ongoing.move_spec (h : run.Ongoing getSymbolQPS pt) {a : ScaleAction}
    (hmove : run.move a = some run') :
    run.newPT.NoneAdded getSymbolQPS run'.newPT ∧
      (run.Spares getSymbolQPS a → run.newPT.NeutralKept getSymbolQPS run'.newPT) ∧
      (¬ run.Spares getSymbolQPS a → run.newPT.NeutralLost getSymbolQPS run'.newPT) := by
  cases a with
  | visit pid =>
    have hkept := h.visit_kept hmove
    exact ⟨hkept.noneAdded, fun _ => hkept, fun hnot => absurd trivial hnot⟩
  | create clock =>
    obtain ⟨symbol, hhead, hwrite⟩ := h.create_overwrites hmove
    have hspares : run.Spares getSymbolQPS (.create clock) ↔
        ∀ s ∈ run.newPT.symbolsOf (hotPartitionID run.pid symbol clock),
          ¬ Neutral getSymbolQPS s := by
      unfold ScaleRun.Spares
      rw [hhead]
      simp
    rw [hspares]
    exact ⟨hwrite.noneAdded, hwrite.kept, hwrite.lost⟩
  | start | finish => cases hmove

theorem ScaleRun.Ongoing.merge_spec (h : run.Ongoing getSymbolQPS pt) {order : List String}
    (horder : order.Perm run.symbolLoad.keys) (wlp : WorkerLoadProvider) (clock : String) :
    run.newPT.NoneAdded getSymbolQPS
        (mergeColdSymbols run.newPT order run.symbolLoad wlp clock).1 ∧
      (run.Spares getSymbolQPS (.finish order clock) → run.newPT.NeutralKept getSymbolQPS
        (mergeColdSymbols run.newPT order run.symbolLoad wlp clock).1) ∧
      (¬ run.Spares getSymbolQPS (.finish order clock) → run.newPT.NeutralLost getSymbolQPS
        (mergeColdSymbols run.newPT order run.symbolLoad wlp clock).1) := by
  have hspares : run.Spares getSymbolQPS (.finish order clock) ↔
      (1 < (findColdSymbols order run.symbolLoad).length →
        ∀ s ∈ run.newPT.symbolsOf (coldPartitionID clock), ¬ Neutral getSymbolQPS s) := Iff.rfl
  rw [hspares]
  by_cases hcold : 1 < (findColdSymbols order run.symbolLoad).length
  · have hsymbols : ∀ s ∈ findColdSymbols order run.symbolLoad, ¬ Neutral getSymbolQPS s := by
      intro s hmem hs
      rw [h.symbolLoad] at hmem horder
      exact absurd hs.1 (Int.not_le.mpr ((mem_findColdSymbols horder).mp hmem).2)
    have hwrite : run.newPT.Overwrites getSymbolQPS _ _ :=
      overwrites_mergeColdSymbols hcold hsymbols wlp clock
    rw [imp_iff_right hcold]
    exact ⟨hwrite.noneAdded, hwrite.kept, hwrite.lost⟩
  · rw [mergeColdSymbols_of_le (by omega)]
    exact ⟨fun _ _ _ hmem => hmem, fun _ => .refl, fun hnot => absurd (absurd · hcold) hnot⟩

end

/-! ## Calls -/

section

variable {getSymbolQPS : String → Int} {pt pt' : PartitionTable} {moves : List ScaleAction}
  {order : List String} {clock : String} {written : Bool}

theorem scaled_merged (h : pt.scaled ⟨getSymbolQPS, moves, order, clock⟩ = some (pt', written)) :
    ∃ run : ScaleRun, execute move (fun _ _ => True)
        (AutoScaler.start ⟨pt, none⟩ getSymbolQPS) moves = some run ∧
      order.Perm run.symbolLoad.keys ∧
      pt' = (mergeColdSymbols run.newPT order run.symbolLoad mockWorkerLoadProvider clock).1 := by
  obtain ⟨run, hrun, -, -, horder, hwritten, hpt'⟩ := scaled_eq_some h
  refine ⟨run, hrun, horder, ?_⟩
  cases written with
  | true => exact hpt'
  | false =>
    obtain ⟨hhot, hcold⟩ := Bool.or_eq_false_iff.mp hwritten.symm
    have hle : (findColdSymbols order run.symbolLoad).length ≤ 1 := by
      by_contra hlt
      rw [mergeColdSymbols_snd.mpr (by omega)] at hcold
      cases hcold
    rwa [mergeColdSymbols_of_le hle, ((ongoing_of_execute hrun).splits.untouched hhot).1]

/-- The symbols with a moderate load are left alone exactly when no partition that lists one is
overwritten. -/
theorem neutralKept_iff_spared
    (h : pt.scaled ⟨getSymbolQPS, moves, order, clock⟩ = some (pt', written)) :
    pt.NeutralKept getSymbolQPS pt' ↔ pt.Spared getSymbolQPS moves order clock := by
  obtain ⟨run, hrun, horder, rfl⟩ := scaled_merged h
  have hongoing := ongoing_of_execute hrun
  obtain ⟨hadded, hmerged, hoverwritten⟩ :=
    hongoing.merge_spec horder mockWorkerLoadProvider clock
  constructor
  · intro hkept
    -- a symbol that has lost its place does not get it back
    have hturns := execute_or
      (I := fun run => run.Ongoing getSymbolQPS pt ∧ pt.NeutralKept getSymbolQPS run.newPT)
      (D := fun run => run.Ongoing getSymbolQPS pt ∧ pt.NeutralLost getSymbolQPS run.newPT)
      hrun ⟨ongoing_start getSymbolQPS pt, .refl⟩
      (fun run a run' h hspares hmove =>
        ⟨h.1.move hmove, h.2.trans ((h.1.move_spec hmove).2.1 hspares)⟩)
      (fun run a run' h hnot hmove =>
        ⟨h.1.move hmove, h.2.lost ((h.1.move_spec hmove).2.2 hnot)⟩)
      (fun run a run' h hmove => ⟨h.1.move hmove, h.2.trans (h.1.move_spec hmove).1⟩)
    rcases hturns with ⟨hspared, -, hsame⟩ | ⟨-, hlost⟩
    · refine ⟨run, hspared, ?_⟩
      by_contra hnot
      exact hkept.not_lost (hsame.lost (hoverwritten hnot))
    · exact absurd (hlost.trans hadded) hkept.not_lost
  · rintro ⟨run₁, hspared, hfinish⟩
    have hsame := hrun.symm.trans (execute_mono hspared fun _ _ _ => trivial)
    cases hsame
    have hkept : run.Ongoing getSymbolQPS pt ∧ pt.NeutralKept getSymbolQPS run.newPT := by
      refine (reaches_of_execute hspared).invariant
        (I := fun run => run.Ongoing getSymbolQPS pt ∧ pt.NeutralKept getSymbolQPS run.newPT)
        ⟨ongoing_start getSymbolQPS pt, .refl⟩ ?_
      intro run a run' h hspares hmove
      exact ⟨h.1.move hmove, h.2.trans ((h.1.move_spec hmove).2.1 hspares)⟩
    exact hkept.2.trans (hmerged hfinish)

end

theorem MigratingTable.scaled_eq_some {mt mt' : MigratingTable} {choices : ScaleChoices}
    (h : mt.scaled choices = some mt') :
    ∃ pt' written, mt.table.scaled choices = some (pt', written) ∧
      (if written then { mt.deepCopy with table := pt' } else mt) = mt' := by
  obtain ⟨⟨newPT, written⟩, hcall, hmt'⟩ := Option.map_eq_some_iff.mp h
  refine ⟨if written then newPT else mt.table, written, ?_, ?_⟩
  · unfold PartitionTable.scaled
    rw [show scaleIfNeeded mt.table choices = some (newPT, written) from hcall]
    rfl
  · cases written with
    | true | false => exact hmt'

theorem MigratingTable.migrations_deepCopy_iff {mt : MigratingTable} :
    (∀ symbol, mt.deepCopy.migrationInfo.lookup symbol = mt.migrationInfo.lookup symbol) ↔
      ∀ symbol info, mt.migrationInfo.lookup symbol = some info → info.newPartitionID = "" := by
  refine forall_congr' fun symbol => ?_
  unfold deepCopy
  rw [lookup_mapValues]
  cases mt.migrationInfo.lookup symbol with
  | none => simp
  | some info =>
    obtain ⟨symbol, from_, to_, migrating, updateTime, newPartitionID⟩ := info
    simp only [Option.map_some, SymbolMigrationInfo.copy, Option.some.injEq,
      SymbolMigrationInfo.mk.injEq, true_and, forall_eq']
    exact eq_comm

/-- A call leaves the migrations and the symbols with a moderate load alone exactly when it has
nothing to do or no migration has a target, and no partition it overwrites lists such a symbol. -/
theorem scaling_framed_iff (getSymbolQPS : String → Int) {mt mt' : MigratingTable}
    {moves : List ScaleAction} {order : List String} {clock : String}
    (h : mt.scaled ⟨getSymbolQPS, moves, order, clock⟩ = some mt') :
    mt.Framed getSymbolQPS mt' ↔ (mt.table.Quiet getSymbolQPS ∨ ∀ symbol info,
        mt.migrationInfo.lookup symbol = some info → info.newPartitionID = "") ∧
      mt.table.Spared getSymbolQPS moves order clock := by
  obtain ⟨pt', written, hcall, hmt'⟩ := MigratingTable.scaled_eq_some h
  obtain ⟨hwritten, hsame, -⟩ := scaled_spec hcall
  rw [← neutralKept_iff_spared hcall]
  cases written with
  | false =>
    have hquiet : mt.table.Quiet getSymbolQPS := by
      by_contra hnot
      exact absurd (hwritten.mpr hnot) Bool.false_ne_true
    cases hmt'
    rw [hsame rfl]
    exact iff_of_true ⟨fun _ => rfl, .refl⟩ ⟨.inl hquiet, .refl⟩
  | true =>
    cases hmt'
    rw [← MigratingTable.migrations_deepCopy_iff, or_iff_right (hwritten.mp rfl)]
    exact ⟨fun hframed => ⟨hframed.migrations, hframed.neutral⟩, fun h => ⟨h.1, h.2⟩⟩

/-! ### A call on a table with a migration -/

/-- `XRPUSDT` is on its way to `p9`; of yesterday's merge `LTCUSDT` is traded again. -/
def migratingSymbols (newPartitionID : String) : MigratingTable where
  table := .ofPartitions (List.toAList
    [⟨"p1", ⟨"p1", ["BTCUSDT", "XRPUSDT", "ADAUSDT", "DOTUSDT"], ["worker1"]⟩⟩,
      ⟨"cold_merge_093000", ⟨"cold_merge_093000", ["LTCUSDT"], ["worker1"]⟩⟩])
  migrationInfo := List.toAList [⟨"XRPUSDT", ⟨"XRPUSDT", "p1", "p9", true, 1, newPartitionID⟩⟩]

def mixedLoads : String → Int := qpsOf ["BTCUSDT"] ["ADAUSDT", "DOTUSDT"]

def mixedChoices (clock : String) : ScaleChoices :=
  ⟨mixedLoads, [.visit "p1", .create clock, .visit "cold_merge_093000"], fiveSymbolsOrder, clock⟩

theorem migratingSymbols_framed :
    ∃ mt', (migratingSymbols "").scaled (mixedChoices "094000") = some mt' ∧
      (migratingSymbols "").Framed mixedLoads mt' := by
  have hrun : ((migratingSymbols "").scaled (mixedChoices "094000")).any (fun _ => true) =
      true := by
    decide +kernel
  have hspared : (execute move (ScaleRun.Spares mixedLoads)
      (AutoScaler.start ⟨(migratingSymbols "").table, none⟩ mixedLoads)
      [.visit "p1", .create "094000", .visit "cold_merge_093000"]).any (fun run =>
        decide (run.Spares mixedLoads (.finish fiveSymbolsOrder "094000"))) = true := by
    decide +kernel
  have htargets : ∀ symbol info, (migratingSymbols "").migrationInfo.lookup symbol = some info →
      info.newPartitionID = "" := by
    intro symbol info hlookup
    have hmem := List.of_mem_dlookup hlookup
    cases List.mem_singleton.mp hmem
    rfl
  obtain ⟨mt', hmt', -⟩ := exists_of_any hrun
  obtain ⟨run, hturns, hfinish⟩ := exists_of_any hspared
  exact ⟨mt', hmt', (scaling_framed_iff _ hmt').mpr
    ⟨.inr htargets, run, hturns, of_decide_eq_true hfinish⟩⟩

/-- Requests for `XRPUSDT` are not sent to its new partition any more.  The symbols that are cold
today are merged into a partition with the id of yesterday's, so `LTCUSDT` belongs to none. -/
theorem migration_target_lost : (migratingSymbols "p9").table.Coherent ∧
    symbolMigrationChecker (migratingSymbols "p9") "p1" "XRPUSDT" = (true, "p9") ∧
    ∃ mt', (migratingSymbols "p9").scaled (mixedChoices "093000") = some mt' ∧
      symbolMigrationChecker mt' "p1" "XRPUSDT" = (false, "") ∧
      ¬ mt'.table.Serves "LTCUSDT" ∧
      ¬ (migratingSymbols "p9").Framed mixedLoads mt' := by
  refine ⟨coherent_ofPartitions (by decide), by decide +kernel, ?_⟩
  have hrun : ((migratingSymbols "p9").scaled (mixedChoices "093000")).any (fun mt' => decide (
      symbolMigrationChecker mt' "p1" "XRPUSDT" = (false, "") ∧
      (mt'.migrationInfo.lookup "XRPUSDT").map (·.newPartitionID) = some "" ∧
      ¬ ∃ entry ∈ mt'.table.partitions.entries, "LTCUSDT" ∈ entry.2.symbols)) = true := by
    decide +kernel
  obtain ⟨mt', hmt', htest⟩ := exists_of_any hrun
  obtain ⟨hredirect, htarget, hlost⟩ := of_decide_eq_true htest
  rw [← serves_iff_entries] at hlost
  refine ⟨mt', hmt', hredirect, hlost, fun hframed => ?_⟩
  rw [hframed.migrations] at htarget
  exact absurd htarget (by decide +kernel)

end CexHertz
