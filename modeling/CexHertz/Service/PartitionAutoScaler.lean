import CexHertz.Lib.Run
import CexHertz.Model.Partition

/-!
# Scaling the partition table

`scaleIfNeeded` gives every hot symbol a partition of its own, gathers the cold ones in one, and
stores the new table. The id of a new partition ends in the time of day, and a partition that has
the id already is overwritten. The table stays coherent as long as that one lists no symbol which is
not moved into the new one.
-/

namespace CexHertz

/-! ## Workers -/

structure WorkerLoadProvider where
  getAllWorkers : List String
  getWorkerLoad : String → Int

def mockWorkerLoadProvider : WorkerLoadProvider where
  getAllWorkers := ["worker1", "worker2"]
  getWorkerLoad := fun worker =>
    if worker = "worker1" then 2 else if worker = "worker2" then 1 else 0

def selectIdleWorker (wlp : WorkerLoadProvider) : String :=
  match wlp.getAllWorkers with
  | [] => ""
  | first :: rest =>
    (rest.foldl (fun (best : Int × String) w =>
      if wlp.getWorkerLoad w < best.1 then (wlp.getWorkerLoad w, w) else best)
      (wlp.getWorkerLoad first, first)).2

def idlePartition (newPID : String) (symbols : List String) (wlp : WorkerLoadProvider) :
    Partition :=
  { partitionID := newPID, symbols := symbols, workers := [selectIdleWorker wlp] }

theorem partitionID_idlePartition (newPID : String) (symbols : List String)
    (wlp : WorkerLoadProvider) : (idlePartition newPID symbols wlp).partitionID = newPID := rfl

/-! ## Loads -/

abbrev SymbolLoad := AList fun _ : String => Int

def SymbolLoad.qps (symbolLoad : SymbolLoad) (symbol : String) : Int :=
  (symbolLoad.lookup symbol).getD 0

def collectLoads (getSymbolQPS : String → Int) (pt : PartitionTable) : SymbolLoad :=
  pt.partitions.entries.foldl (fun symbolLoad entry =>
    entry.2.symbols.foldl (fun symbolLoad symbol => symbolLoad.insert symbol (getSymbolQPS symbol))
      symbolLoad) ∅

/-! ## Hot symbols -/

def findHotSymbols (symbols : List String) (symbolLoad : SymbolLoad) : List String :=
  symbols.filter fun symbol => 800 < symbolLoad.qps symbol

def removeSymbolsFromPartition (p : Partition) (symbolsToRemove : List String) : Partition :=
  { p with symbols := p.symbols.filter fun s => s ∉ symbolsToRemove }

def hotPartitionID (pid symbol clock : String) : String :=
  pid ++ "_hot_" ++ symbol ++ "_" ++ clock

def createHotPartition (newPT : PartitionTable) (pid symbol : String) (wlp : WorkerLoadProvider)
    (clock : String) : PartitionTable :=
  let newPID := hotPartitionID pid symbol clock
  let stored := newPT.putPartition newPID (idlePartition newPID [symbol] wlp)
  let newList := (newPT.symbolToPartition symbol).filter (· ≠ pid) ++ [newPID]
  { stored with symbolToPartition := Function.update stored.symbolToPartition symbol newList }

/-! ## Cold symbols -/

def findColdSymbols (order : List String) (symbolLoad : SymbolLoad) : List String :=
  order.filter fun symbol => symbolLoad.qps symbol < 5

def coldPartitionID (clock : String) : String := "cold_merge_" ++ clock

def dropColdSymbols (newPID : String) (coldSymbols : List String) (p : Partition) : Partition :=
  if p.partitionID = newPID then p
  else { p with symbols := p.symbols.filter fun s => s ∉ coldSymbols }

def mergeColdSymbols (newPT : PartitionTable) (order : List String) (symbolLoad : SymbolLoad)
    (wlp : WorkerLoadProvider) (clock : String) : PartitionTable × Bool :=
  let coldSymbols := findColdSymbols order symbolLoad
  if coldSymbols.length ≤ 1 then (newPT, false)
  else
    let newPID := coldPartitionID clock
    let stored := newPT.putPartition newPID (idlePartition newPID coldSymbols wlp)
    ({ symbolToPartition := fun s =>
        if s ∈ coldSymbols then [newPID] else stored.symbolToPartition s
       partitions := mapValues (dropColdSymbols newPID coldSymbols) stored.partitions }, true)

/-! ## A call of scaleIfNeeded

The iteration over the partitions may come upon partitions created on the way or miss them, and
the clock is read for each new partition, so a call is taken in steps. -/

/-- The variables of a call: the copy, the loads, the partitions the loop has come upon, and of the
last of these the hot symbols that have not got their partition yet. -/
structure ScaleRun where
  newPT : PartitionTable
  symbolLoad : SymbolLoad
  visited : List String
  pid : String
  hotSymbols : List String
  needUpdateHot : Bool

namespace ScaleRun

def visit (run : ScaleRun) (pid : String) : Option ScaleRun :=
  match run.newPT.partitions.lookup pid with
  | none => none
  | some p =>
    if run.hotSymbols = [] ∧ pid ∉ run.visited then
      let hotSymbols := findHotSymbols p.symbols run.symbolLoad
      some
        { run with
          newPT :=
            if hotSymbols = [] then run.newPT
            else run.newPT.putPartition pid (removeSymbolsFromPartition p hotSymbols)
          visited := pid :: run.visited
          pid := pid
          hotSymbols := hotSymbols
          -- set after the inner loop in the source, which nothing leaves early
          needUpdateHot := run.needUpdateHot || !hotSymbols.isEmpty }
    else none

def create (run : ScaleRun) (clock : String) : Option ScaleRun :=
  match run.hotSymbols with
  | [] => none
  | symbol :: rest =>
    some
      { run with
        newPT := createHotPartition run.newPT run.pid symbol mockWorkerLoadProvider clock
        hotSymbols := rest }

end ScaleRun

/-- The table of the partition manager, and the call in progress; a lock keeps calls apart. -/
structure AutoScaler where
  table : PartitionTable
  run : Option ScaleRun

inductive ScaleAction
  | start (getSymbolQPS : String → Int)
  | visit (pid : String)
  | create (clock : String)
  /-- The loop over the partitions is through; the loads are iterated over in the given order. -/
  | finish (order : List String) (clock : String)

namespace AutoScaler

def start (s : AutoScaler) (getSymbolQPS : String → Int) : ScaleRun where
  newPT := s.table
  symbolLoad := collectLoads getSymbolQPS s.table
  visited := []
  pid := ""
  hotSymbols := []
  needUpdateHot := false

def finish (s : AutoScaler) (run : ScaleRun) (order : List String) (clock : String) :
    Option AutoScaler :=
  if run.hotSymbols = [] ∧ (∀ pid ∈ s.table.partitions.keys, pid ∈ run.visited) ∧
      order.Perm run.symbolLoad.keys then
    let (newPT, needUpdateCold) :=
      mergeColdSymbols run.newPT order run.symbolLoad mockWorkerLoadProvider clock
    some
      { table := if run.needUpdateHot || needUpdateCold then newPT else s.table
        run := none }
  else none

def step (s : AutoScaler) (action : ScaleAction) : Option AutoScaler :=
  match action, s.run with
  | .start getSymbolQPS, none => some { s with run := some (s.start getSymbolQPS) }
  | .visit pid, some run => (run.visit pid).map fun run => { s with run := some run }
  | .create clock, some run => (run.create clock).map fun run => { s with run := some run }
  | .finish order clock, some run => s.finish run order clock
  | _, _ => none

end AutoScaler

/-! ## The condition -/

/-- The partition that is overwritten, if there is one, lists only symbols that are moved into the
new one. -/
def ScaleRun.Vacant (run : ScaleRun) : ScaleAction → Prop
  | .create clock =>
    ∀ symbol ∈ run.hotSymbols.head?,
      ∀ s ∈ run.newPT.symbolsOf (hotPartitionID run.pid symbol clock), s = symbol
  | .finish order clock =>
    1 < (findColdSymbols order run.symbolLoad).length →
      ∀ s ∈ run.newPT.symbolsOf (coldPartitionID clock), s ∈ findColdSymbols order run.symbolLoad
  | _ => True

instance (run : ScaleRun) (action : ScaleAction) : Decidable (run.Vacant action) := by
  cases action <;> unfold ScaleRun.Vacant <;> infer_instance

def AutoScaler.Vacant (s : AutoScaler) (action : ScaleAction) : Prop :=
  ∀ run ∈ s.run, run.Vacant action

instance (s : AutoScaler) (action : ScaleAction) : Decidable (s.Vacant action) :=
  inferInstanceAs (Decidable (∀ run ∈ s.run, run.Vacant action))

/-! ## What the moves do to the table -/

open Placement PartitionTable Option

variable {pt : PartitionTable}

theorem hotPartitionID_ne (pid symbol clock : String) : hotPartitionID pid symbol clock ≠ pid := by
  intro h
  have hlen := congrArg String.length h
  simp only [hotPartitionID, String.length_append] at hlen
  have hhot : "_hot_".length = 5 := rfl
  omega

theorem listed_removeSymbols {pid : String} {p : Partition} (hp : pt.partitions.lookup pid = some p)
    (symbols : List String) :
    (pt.putPartition pid (removeSymbolsFromPartition p symbols)).Listed =
      leave {s | s ∈ symbols} pid pt.Listed := by
  rw [listed_putPartition]
  funext symbol pid'
  have hsymbols : pt.symbolsOf pid = p.symbols := by rw [symbolsOf, hp]; rfl
  rcases eq_or_ne pid' pid with rfl | hne
  · simp [fill, leave, PartitionTable.Listed, hsymbols, removeSymbolsFromPartition]
  · simp [fill, leave, hne]

section

variable (pid symbol clock : String) (wlp : WorkerLoadProvider)

theorem listed_createHotPartition : (createHotPartition pt pid symbol wlp clock).Listed =
      fill {symbol} (hotPartitionID pid symbol clock) pt.Listed := by
  refine (pt.listed_putPartition _ (idlePartition _ [symbol] wlp)).trans ?_
  simp [idlePartition]

theorem routed_createHotPartition : (createHotPartition pt pid symbol wlp clock).Routed =
      reroute symbol pid (hotPartitionID pid symbol clock) pt.Routed := by
  funext s pid'
  unfold PartitionTable.Routed createHotPartition reroute
  dsimp only
  rcases eq_or_ne s symbol with rfl | hne
  · rw [Function.update_self]
    simp [and_comm, or_comm]
  · rw [Function.update_of_ne hne]
    simp [hne, putPartition]

end

section

variable {order : List String} {symbolLoad : SymbolLoad} (wlp : WorkerLoadProvider) (clock : String)

theorem partitionID_dropColdSymbols (newPID : String) (coldSymbols : List String) (p : Partition) :
    (dropColdSymbols newPID coldSymbols p).partitionID = p.partitionID := by
  unfold dropColdSymbols
  split <;> rfl

theorem listed_mapValues_drop (h : pt.KeyedByID) (newPID : String) (coldSymbols : List String)
    (routes : String → List String) :
    PartitionTable.Listed ⟨routes, mapValues (dropColdSymbols newPID coldSymbols) pt.partitions⟩ =
      withdraw {s | s ∈ coldSymbols} newPID pt.Listed := by
  funext symbol pid
  unfold withdraw PartitionTable.Listed symbolsOf
  rw [lookup_mapValues]
  cases hp : pt.partitions.lookup pid with
  | none => simp
  | some p =>
    have hid : p.partitionID = pid := h pid p hp
    simp only [map_some, getD_some, dropColdSymbols, hid]
    split
    next heq => simp [heq]
    next hne => simp [hne]

theorem keyedByID_mergeColdSymbols (h : pt.KeyedByID) :
    (mergeColdSymbols pt order symbolLoad wlp clock).1.KeyedByID := by
  unfold mergeColdSymbols
  dsimp only
  split
  · exact h
  · intro pid p hlookup
    rw [lookup_mapValues] at hlookup
    obtain ⟨q, hq, rfl⟩ := map_eq_some_iff.mp hlookup
    rw [partitionID_dropColdSymbols]
    exact h.putPartition (partitionID_idlePartition _ _ wlp) pid q hq

theorem listed_mergeColdSymbols (h : pt.KeyedByID)
    (hcold : 1 < (findColdSymbols order symbolLoad).length) :
    (mergeColdSymbols pt order symbolLoad wlp clock).1.Listed =
      withdraw {s | s ∈ findColdSymbols order symbolLoad} (coldPartitionID clock)
        (fill {s | s ∈ findColdSymbols order symbolLoad} (coldPartitionID clock) pt.Listed) := by
  unfold mergeColdSymbols
  rw [if_neg (by omega), listed_mapValues_drop (h.putPartition (partitionID_idlePartition _ _ wlp)),
    listed_putPartition]
  rfl

theorem routed_mergeColdSymbols (hcold : 1 < (findColdSymbols order symbolLoad).length) :
    (mergeColdSymbols pt order symbolLoad wlp clock).1.Routed =
      gather {s | s ∈ findColdSymbols order symbolLoad} (coldPartitionID clock) pt.Routed := by
  funext s pid
  unfold PartitionTable.Routed mergeColdSymbols gather
  rw [if_neg (by omega)]
  by_cases hs : s ∈ findColdSymbols order symbolLoad
  · simp [hs]
  · simp [hs, putPartition]

end

/-! ## The invariant -/

/-- Of the copy a call works on: its directions agree but for the hot symbols waiting for their
partition, and a symbol of the first table has a partition or is one of those waiting. -/
structure ScaleRun.Ok (t₀ : PartitionTable) (run : ScaleRun) : Prop where
  keyedByID : run.newPT.KeyedByID
  synced : Synced run.newPT.Listed run.newPT.Routed fun s pid => pid = run.pid ∧ s ∈ run.hotSymbols
  served : ∀ symbol, t₀.Serves symbol → Placed run.newPT.Listed symbol ∨ symbol ∈ run.hotSymbols

structure AutoScaler.Ok (t₀ : PartitionTable) (s : AutoScaler) : Prop where
  coherent : s.table.Coherent
  served : ∀ symbol, t₀.Serves symbol → s.table.Serves symbol
  running : ∀ run ∈ s.run, run.Ok t₀

section

variable {t₀ : PartitionTable} {s s' : AutoScaler} {run run' : ScaleRun} {clock : String}

theorem ScaleRun.Ok.settled (h : run.Ok t₀) (hhot : run.hotSymbols = []) :
    Synced run.newPT.Listed run.newPT.Routed (fun _ _ => False) ∧
      ∀ symbol, t₀.Serves symbol → Placed run.newPT.Listed symbol := by
  obtain ⟨-, hsynced, hserved⟩ := h
  rw [hhot] at hsynced hserved
  simpa using And.intro hsynced hserved

theorem AutoScaler.Ok.start (h : s.Ok t₀) (getSymbolQPS : String → Int) :
    (s.start getSymbolQPS).Ok t₀ := by
  obtain ⟨hkeyed, hsynced⟩ := coherent_iff_synced.mp h.coherent
  refine ⟨hkeyed, ?_, fun symbol hsymbol => .inl (h.served symbol hsymbol)⟩
  simpa [AutoScaler.start] using hsynced

theorem ScaleRun.Ok.visit (h : run.Ok t₀) {pid : String} (hvisit : run.visit pid = some run') :
    run'.Ok t₀ := by
  unfold ScaleRun.visit at hvisit
  split at hvisit
  · cases hvisit
  next p hp =>
    split at hvisit
    next hready =>
      cases hvisit
      obtain ⟨hsynced, hserved⟩ := h.settled hready.1
      split
      next hnone =>
        -- nothing is hot in this partition
        refine ⟨h.keyedByID, ?_, fun symbol hsymbol => .inl (hserved symbol hsymbol)⟩
        simpa [hnone] using hsynced
      next =>
        refine ⟨h.keyedByID.putPartition (h.keyedByID pid p hp), ?_, fun symbol hsymbol => ?_⟩
        · rw [listed_removeSymbols hp]
          exact hsynced.leave _ pid
        · rw [listed_removeSymbols hp]
          exact (hserved symbol hsymbol).leave _ pid
    next => cases hvisit

theorem ScaleRun.Ok.create (h : run.Ok t₀) (hvacant : run.Vacant (.create clock))
    (hcreate : run.create clock = some run') : run'.Ok t₀ := by
  unfold ScaleRun.create at hcreate
  split at hcreate
  · cases hcreate
  next symbol rest hhot =>
    cases hcreate
    have honly := hvacant symbol (by rw [hhot]; rfl)
    refine ⟨h.keyedByID.putPartition rfl, ?_, fun s hs => ?_⟩
    · rw [listed_createHotPartition, routed_createHotPartition]
      refine h.synced.arrive ?_ (hotPartitionID_ne _ _ _) honly
      rw [hhot]
      ext s
      exact List.mem_cons
    · rw [listed_createHotPartition]
      rcases h.served s hs with hplaced | hwaiting
      · exact .inl (hplaced.fill honly)
      · rw [hhot] at hwaiting
        rcases List.mem_cons.mp hwaiting with rfl | hrest
        · exact .inl (placed_fill_of_mem rfl)
        · exact .inr hrest

theorem ScaleRun.Ok.merge (h : run.Ok t₀) (hhot : run.hotSymbols = []) {order : List String}
    (hvacant : run.Vacant (.finish order clock)) (wlp : WorkerLoadProvider) :
    (mergeColdSymbols run.newPT order run.symbolLoad wlp clock).1.Coherent ∧
      ∀ symbol, t₀.Serves symbol →
        (mergeColdSymbols run.newPT order run.symbolLoad wlp clock).1.Serves symbol := by
  obtain ⟨hsynced, hserved⟩ := h.settled hhot
  rw [coherent_iff_synced]
  refine (and_assoc.mpr ⟨keyedByID_mergeColdSymbols wlp clock h.keyedByID, ?_⟩)
  by_cases hcold : 1 < (findColdSymbols order run.symbolLoad).length
  · have honly := hvacant hcold
    have hlisted := listed_mergeColdSymbols wlp clock h.keyedByID hcold
    refine ⟨?_, fun symbol hsymbol => ?_⟩
    · rw [hlisted, routed_mergeColdSymbols wlp clock hcold]
      exact hsynced.gather honly
    · change Placed (mergeColdSymbols run.newPT order run.symbolLoad wlp clock).1.Listed symbol
      rw [hlisted]
      exact (hserved symbol hsymbol).gather honly
  · have hsame : (mergeColdSymbols run.newPT order run.symbolLoad wlp clock).1 = run.newPT := by
      unfold mergeColdSymbols
      rw [if_pos (by omega)]
    rw [hsame]
    exact ⟨hsynced, hserved⟩

theorem AutoScaler.Ok.finish (h : s.Ok t₀) (hrun : run.Ok t₀) {order : List String}
    (hvacant : run.Vacant (.finish order clock))
    (hfinish : s.finish run order clock = some s') : s'.Ok t₀ := by
  unfold AutoScaler.finish at hfinish
  split at hfinish
  next hready =>
    cases hfinish
    obtain ⟨hcoherent, hserved⟩ := hrun.merge hready.1 hvacant mockWorkerLoadProvider
    split
    · exact ⟨hcoherent, hserved, nofun⟩
    · exact ⟨h.coherent, h.served, nofun⟩
  next => cases hfinish

theorem AutoScaler.Ok.inRun (h : s.Ok t₀) (hrun : run.Ok t₀) :
    AutoScaler.Ok t₀ { s with run := some run } :=
  ⟨h.coherent, h.served, fun _ heq => some_inj.mp heq ▸ hrun⟩

theorem AutoScaler.Ok.step (h : s.Ok t₀) {action : ScaleAction} (hvacant : s.Vacant action)
    (hstep : s.step action = some s') : s'.Ok t₀ := by
  unfold AutoScaler.step at hstep
  split at hstep
  next getSymbolQPS _ =>
    cases hstep
    exact h.inRun (h.start getSymbolQPS)
  next pid run hrun =>
    obtain ⟨run', hvisit, rfl⟩ := map_eq_some_iff.mp hstep
    exact h.inRun ((h.running run hrun).visit hvisit)
  next clock run hrun =>
    obtain ⟨run', hcreate, rfl⟩ := map_eq_some_iff.mp hstep
    exact h.inRun ((h.running run hrun).create (hvacant run hrun) hcreate)
  next order clock run hrun =>
    exact h.finish (h.running run hrun) (hvacant run hrun) hstep
  next => cases hstep

end

/-- However often the table is scaled, it stays coherent and every symbol keeps a partition, if no
id is given out while a partition has it that lists other symbols. -/
theorem scaled_table_coherent {t₀ : PartitionTable} {s : AutoScaler} (ht₀ : t₀.Coherent)
    (hrun : Run.Reaches AutoScaler.step AutoScaler.Vacant ⟨t₀, none⟩ s) :
    s.table.Coherent ∧ ∀ symbol, t₀.Serves symbol → s.table.Serves symbol := by
  have hok : s.Ok t₀ := hrun.invariant (I := AutoScaler.Ok t₀) ⟨ht₀, fun _ h => h, nofun⟩
    fun _ _ _ h hvacant hstep => h.step hvacant hstep
  exact ⟨hok.coherent, hok.served⟩

/-! ## The same time of another day -/

def fiveSymbols : PartitionTable :=
  .ofPartitions (List.toAList
    [⟨"p1", ⟨"p1", ["BTCUSDT", "LTCUSDT", "XRPUSDT", "ADAUSDT", "DOTUSDT"], ["worker1"]⟩⟩])

theorem fiveSymbols_coherent : fiveSymbols.Coherent :=
  coherent_ofPartitions (by decide)

def qpsOf (hot cold : List String) (symbol : String) : Int :=
  if symbol ∈ hot then 1000 else if symbol ∈ cold then 0 else 100

-- The second call merges the symbols of the first and one more, into a partition with the same id.
theorem same_symbols_merged_again :
    ∃ s, Run.Reaches AutoScaler.step AutoScaler.Vacant ⟨fiveSymbols, none⟩ s ∧ s.run.isNone ∧
      s.table.symbolToPartition "BTCUSDT" = ["p1_hot_BTCUSDT_093000"] ∧
      s.table.symbolToPartition "LTCUSDT" = ["cold_merge_093001"] ∧
      s.table.Coherent ∧ ∀ symbol, fiveSymbols.Serves symbol → s.table.Serves symbol := by
  refine Run.exists_reaches
    [.start (qpsOf ["BTCUSDT"] ["LTCUSDT", "XRPUSDT"]), .visit "p1", .create "093000",
      .finish ["XRPUSDT", "BTCUSDT", "LTCUSDT", "DOTUSDT", "ADAUSDT"] "093001",
      .start (qpsOf [] ["LTCUSDT", "XRPUSDT", "ADAUSDT"]), .visit "cold_merge_093001",
      .visit "p1", .visit "p1_hot_BTCUSDT_093000",
      .finish ["BTCUSDT", "DOTUSDT", "ADAUSDT", "LTCUSDT", "XRPUSDT"] "093001"]
    (P := fun s => s.run.isNone ∧ s.table.symbolToPartition "BTCUSDT" = ["p1_hot_BTCUSDT_093000"] ∧
      s.table.symbolToPartition "LTCUSDT" = ["cold_merge_093001"]) (by decide +kernel)
    fun _ hs ⟨hidle, hhot, hcold⟩ => ?_
  exact ⟨hidle, hhot, hcold, scaled_table_coherent fiveSymbols_coherent hs⟩

/-- Two symbols are merged one day and two others the next, at the same time of day.  The first two
are traded again by then: their partition is overwritten, they belong to none any more, and are
still routed to it. -/
theorem merged_symbols_lost_next_day : fiveSymbols.Coherent ∧ fiveSymbols.Serves "LTCUSDT" ∧
    ∃ s, Run.Reaches AutoScaler.step (fun _ _ => True) ⟨fiveSymbols, none⟩ s ∧ s.run.isNone ∧
      ¬ s.table.Serves "LTCUSDT" ∧ ¬ s.table.Coherent := by
  refine ⟨fiveSymbols_coherent, serves_iff_entries.mpr (by decide +kernel), ?_⟩
  refine Run.exists_reaches
    [.start (qpsOf [] ["LTCUSDT", "XRPUSDT"]), .visit "p1",
      .finish ["XRPUSDT", "BTCUSDT", "LTCUSDT", "DOTUSDT", "ADAUSDT"] "093000",
      .start (qpsOf [] ["ADAUSDT", "DOTUSDT"]), .visit "p1", .visit "cold_merge_093000",
      .finish ["XRPUSDT", "BTCUSDT", "LTCUSDT", "DOTUSDT", "ADAUSDT"] "093000"]
    (P := fun s => s.run.isNone ∧ "cold_merge_093000" ∈ s.table.symbolToPartition "LTCUSDT" ∧
      ¬ ∃ entry ∈ s.table.partitions.entries, "LTCUSDT" ∈ entry.2.symbols) (by decide +kernel)
    fun s _ ⟨hidle, hrouted, hlost⟩ => ?_
  rw [← serves_iff_entries] at hlost
  exact ⟨hidle, hlost, fun hcoherent => hlost ⟨_, (hcoherent.mem_symbols_iff _ _).mpr hrouted⟩⟩

end CexHertz
