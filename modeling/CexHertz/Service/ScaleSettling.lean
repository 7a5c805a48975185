import CexHertz.Service.PartitionManager

/-!
# Scaling twice with the same loads

Whole calls of `scaleIfNeeded`, one after the other. Both rules decide from the load of a symbol and
not from where it lives: a hot symbol is split off the partition made for it, and the merged cold
symbols are merged again.
-/

namespace CexHertz

open List PartitionTable Option

/-! ## A whole call -/

def PartitionTable.scaled (pt : PartitionTable) (choices : ScaleChoices) :
    Option (PartitionTable × Bool) :=
  (scaleIfNeeded pt choices).map fun r => (if r.2 then r.1 else pt, r.2)

structure PartitionTable.Quiet (getSymbolQPS : String → Int) (pt : PartitionTable) : Prop where
  hot : ∀ symbol, pt.Serves symbol → getSymbolQPS symbol ≤ 800
  cold : ∀ s s', pt.Serves s → pt.Serves s' → getSymbolQPS s < 5 → getSymbolQPS s' < 5 → s = s'

theorem PartitionTable.symbolsOf_of_not_mem {pt : PartitionTable} {pid : String}
    (h : pid ∉ pt.partitions.keys) : pt.symbolsOf pid = [] := by
  rw [symbolsOf, AList.lookup_eq_none.mpr fun hmem => h (AList.mem_keys.mp hmem)]
  rfl

theorem PartitionTable.mem_keys_of_mem_symbolsOf {pt : PartitionTable} {pid s : String}
    (h : s ∈ pt.symbolsOf pid) : pid ∈ pt.partitions.keys := by
  by_contra hkey
  rw [symbolsOf_of_not_mem hkey] at h
  cases h

/-! ## Loads -/

section

variable (getSymbolQPS : String → Int)

theorem lookup_foldl_symbols (symbols : List String) (symbolLoad : SymbolLoad) (s : String) :
    (symbols.foldl (fun symbolLoad symbol => symbolLoad.insert symbol (getSymbolQPS symbol))
      symbolLoad).lookup s =
    if s ∈ symbols then some (getSymbolQPS s) else symbolLoad.lookup s := by
  induction symbols generalizing symbolLoad with
  | nil => simp
  | cons symbol rest ih =>
    rw [foldl_cons, ih]
    by_cases hs : s = symbol
    · subst hs
      simp
    · simp [hs, AList.lookup_insert_ne hs]

theorem lookup_foldl_entries (entries : List (Sigma fun _ : String => Partition))
    (symbolLoad : SymbolLoad) (s : String) :
    (entries.foldl (fun symbolLoad entry =>
      entry.2.symbols.foldl (fun symbolLoad symbol =>
        symbolLoad.insert symbol (getSymbolQPS symbol)) symbolLoad) symbolLoad).lookup s =
    if ∃ entry ∈ entries, s ∈ entry.2.symbols then some (getSymbolQPS s)
    else symbolLoad.lookup s := by
  induction entries generalizing symbolLoad with
  | nil => simp
  | cons entry rest ih =>
    rw [foldl_cons, ih, lookup_foldl_symbols]
    by_cases hrest : ∃ entry ∈ rest, s ∈ entry.2.symbols
    · rw [if_pos hrest, if_pos]
      obtain ⟨e, he, hs⟩ := hrest
      exact ⟨e, .tail _ he, hs⟩
    · rw [if_neg hrest]
      simp only [exists_mem_cons_iff, hrest, or_false]

variable {getSymbolQPS} {pt : PartitionTable} {s : String}

theorem lookup_collectLoads_of_serves (h : pt.Serves s) :
    (collectLoads getSymbolQPS pt).lookup s = some (getSymbolQPS s) :=
  (lookup_foldl_entries getSymbolQPS pt.partitions.entries ∅ s).trans
    (if_pos (serves_iff_entries.mp h))

theorem lookup_collectLoads_of_not_serves (h : ¬ pt.Serves s) :
    (collectLoads getSymbolQPS pt).lookup s = none :=
  (lookup_foldl_entries getSymbolQPS pt.partitions.entries ∅ s).trans
    (if_neg fun hentry => h (serves_iff_entries.mpr hentry))

theorem mem_keys_collectLoads : s ∈ (collectLoads getSymbolQPS pt).keys ↔ pt.Serves s := by
  rw [← AList.mem_keys, ← AList.lookup_isSome]
  by_cases h : pt.Serves s
  · simp [lookup_collectLoads_of_serves h, h]
  · simp [lookup_collectLoads_of_not_serves h, h]

theorem qps_collectLoads (h : pt.Serves s) :
    (collectLoads getSymbolQPS pt).qps s = getSymbolQPS s := by
  rw [SymbolLoad.qps, lookup_collectLoads_of_serves h, getD_some]

theorem hot_collectLoads_iff :
    800 < (collectLoads getSymbolQPS pt).qps s ↔ pt.Serves s ∧ 800 < getSymbolQPS s := by
  by_cases h : pt.Serves s
  · simp [qps_collectLoads h, h]
  · simp [SymbolLoad.qps, lookup_collectLoads_of_not_serves h, h]

theorem mem_findColdSymbols {order : List String}
    (horder : order.Perm (collectLoads getSymbolQPS pt).keys) :
    s ∈ findColdSymbols order (collectLoads getSymbolQPS pt) ↔
      pt.Serves s ∧ getSymbolQPS s < 5 := by
  unfold findColdSymbols
  rw [mem_filter, horder.mem_iff, mem_keys_collectLoads, decide_eq_true_eq]
  exact and_congr_right fun h => by rw [qps_collectLoads h]

end

/-! ## Turns -/

namespace ScaleRun

variable {run run' : ScaleRun}
variable {pt : PartitionTable} {a : ScaleAction} {getSymbolQPS : String → Int}

theorem mem_findHotSymbols {symbols : List String} {symbolLoad : SymbolLoad} {s : String} :
    s ∈ findHotSymbols symbols symbolLoad ↔ s ∈ symbols ∧ 800 < symbolLoad.qps s := by
  unfold findHotSymbols
  rw [mem_filter, decide_eq_true_eq]

theorem visit_eq_some {pid : String} (h : run.visit pid = some run') :
    run.hotSymbols = [] ∧ pid ∉ run.visited ∧ ∃ p, run.newPT.partitions.lookup pid = some p ∧ run' =
        { run with
          newPT :=
            if findHotSymbols p.symbols run.symbolLoad = [] then run.newPT
            else run.newPT.putPartition pid
              (removeSymbolsFromPartition p (findHotSymbols p.symbols run.symbolLoad))
          visited := pid :: run.visited
          pid := pid
          hotSymbols := findHotSymbols p.symbols run.symbolLoad
          needUpdateHot :=
            run.needUpdateHot || !(findHotSymbols p.symbols run.symbolLoad).isEmpty } := by
  unfold visit at h
  split at h
  · cases h
  next p hp =>
    split at h
    next hready =>
      cases h
      exact ⟨hready.1, hready.2, p, hp, rfl⟩
    next => cases h

theorem create_eq_some {clock : String} (h : run.create clock = some run') :
    ∃ symbol rest, run.hotSymbols = symbol :: rest ∧ run' = { run with
          newPT := createHotPartition run.newPT run.pid symbol mockWorkerLoadProvider clock
          hotSymbols := rest } := by
  unfold create at h
  split at h
  · cases h
  next symbol rest hhot =>
    cases h
    exact ⟨symbol, rest, hhot, rfl⟩

theorem symbolsOf_createHotPartition (pt : PartitionTable) (pid symbol clock : String)
    (wlp : WorkerLoadProvider) (pid' : String) :
    (createHotPartition pt pid symbol wlp clock).symbolsOf pid' =
      if pid' = hotPartitionID pid symbol clock then [symbol] else pt.symbolsOf pid' :=
  pt.symbolsOf_putPartition _ _ _

structure Splits (pt : PartitionTable) (run : ScaleRun) : Prop where
  untouched : run.needUpdateHot = false → run.newPT = pt ∧ run.hotSymbols = [] ∧
    ∀ pid ∈ run.visited, ∀ s ∈ pt.symbolsOf pid, run.symbolLoad.qps s ≤ 800
  waiting : ∀ s ∈ run.hotSymbols, 800 < run.symbolLoad.qps s
  remains : run.needUpdateHot = true → run.hotSymbols ≠ [] ∨
    ∃ pid, ∃ s ∈ run.newPT.symbolsOf pid, 800 < run.symbolLoad.qps s

theorem Splits.visit (h : run.Splits pt) {pid : String} (hvisit : run.visit pid = some run') :
    run'.Splits pt := by
  obtain ⟨hnone, -, p, hp, rfl⟩ := visit_eq_some hvisit
  by_cases hhot : findHotSymbols p.symbols run.symbolLoad = []
  · rw [hhot, if_pos rfl]
    refine ⟨fun hupdate => ?_, nofun, fun hupdate => ?_⟩
    · have hsame := h.untouched (by simpa using hupdate)
      refine ⟨hsame.1, rfl, List.forall_mem_cons.mpr ⟨fun s hs => ?_, hsame.2.2⟩⟩
      apply Int.not_lt.mp
      intro hlt
      have hmem : s ∈ findHotSymbols p.symbols run.symbolLoad := by
        refine mem_findHotSymbols.mpr ⟨?_, hlt⟩
        rwa [symbolsOf, ← hsame.1, hp] at hs
      rw [hhot] at hmem
      cases hmem
    · exact .inr ((h.remains (by simpa using hupdate)).resolve_left (absurd hnone))
  · refine ⟨fun hupdate => ?_, fun s hs => (mem_findHotSymbols.mp hs).2, fun _ => .inl hhot⟩
    simp [hhot] at hupdate

theorem Splits.create (h : run.Splits pt) {clock : String}
    (hcreate : run.create clock = some run') : run'.Splits pt := by
  obtain ⟨symbol, rest, hhot, rfl⟩ := create_eq_some hcreate
  have hwaiting := h.waiting
  rw [hhot] at hwaiting
  refine ⟨fun hupdate => ?_, (List.forall_mem_cons.mp hwaiting).2, fun _ => .inr ?_⟩
  · rw [(h.untouched hupdate).2.1] at hhot
    cases hhot
  · refine ⟨hotPartitionID run.pid symbol clock, symbol, ?_, hwaiting symbol mem_cons_self⟩
    rw [symbolsOf_createHotPartition, if_pos rfl]
    exact mem_singleton_self symbol

theorem symbolLoad_move (h : run.move a = some run') : run'.symbolLoad = run.symbolLoad := by
  cases a with
  | visit pid =>
    obtain ⟨-, -, p, -, rfl⟩ := visit_eq_some h
    rfl
  | create clock =>
    obtain ⟨symbol, rest, -, rfl⟩ := create_eq_some h
    rfl
  | start | finish => cases h

theorem Splits.move (h : run.Splits pt) (hmove : run.move a = some run') : run'.Splits pt := by
  cases a with
  | visit pid => exact h.visit hmove
  | create clock => exact h.create hmove
  | start | finish => cases hmove

structure Ongoing (getSymbolQPS : String → Int) (pt : PartitionTable) (run : ScaleRun) : Prop where
  symbolLoad : run.symbolLoad = collectLoads getSymbolQPS pt
  splits : run.Splits pt

theorem ongoing_start (getSymbolQPS : String → Int) (pt : PartitionTable) :
    (AutoScaler.start ⟨pt, none⟩ getSymbolQPS).Ongoing getSymbolQPS pt where
  symbolLoad := rfl
  splits :=
    ⟨fun _ => ⟨rfl, rfl, nofun⟩,
      nofun, fun h => by cases h⟩

theorem Ongoing.move (h : run.Ongoing getSymbolQPS pt) (hmove : run.move a = some run') :
    run'.Ongoing getSymbolQPS pt :=
  ⟨(symbolLoad_move hmove).trans h.symbolLoad, h.splits.move hmove⟩

theorem Ongoing.needUpdateHot_iff (h : run.Ongoing getSymbolQPS pt) (hnone : run.hotSymbols = [])
    (hvisited : ∀ pid ∈ pt.partitions.keys, pid ∈ run.visited) :
    run.needUpdateHot = true ↔ ∃ s, pt.Serves s ∧ 800 < getSymbolQPS s := by
  obtain ⟨hload, hsplits⟩ := h
  constructor
  · intro hupdate
    obtain ⟨pid, s, -, hs⟩ := (hsplits.remains hupdate).resolve_left (absurd hnone)
    rw [hload] at hs
    exact ⟨s, hot_collectLoads_iff.mp hs⟩
  · rintro ⟨s, ⟨pid, hpid⟩, hlt⟩
    by_contra hupdate
    have hkey := mem_keys_of_mem_symbolsOf hpid
    have hle := (hsplits.untouched (Bool.not_eq_true _ ▸ hupdate)).2.2 pid (hvisited pid hkey) s
      hpid
    rw [hload] at hle
    have := hot_collectLoads_iff.mpr ⟨⟨pid, hpid⟩, hlt⟩
    omega

theorem ongoing_of_execute {moves : List ScaleAction}
    (h : Run.execute ScaleRun.move (fun _ _ => True)
      (AutoScaler.start ⟨pt, none⟩ getSymbolQPS) moves = some run) : run.Ongoing getSymbolQPS pt :=
  (Run.reaches_of_execute h).invariant (ongoing_start getSymbolQPS pt)
    fun _ _ _ hrun _ hmove => hrun.move hmove

end ScaleRun

/-! ## Calls -/

section

variable {getSymbolQPS : String → Int} {pt pt' : PartitionTable} {moves : List ScaleAction}
  {order : List String} {clock : String} {written : Bool}
variable {symbolLoad : SymbolLoad} {wlp : WorkerLoadProvider}

theorem scaled_eq_some (h : pt.scaled ⟨getSymbolQPS, moves, order, clock⟩ = some (pt', written)) :
    ∃ run : ScaleRun, Run.execute ScaleRun.move (fun _ _ => True)
        (AutoScaler.start ⟨pt, none⟩ getSymbolQPS) moves = some run ∧
      run.hotSymbols = [] ∧ (∀ pid ∈ pt.partitions.keys, pid ∈ run.visited) ∧
      order.Perm run.symbolLoad.keys ∧
      written = (run.needUpdateHot ||
        (mergeColdSymbols run.newPT order run.symbolLoad mockWorkerLoadProvider clock).2) ∧
      pt' = if written then
        (mergeColdSymbols run.newPT order run.symbolLoad mockWorkerLoadProvider clock).1
        else pt := by
  obtain ⟨⟨newPT, needUpdate⟩, hcall, heq⟩ := map_eq_some_iff.mp h
  cases heq
  unfold scaleIfNeeded at hcall
  dsimp only at hcall
  split at hcall
  next => cases hcall
  next run hrun =>
    split at hcall
    next hready =>
      cases hcall
      exact ⟨run, hrun, hready.1, hready.2.1, hready.2.2, rfl, rfl⟩
    next => cases hcall

theorem one_lt_length_iff {l : List String} (h : l.Nodup) :
    1 < l.length ↔ ∃ a ∈ l, ∃ b ∈ l, a ≠ b := by
  match l with
  | [] => simp
  | [a] => simp
  | a :: b :: rest =>
    refine iff_of_true (by simp) ⟨a, mem_cons_self, b, by simp, ?_⟩
    rintro rfl
    exact (List.nodup_cons.mp h).1 mem_cons_self

theorem one_lt_length_cold_iff (horder : order.Perm (collectLoads getSymbolQPS pt).keys) :
    1 < (findColdSymbols order (collectLoads getSymbolQPS pt)).length ↔
      ∃ s s', pt.Serves s ∧ pt.Serves s' ∧ getSymbolQPS s < 5 ∧ getSymbolQPS s' < 5 ∧ s ≠ s' := by
  have hnodup : (findColdSymbols order (collectLoads getSymbolQPS pt)).Nodup :=
    (horder.nodup_iff.mpr (collectLoads getSymbolQPS pt).keys_nodup).filter _
  rw [one_lt_length_iff hnodup]
  simp only [mem_findColdSymbols horder]
  constructor
  · rintro ⟨s, hs, s', hs', hne⟩
    exact ⟨s, s', hs.1, hs'.1, hs.2, hs'.2, hne⟩
  · rintro ⟨s, s', hserved, hserved', hs, hs', hne⟩
    exact ⟨s, ⟨hserved, hs⟩, s', ⟨hserved', hs'⟩, hne⟩

theorem mergeColdSymbols_snd : (mergeColdSymbols pt order symbolLoad wlp clock).2 = true ↔
      1 < (findColdSymbols order symbolLoad).length := by
  unfold mergeColdSymbols
  dsimp only
  split
  next h => simp [h]
  next h => simpa using h

theorem symbolsOf_coldPartition (hcold : 1 < (findColdSymbols order symbolLoad).length) :
    (mergeColdSymbols pt order symbolLoad wlp clock).1.symbolsOf (coldPartitionID clock) =
      findColdSymbols order symbolLoad := by
  unfold mergeColdSymbols symbolsOf
  rw [if_neg (by omega), lookup_mapValues, putPartition, AList.lookup_insert]
  simp [dropColdSymbols, idlePartition]

theorem mergeColdSymbols_of_le (hcold : (findColdSymbols order symbolLoad).length ≤ 1) :
    mergeColdSymbols pt order symbolLoad wlp clock = (pt, false) := by
  exact if_pos hcold

theorem PartitionTable.not_quiet_iff : ¬ pt.Quiet getSymbolQPS ↔
    (∃ s, pt.Serves s ∧ 800 < getSymbolQPS s) ∨
      ∃ s s', pt.Serves s ∧ pt.Serves s' ∧ getSymbolQPS s < 5 ∧ getSymbolQPS s' < 5 ∧ s ≠ s' := by
  constructor
  · intro h
    by_contra hnot
    rw [not_or] at hnot
    refine h ⟨fun s hs => Int.not_lt.mp fun hlt => hnot.1 ⟨s, hs, hlt⟩, ?_⟩
    intro s s' hs hs' hcold hcold'
    by_contra hne
    exact hnot.2 ⟨s, s', hs, hs', hcold, hcold', hne⟩
  · rintro (⟨s, hs, hlt⟩ | ⟨s, s', hs, hs', hcold, hcold', hne⟩) h
    · exact absurd (h.hot s hs) (Int.not_le.mpr hlt)
    · exact hne (h.cold s s' hs hs' hcold hcold')

theorem scaled_spec (h : pt.scaled ⟨getSymbolQPS, moves, order, clock⟩ = some (pt', written)) :
    (written = true ↔ ¬ pt.Quiet getSymbolQPS) ∧ (written = false → pt' = pt) ∧
      (written = true → ¬ pt'.Quiet getSymbolQPS) := by
  obtain ⟨run, hrun, hnone, hvisited, horder, hwritten, hpt'⟩ := scaled_eq_some h
  obtain ⟨hload, hsplits⟩ := ScaleRun.ongoing_of_execute hrun
  rw [hload] at horder
  have hhot := ScaleRun.Ongoing.needUpdateHot_iff ⟨hload, hsplits⟩ hnone hvisited
  have hcold := one_lt_length_cold_iff horder
  have hiff : written = true ↔ ¬ pt.Quiet getSymbolQPS := by
    rw [hwritten, Bool.or_eq_true, mergeColdSymbols_snd, hload, hhot, hcold, not_quiet_iff]
  refine ⟨hiff, fun hfalse => by rw [hpt', hfalse]; rfl, fun htrue => ?_⟩
  rw [htrue, if_pos rfl] at hpt'
  rw [not_quiet_iff, hpt']
  by_cases hmerge : 1 < (findColdSymbols order (collectLoads getSymbolQPS pt)).length
  · obtain ⟨s, s', hs, hs', hlt, hlt', hne⟩ := hcold.mp hmerge
    have hlisted : ∀ s, pt.Serves s → getSymbolQPS s < 5 →
        (mergeColdSymbols run.newPT order run.symbolLoad mockWorkerLoadProvider
          clock).1.Serves s := by
      intro s hs hlt
      refine ⟨coldPartitionID clock, ?_⟩
      rw [hload, symbolsOf_coldPartition hmerge]
      exact (mem_findColdSymbols horder).mpr ⟨hs, hlt⟩
    exact .inr ⟨s, s', hlisted s hs hlt, hlisted s' hs' hlt', hlt, hlt', hne⟩
  · have hquiet := hiff.mp htrue
    rw [not_quiet_iff, ← hcold, ← hhot] at hquiet
    obtain ⟨pid, s, hs, hlt⟩ :=
      (hsplits.remains (hquiet.resolve_right hmerge)).resolve_left (absurd hnone)
    rw [hload, mergeColdSymbols_of_le (by omega)]
    rw [hload] at hlt
    exact .inl ⟨s, ⟨pid, hs⟩, (hot_collectLoads_iff.mp hlt).2⟩

end

/-- Of two calls with the same loads the second one changes nothing and writes nothing back exactly
when the first one had nothing to do: no symbol of the table is hot, and not two are cold. -/
theorem second_scaling_idle_iff (getSymbolQPS : String → Int) {pt pt' pt'' : PartitionTable}
    {moves moves' : List ScaleAction} {order order' : List String} {clock clock' : String}
    {written written' : Bool}
    (h : pt.scaled ⟨getSymbolQPS, moves, order, clock⟩ = some (pt', written))
    (h' : pt'.scaled ⟨getSymbolQPS, moves', order', clock'⟩ = some (pt'', written')) :
    (pt'' = pt' ∧ written' = false) ↔ pt.Quiet getSymbolQPS := by
  obtain ⟨hfirst, hsame, hstill⟩ := scaled_spec h
  obtain ⟨hsecond, hsame', -⟩ := scaled_spec h'
  constructor
  · rintro ⟨-, hidle⟩
    by_contra hquiet
    have := hsecond.mpr (hstill (hfirst.mpr hquiet))
    rw [hidle] at this
    cases this
  · intro hquiet
    have hidle : written = false := by
      by_contra hwritten
      exact hfirst.mp (Bool.not_eq_false _ ▸ hwritten) hquiet
    have hidle' : written' = false := by
      by_contra hwritten
      refine hsecond.mp (Bool.not_eq_false _ ▸ hwritten) ?_
      rw [hsame hidle]
      exact hquiet
    exact ⟨hsame' hidle', hidle'⟩

/-! ### Two calls on one partition -/

def fiveSymbolsOrder : List String := ["BTCUSDT", "LTCUSDT", "XRPUSDT", "ADAUSDT", "DOTUSDT"]

theorem fiveSymbols_quiet : fiveSymbols.Quiet (qpsOf [] []) where
  hot := by
    intro symbol _
    simp [qpsOf]
  cold := by
    intro s s' _ _ hcold
    simp [qpsOf] at hcold

/-- Symbols with a moderate load: nothing is done, twice. -/
theorem fiveSymbols_settled : ∃ pt' pt'' written written',
      fiveSymbols.scaled ⟨qpsOf [] [], [.visit "p1"], fiveSymbolsOrder, "093000"⟩ =
        some (pt', written) ∧
      pt'.scaled ⟨qpsOf [] [], [.visit "p1"], fiveSymbolsOrder, "094000"⟩ = some (pt'', written') ∧
      pt'' = pt' ∧ written' = false := by
  have hrun : ((fiveSymbols.scaled ⟨qpsOf [] [], [.visit "p1"], fiveSymbolsOrder,
      "093000"⟩).bind fun r => r.1.scaled ⟨qpsOf [] [], [.visit "p1"], fiveSymbolsOrder,
      "094000"⟩).any (fun _ => true) = true := by
    decide +kernel
  obtain ⟨⟨pt'', written'⟩, hr, -⟩ := Run.exists_of_any hrun
  obtain ⟨⟨pt', written⟩, hfirst, hsecond⟩ := bind_eq_some_iff.mp hr
  exact ⟨pt', pt'', written, written', hfirst, hsecond,
    (second_scaling_idle_iff _ hfirst hsecond).mpr fiveSymbols_quiet⟩

def hotChoices : ScaleChoices :=
  ⟨qpsOf ["BTCUSDT"] [], [.visit "p1", .create "093000"], fiveSymbolsOrder, "093000"⟩

def hotChoicesAgain : ScaleChoices :=
  ⟨qpsOf ["BTCUSDT"] [], [.visit "p1", .visit "p1_hot_BTCUSDT_093000", .create "094000"],
    fiveSymbolsOrder, "094000"⟩

/-- The second call splits the hot symbol off its own partition, which stays behind empty. -/
theorem hot_symbol_split_again : fiveSymbols.Coherent ∧ ∃ pt' pt'' written,
      fiveSymbols.scaled hotChoices = some (pt', written) ∧
      pt'.scaled hotChoicesAgain = some (pt'', true) ∧
      pt'.symbolToPartition "BTCUSDT" = ["p1_hot_BTCUSDT_093000"] ∧
      pt''.symbolToPartition "BTCUSDT" = ["p1_hot_BTCUSDT_093000_hot_BTCUSDT_094000"] ∧
      pt''.symbolsOf "p1_hot_BTCUSDT_093000" = [] := by
  refine ⟨fiveSymbols_coherent, ?_⟩
  have hrun : ((fiveSymbols.scaled hotChoices).bind fun r =>
      (r.1.scaled hotChoicesAgain).map fun r' => (r.1, r')).any
      (fun r => decide (r.2.2 = true ∧ r.1.symbolToPartition "BTCUSDT" = ["p1_hot_BTCUSDT_093000"] ∧
        r.2.1.symbolToPartition "BTCUSDT" = ["p1_hot_BTCUSDT_093000_hot_BTCUSDT_094000"] ∧
        r.2.1.symbolsOf "p1_hot_BTCUSDT_093000" = [])) = true := by
    decide +kernel
  obtain ⟨⟨pt₁, pt'', written'⟩, hr, htest⟩ := Run.exists_of_any hrun
  obtain ⟨⟨pt', written⟩, hfirst, hr⟩ := bind_eq_some_iff.mp hr
  obtain ⟨r', hsecond, heq⟩ := map_eq_some_iff.mp hr
  cases heq
  obtain ⟨hwritten, hroute, hroute', hempty⟩ := of_decide_eq_true htest
  subst hwritten
  exact ⟨pt', pt'', written, hfirst, hsecond, hroute, hroute', hempty⟩

end CexHertz
