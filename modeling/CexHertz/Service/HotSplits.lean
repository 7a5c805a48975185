import CexHertz.Service.ScaleSettling

/-!
# Splitting while ranging over the map

`splitHotSymbols` inserts partitions into the map it ranges over, and Go leaves open whether the
loop comes upon them. A loop that keeps to the old entries does what it should; one that comes upon
an inserted partition splits it again, and may go on without end. `created` is history: the
partitions made so far, with the partition and the symbol each was made for.
-/

namespace CexHertz

open List PartitionTable ScaleRun Option Run

/-! ## The loop with its history -/

structure HotCreation where
  pid : String
  symbol : String
  newPID : String
  deriving DecidableEq, Repr

structure SplitRun where
  run : ScaleRun
  created : List HotCreation

namespace SplitRun

variable (getSymbolQPS : String → Int) (pt : PartitionTable)

def start : SplitRun :=
  ⟨AutoScaler.start ⟨pt, none⟩ getSymbolQPS, []⟩

def creation (run : ScaleRun) : ScaleAction → List HotCreation
  | .create clock =>
    match run.hotSymbols with
    | [] => []
    | symbol :: _ => [⟨run.pid, symbol, hotPartitionID run.pid symbol clock⟩]
  | _ => []

def move (s : SplitRun) (a : ScaleAction) : Option SplitRun :=
  (s.run.move a).map fun run => ⟨run, s.created ++ creation s.run a⟩

/-- The loop may end: it is through with a partition, and has come upon all that were there when it
began. -/
def Complete (s : SplitRun) : Prop :=
  s.run.hotSymbols = [] ∧ ∀ pid ∈ pt.partitions.keys, pid ∈ s.run.visited

instance (s : SplitRun) : Decidable (s.Complete pt) :=
  inferInstanceAs (Decidable (_ ∧ _))

/-- One new partition for each hot symbol of each partition there was, and no empty one besides
those. -/
structure Exact (s : SplitRun) : Prop where
  once : ∀ pid symbol, s.created.countP (fun c => c.pid = pid ∧ c.symbol = symbol) =
    if symbol ∈ pt.symbolsOf pid ∧ 800 < getSymbolQPS symbol then 1 else 0
  distinct : (s.created.map HotCreation.newPID).Nodup
  new : ∀ c ∈ s.created, c.newPID ∉ pt.partitions.keys
  nonempty : ∀ pid ∈ s.run.newPT.partitions.keys, pid ∉ pt.partitions.keys →
    s.run.newPT.symbolsOf pid ≠ []

/-- Only partitions that were there are come upon, and only ids that nothing has are given out. -/
def Original (s : SplitRun) : ScaleAction → Prop
  | .visit pid => pid ∈ pt.partitions.keys
  | .create clock => ∀ symbol ∈ s.run.hotSymbols.head?,
      hotPartitionID s.run.pid symbol clock ∉ s.run.newPT.partitions.keys
  | _ => True

instance (s : SplitRun) : (a : ScaleAction) → Decidable (s.Original pt a)
  | .visit _ => inferInstanceAs (Decidable (_ ∈ _))
  | .create _ => inferInstanceAs (Decidable (∀ _ ∈ s.run.hotSymbols.head?, _))
  | .start _ | .finish .. => instDecidableTrue

end SplitRun

def PartitionTable.HotOnce (getSymbolQPS : String → Int) (pt : PartitionTable) : Prop :=
  ∀ pid, ((pt.symbolsOf pid).filter fun s => 800 < getSymbolQPS s).Nodup

def PartitionTable.splitWork (getSymbolQPS : String → Int) (pt : PartitionTable)
    (pids : List String) : List String :=
  pids.flatMap fun pid => pid :: findHotSymbols (pt.symbolsOf pid) (collectLoads getSymbolQPS pt)

/-! ## Tables -/

section

variable {pt : PartitionTable} {pid : String}

theorem PartitionTable.mem_keys_putPartition {pid' : String} {p : Partition} :
    pid' ∈ (pt.putPartition pid p).partitions.keys ↔ pid' = pid ∨ pid' ∈ pt.partitions.keys := by
  rw [← AList.mem_keys, ← AList.mem_keys, putPartition]
  exact AList.mem_insert _

theorem findHotSymbols_collectLoads (getSymbolQPS : String → Int) (pt : PartitionTable)
    (pid : String) :
    findHotSymbols (pt.symbolsOf pid) (collectLoads getSymbolQPS pt) =
      (pt.symbolsOf pid).filter fun s => 800 < getSymbolQPS s := by
  apply filter_congr
  intro s hs
  rw [qps_collectLoads ⟨pid, hs⟩]

end

/-! ## Turns -/

namespace SplitRun

variable {getSymbolQPS : String → Int} {pt : PartitionTable} {s s' : SplitRun} {a : ScaleAction}

structure Visited (s s' : SplitRun) (pid : String) : Prop where
  idle : s.run.hotSymbols = []
  unvisited : pid ∉ s.run.visited
  key : pid ∈ s.run.newPT.partitions.keys
  visited : s'.run.visited = pid :: s.run.visited
  current : s'.run.pid = pid
  hot : s'.run.hotSymbols = findHotSymbols (s.run.newPT.symbolsOf pid) s.run.symbolLoad
  keys : ∀ pid', pid' ∈ s'.run.newPT.partitions.keys ↔ pid' ∈ s.run.newPT.partitions.keys
  others : ∀ pid', pid' ≠ pid → s'.run.newPT.symbolsOf pid' = s.run.newPT.symbolsOf pid'
  load : s'.run.symbolLoad = s.run.symbolLoad
  created : s'.created = s.created

structure Created (s s' : SplitRun) (symbol newPID : String) : Prop where
  hot : s.run.hotSymbols = symbol :: s'.run.hotSymbols
  visited : s'.run.visited = s.run.visited
  current : s'.run.pid = s.run.pid
  keys : ∀ pid', pid' ∈ s'.run.newPT.partitions.keys ↔
    pid' = newPID ∨ pid' ∈ s.run.newPT.partitions.keys
  symbols : ∀ pid', s'.run.newPT.symbolsOf pid' =
    if pid' = newPID then [symbol] else s.run.newPT.symbolsOf pid'
  load : s'.run.symbolLoad = s.run.symbolLoad
  created : s'.created = s.created ++ [⟨s.run.pid, symbol, newPID⟩]

theorem visited_of_move {pid : String} (h : s.move (.visit pid) = some s') : Visited s s' pid := by
  obtain ⟨run, hvisit, rfl⟩ := map_eq_some_iff.mp h
  obtain ⟨hidle, hunvisited, p, hp, rfl⟩ := visit_eq_some hvisit
  have hkey : pid ∈ s.run.newPT.partitions.keys := by
    rw [← AList.mem_keys, ← AList.lookup_isSome, hp]
    rfl
  refine ⟨hidle, hunvisited, hkey, rfl, rfl, ?_, fun pid' => ?_, fun pid' hne => ?_, rfl,
    append_nil _⟩
  · rw [symbolsOf, hp]
    rfl
  · split
    · exact Iff.rfl
    · rw [mem_keys_putPartition]
      exact or_iff_right_of_imp fun heq => heq ▸ hkey
  · split
    · rfl
    · rw [symbolsOf_putPartition, if_neg hne]

theorem created_of_move {clock : String} (h : s.move (.create clock) = some s') :
    ∃ symbol, Created s s' symbol (hotPartitionID s.run.pid symbol clock) := by
  obtain ⟨run, hcreate, rfl⟩ := map_eq_some_iff.mp h
  obtain ⟨symbol, rest, hhot, rfl⟩ := create_eq_some hcreate
  refine ⟨symbol, hhot, rfl, rfl, fun pid' => ?_, fun pid' => ?_, rfl, ?_⟩
  · exact mem_keys_putPartition
  · exact symbolsOf_createHotPartition _ _ _ _ _ _
  · simp [creation, hhot]

theorem exists_visit {pid : String} (hidle : s.run.hotSymbols = [])
    (hunvisited : pid ∉ s.run.visited) (hkey : pid ∈ s.run.newPT.partitions.keys) :
    ∃ s', s.move (.visit pid) = some s' := by
  obtain ⟨p, hp⟩ := isSome_iff_exists.mp (AList.lookup_isSome.mpr (AList.mem_keys.mpr hkey))
  show ∃ s', (s.run.visit pid).map _ = some s'
  unfold visit
  rw [hp]
  dsimp only
  rw [if_pos ⟨hidle, hunvisited⟩]
  exact ⟨_, rfl⟩

theorem exists_create {symbol : String} {rest : List String}
    (hhot : s.run.hotSymbols = symbol :: rest) (clock : String) :
    ∃ s', s.move (.create clock) = some s' := by
  show ∃ s', (s.run.create clock).map _ = some s'
  unfold create
  rw [hhot]
  exact ⟨_, rfl⟩

/-! ## A loop that goes wrong -/

/-- What the keys of the copy are, and that a partition made on the way lists a hot symbol until the
loop comes upon it. -/
structure Grows (pt : PartitionTable) (s : SplitRun) : Prop where
  waiting : ∀ symbol ∈ s.run.hotSymbols, 800 < s.run.symbolLoad.qps symbol
  keys : ∀ pid ∈ s.run.newPT.partitions.keys, pid ∈ pt.partitions.keys ∨
    pid ∈ s.created.map HotCreation.newPID
  lists : ∀ pid ∈ s.run.newPT.partitions.keys, pid ∉ pt.partitions.keys → pid ∉ s.run.visited →
    ∃ symbol ∈ s.run.newPT.symbolsOf pid, 800 < s.run.symbolLoad.qps symbol

theorem grows_start : (start getSymbolQPS pt).Grows pt where
  waiting := nofun
  keys := fun _ h => .inl h
  lists := fun _ h hnot => absurd h hnot

theorem Grows.move (hs : s.Grows pt) (h : s.move a = some s') : s'.Grows pt := by
  cases a with
  | visit pid =>
    have hv := visited_of_move h
    constructor
    · rw [hv.hot, hv.load]
      exact fun symbol hsymbol => (mem_findHotSymbols.mp hsymbol).2
    · intro pid' hkey
      rw [hv.created]
      exact hs.keys pid' ((hv.keys pid').mp hkey)
    · intro pid' hkey hnew hunvisited
      rw [hv.visited, mem_cons, not_or] at hunvisited
      rw [hv.others pid' hunvisited.1, hv.load]
      exact hs.lists pid' ((hv.keys pid').mp hkey) hnew hunvisited.2
  | create clock =>
    obtain ⟨symbol, hc⟩ := created_of_move h
    have hwaiting := hs.waiting
    rw [hc.hot] at hwaiting
    obtain ⟨hhot, hrest⟩ := forall_mem_cons.mp hwaiting
    constructor
    · rwa [hc.load]
    · intro pid hkey
      rw [hc.created, map_append, mem_append]
      rcases (hc.keys pid).mp hkey with rfl | hkey
      · exact .inr (.inr (mem_singleton_self _))
      · exact (hs.keys pid hkey).imp_right .inl
    · intro pid hkey hnew hunvisited
      rw [hc.symbols, hc.load]
      split
      next => exact ⟨symbol, mem_singleton_self _, hhot⟩
      next hne =>
        rw [hc.visited] at hunvisited
        exact hs.lists pid (((hc.keys pid).mp hkey).resolve_left hne) hnew hunvisited
  | start | finish => cases h

def Doomed (pt : PartitionTable) (s : SplitRun) : Prop :=
  (s.run.hotSymbols ≠ [] ∧ s.run.pid ∉ pt.partitions.keys) ∨
    (∃ c ∈ s.created, c.pid ∉ pt.partitions.keys) ∨
    (∃ c ∈ s.created, c.newPID ∈ pt.partitions.keys) ∨
    ¬ (s.created.map HotCreation.newPID).Nodup

theorem Doomed.move (hs : s.Doomed pt) (h : s.move a = some s') : s'.Doomed pt := by
  cases a with
  | visit pid =>
    have hv := visited_of_move h
    rcases hs with ⟨hhot, -⟩ | hs
    · exact absurd hv.idle hhot
    · unfold Doomed
      rw [hv.created]
      exact .inr hs
  | create clock =>
    obtain ⟨symbol, hc⟩ := created_of_move h
    unfold Doomed
    rw [hc.created]
    rcases hs with ⟨-, hpid⟩ | ⟨c, hmem, hpid⟩ | ⟨c, hmem, hnew⟩ | hdistinct
    · exact .inr (.inl ⟨_, mem_append_right _ (mem_singleton_self _), hpid⟩)
    · exact .inr (.inl ⟨c, mem_append_left _ hmem, hpid⟩)
    · exact .inr (.inr (.inl ⟨c, mem_append_left _ hmem, hnew⟩))
    · refine .inr (.inr (.inr fun hnodup => hdistinct ?_))
      rw [map_append] at hnodup
      exact hnodup.of_append_left
  | start | finish => cases h

theorem Grows.doomed_of_not_original (hs : s.Grows pt) (h : s.move a = some s')
    (hnot : ¬ s.Original pt a) : s'.Doomed pt := by
  cases a with
  | visit pid =>
    have hv := visited_of_move h
    obtain ⟨symbol, hlisted, hhot⟩ := hs.lists pid hv.key hnot hv.unvisited
    refine .inl ⟨?_, by rw [hv.current]; exact hnot⟩
    rw [hv.hot]
    exact ne_nil_of_mem (mem_findHotSymbols.mpr ⟨hlisted, hhot⟩)
  | create clock =>
    obtain ⟨symbol, hc⟩ := created_of_move h
    have hused : hotPartitionID s.run.pid symbol clock ∈ s.run.newPT.partitions.keys := by
      by_contra hfree
      apply hnot
      unfold Original
      rw [hc.hot]
      simpa using hfree
    unfold Doomed
    rw [hc.created]
    rcases hs.keys _ hused with hkey | hmem
    · exact .inr (.inr (.inl ⟨_, mem_append_right _ (mem_singleton_self _), hkey⟩))
    · refine .inr (.inr (.inr fun hnodup => ?_))
      rw [map_append, nodup_append] at hnodup
      exact hnodup.2.2 _ hmem _ (mem_singleton_self _) rfl
  | start | finish => cases h

theorem Doomed.not_exact (hs : s.Doomed pt) (hcomplete : s.Complete pt) :
    ¬ s.Exact getSymbolQPS pt := by
  intro h
  rcases hs with ⟨hhot, -⟩ | ⟨c, hmem, hpid⟩ | ⟨c, hmem, hnew⟩ | hdistinct
  · exact hhot hcomplete.1
  · have honce := h.once c.pid c.symbol
    rw [symbolsOf_of_not_mem hpid, if_neg (by simp), countP_eq_zero] at honce
    exact honce c hmem (by simp)
  · exact h.new c hmem hnew
  · exact hdistinct h.distinct

theorem Grows.original_or_doomed {moves : List ScaleAction} (hs : s.Grows pt)
    (h : execute SplitRun.move (fun _ _ => True) s moves = some s') :
    execute SplitRun.move (Original pt) s moves = some s' ∨ s'.Doomed pt := by
  refine (execute_or (I := Grows pt) h hs ?_ ?_ ?_).imp_left And.left
  · exact fun s a s' hs _ hmove => hs.move hmove
  · exact fun s a s' hs hnot hmove => hs.doomed_of_not_original hmove hnot
  · exact fun s a s' hs hmove => hs.move hmove

/-! ## A loop that keeps to the map there was -/

def splitOff (s : SplitRun) (pid : String) : List String :=
  (s.created.filter fun c => c.pid = pid).map HotCreation.symbol

structure Ok (getSymbolQPS : String → Int) (pt : PartitionTable) (s : SplitRun) : Prop where
  load : s.run.symbolLoad = collectLoads getSymbolQPS pt
  visited : ∀ pid ∈ s.run.visited, pid ∈ pt.partitions.keys
  current : s.run.hotSymbols ≠ [] → s.run.pid ∈ s.run.visited
  keys : ∀ pid ∈ pt.partitions.keys, pid ∈ s.run.newPT.partitions.keys
  unvisited : ∀ pid ∈ pt.partitions.keys, pid ∉ s.run.visited →
    s.run.newPT.symbolsOf pid = pt.symbolsOf pid
  split : ∀ pid, s.splitOff pid ++ (if pid = s.run.pid then s.run.hotSymbols else []) =
    if pid ∈ s.run.visited then findHotSymbols (pt.symbolsOf pid) (collectLoads getSymbolQPS pt)
    else []
  distinct : (s.created.map HotCreation.newPID).Nodup
  new : ∀ c ∈ s.created, c.newPID ∉ pt.partitions.keys
  stored : ∀ c ∈ s.created, c.newPID ∈ s.run.newPT.partitions.keys ∧
    s.run.newPT.symbolsOf c.newPID = [c.symbol]
  all : ∀ pid ∈ s.run.newPT.partitions.keys, pid ∈ pt.partitions.keys ∨
    pid ∈ s.created.map HotCreation.newPID

theorem ok_start : (start getSymbolQPS pt).Ok getSymbolQPS pt where
  load := rfl
  visited := nofun
  current := fun h => absurd rfl h
  keys := fun _ h => h
  unvisited := fun _ _ _ => rfl
  split := by
    intro pid
    rw [show (start getSymbolQPS pt).run.hotSymbols = [] from rfl, ite_self,
      if_neg (show pid ∉ (start getSymbolQPS pt).run.visited from not_mem_nil)]
    rfl
  distinct := nodup_nil
  new := nofun
  stored := nofun
  all := fun _ h => .inl h

theorem Ok.visit (hs : s.Ok getSymbolQPS pt) {pid : String} (hv : Visited s s' pid)
    (hpid : pid ∈ pt.partitions.keys) : s'.Ok getSymbolQPS pt where
  load := hv.load.trans hs.load
  visited := by
    rw [hv.visited]
    exact forall_mem_cons.mpr ⟨hpid, hs.visited⟩
  current := by
    intro _
    rw [hv.current, hv.visited]
    exact mem_cons_self
  keys := fun pid' hpid' => (hv.keys pid').mpr (hs.keys pid' hpid')
  unvisited := by
    intro pid' hpid' hunvisited
    rw [hv.visited, mem_cons, not_or] at hunvisited
    rw [hv.others pid' hunvisited.1]
    exact hs.unvisited pid' hpid' hunvisited.2
  split := by
    intro pid'
    have hsplit := hs.split pid'
    rw [hv.idle, ite_self, append_nil] at hsplit
    have hoff : s'.splitOff pid' = s.splitOff pid' := by rw [splitOff, splitOff, hv.created]
    rw [hoff, hsplit, hv.current, hv.visited, hv.hot]
    rcases eq_or_ne pid' pid with rfl | hne
    · rw [if_neg hv.unvisited, if_pos rfl, if_pos mem_cons_self, nil_append,
        hs.unvisited pid' hpid hv.unvisited, hs.load]
    · simp [hne]
  distinct := by
    rw [hv.created]
    exact hs.distinct
  new := by
    rw [hv.created]
    exact hs.new
  stored := by
    rw [hv.created]
    intro c hc
    refine ⟨(hv.keys _).mpr (hs.stored c hc).1, ?_⟩
    have hne : c.newPID ≠ pid := fun heq => hs.new c hc (heq ▸ hpid)
    rw [hv.others _ hne]
    exact (hs.stored c hc).2
  all := by
    intro pid' hkey
    rw [hv.created]
    exact hs.all pid' ((hv.keys pid').mp hkey)

theorem Ok.create (hs : s.Ok getSymbolQPS pt) {symbol newPID : String}
    (hc : Created s s' symbol newPID) (hfree : newPID ∉ s.run.newPT.partitions.keys) :
    s'.Ok getSymbolQPS pt where
  load := hc.load.trans hs.load
  visited := by
    rw [hc.visited]
    exact hs.visited
  current := by
    intro _
    rw [hc.current, hc.visited]
    exact hs.current (by rw [hc.hot]; exact cons_ne_nil _ _)
  keys := fun pid hpid => (hc.keys pid).mpr (.inr (hs.keys pid hpid))
  unvisited := by
    intro pid hpid hunvisited
    rw [hc.visited] at hunvisited
    have hne : pid ≠ newPID := fun heq => hfree (heq ▸ hs.keys pid hpid)
    rw [hc.symbols, if_neg hne]
    exact hs.unvisited pid hpid hunvisited
  split := by
    intro pid
    rw [hc.visited, ← hs.split pid, hc.hot, hc.current]
    unfold splitOff
    rw [hc.created, filter_append, map_append]
    rcases eq_or_ne pid s.run.pid with rfl | hne
    · simp
    · simp [hne, hne.symm]
  distinct := by
    rw [hc.created, map_append]
    refine nodup_append.mpr
      ⟨hs.distinct, nodup_singleton _, fun pid hpid pid' hpid' => ?_⟩
    obtain ⟨c, hmem, rfl⟩ := mem_map.mp hpid
    rw [mem_singleton.mp hpid']
    rintro (heq : c.newPID = newPID)
    exact hfree (heq ▸ (hs.stored c hmem).1)
  new := by
    rw [hc.created]
    refine forall_mem_append.mpr ⟨hs.new, forall_mem_singleton.mpr fun hkey => ?_⟩
    exact hfree (hs.keys _ hkey)
  stored := by
    rw [hc.created]
    refine forall_mem_append.mpr ⟨fun c hmem => ?_, forall_mem_singleton.mpr ?_⟩
    · obtain ⟨hkey, hsymbols⟩ := hs.stored c hmem
      have hne : c.newPID ≠ newPID := fun heq => hfree (heq ▸ hkey)
      refine ⟨(hc.keys _).mpr (.inr hkey), ?_⟩
      rw [hc.symbols, if_neg hne, hsymbols]
    · exact ⟨(hc.keys _).mpr (.inl rfl), by rw [hc.symbols, if_pos rfl]⟩
  all := by
    intro pid hkey
    rw [hc.created, map_append, mem_append]
    rcases (hc.keys pid).mp hkey with rfl | hkey
    · exact .inr (.inr (mem_singleton_self _))
    · exact (hs.all pid hkey).imp_right .inl

theorem Ok.move (hs : s.Ok getSymbolQPS pt) (horiginal : s.Original pt a)
    (h : s.move a = some s') : s'.Ok getSymbolQPS pt := by
  cases a with
  | visit pid => exact hs.visit (visited_of_move h) horiginal
  | create clock =>
    obtain ⟨symbol, hc⟩ := created_of_move h
    refine hs.create hc (horiginal symbol ?_)
    rw [hc.hot]
    rfl
  | start | finish => cases h

/-! ### When it is through -/

theorem Ok.splitOff_eq (hs : s.Ok getSymbolQPS pt) (hcomplete : s.Complete pt) (pid : String) :
    s.splitOff pid = (pt.symbolsOf pid).filter fun symbol => 800 < getSymbolQPS symbol := by
  have hsplit := hs.split pid
  rw [hcomplete.1, ite_self, append_nil, findHotSymbols_collectLoads] at hsplit
  rw [hsplit]
  split
  next => rfl
  next hunvisited =>
    have hkey : pid ∉ pt.partitions.keys := fun hkey => hunvisited (hcomplete.2 pid hkey)
    rw [symbolsOf_of_not_mem hkey]
    rfl

theorem countP_created (s : SplitRun) (pid symbol : String) :
    s.created.countP (fun c => c.pid = pid ∧ c.symbol = symbol) =
      (s.splitOff pid).count symbol := by
  unfold splitOff
  rw [List.count, countP_map, countP_filter]
  apply countP_congr
  intro c _
  simp [and_comm]

theorem Ok.exact_iff (hs : s.Ok getSymbolQPS pt) (hcomplete : s.Complete pt) :
    s.Exact getSymbolQPS pt ↔ pt.HotOnce getSymbolQPS := by
  have hmem : ∀ pid symbol, symbol ∈ s.splitOff pid ↔
      symbol ∈ pt.symbolsOf pid ∧ 800 < getSymbolQPS symbol := by
    intro pid symbol
    rw [hs.splitOff_eq hcomplete, mem_filter, decide_eq_true_eq]
  constructor
  · intro h pid
    rw [← hs.splitOff_eq hcomplete pid, nodup_iff_count_le_one]
    intro symbol
    rw [← countP_created, h.once]
    split <;> omega
  · intro h
    refine ⟨fun pid symbol => ?_, hs.distinct, hs.new, fun pid hkey hnew => ?_⟩
    · rw [countP_created]
      split
      next hhot =>
        apply count_eq_one_of_mem _ ((hmem pid symbol).mpr hhot)
        rw [hs.splitOff_eq hcomplete]
        exact h pid
      next hnot => exact count_eq_zero.mpr fun hin => hnot ((hmem pid symbol).mp hin)
    · obtain ⟨c, hc, rfl⟩ := mem_map.mp ((hs.all pid hkey).resolve_left hnew)
      rw [(hs.stored c hc).2]
      exact cons_ne_nil _ _

/-! ### How long it takes -/

def left (getSymbolQPS : String → Int) (pt : PartitionTable) (s : SplitRun) : Nat :=
  s.run.hotSymbols.length +
    (pt.splitWork getSymbolQPS (pt.partitions.keys.filter fun pid => pid ∉ s.run.visited)).length

end SplitRun

theorem length_flatMap_filter_cons {f : String → List String} {l visited : List String}
    (hl : l.Nodup) {pid : String} (hpid : pid ∈ l) (hunvisited : pid ∉ visited) :
    ((l.filter fun p => p ∉ visited).flatMap f).length =
      (f pid).length + ((l.filter fun p => p ∉ pid :: visited).flatMap f).length := by
  have hperm : (l.filter fun p => p ∉ visited).Perm
      (pid :: l.filter fun p => p ∉ pid :: visited) := by
    apply (perm_ext_iff_of_nodup (hl.filter _) (nodup_cons.mpr ⟨by simp, hl.filter _⟩)).mpr
    intro p
    by_cases hp : p = pid
    · simp [hp, hpid, hunvisited]
    · simp [hp]
  rw [(hperm.flatMap_right f).length_eq, flatMap_cons, length_append]

namespace SplitRun

variable {getSymbolQPS : String → Int} {pt : PartitionTable} {s s' : SplitRun} {a : ScaleAction}

theorem Ok.left_move (hs : s.Ok getSymbolQPS pt) (horiginal : s.Original pt a)
    (h : s.move a = some s') : s'.left getSymbolQPS pt + 1 = s.left getSymbolQPS pt := by
  unfold left
  cases a with
  | visit pid =>
    have hv := visited_of_move h
    have hwork : (pt.splitWork getSymbolQPS
        (pt.partitions.keys.filter fun p => p ∉ s.run.visited)).length = _ :=
      length_flatMap_filter_cons pt.partitions.keys_nodup horiginal hv.unvisited
    rw [hwork, hv.idle, hv.visited, hv.hot, hs.unvisited pid horiginal hv.unvisited, hs.load,
      length_cons, length_nil]
    unfold splitWork
    omega
  | create clock =>
    obtain ⟨symbol, hc⟩ := created_of_move h
    rw [hc.hot, hc.visited, length_cons]
    omega
  | start | finish => cases h

theorem Ok.left_execute {moves : List ScaleAction} (hs : s.Ok getSymbolQPS pt)
    (h : execute SplitRun.move (Original pt) s moves = some s') :
    s'.Ok getSymbolQPS pt ∧
      moves.length + s'.left getSymbolQPS pt = s.left getSymbolQPS pt := by
  induction moves generalizing s with
  | nil =>
    cases h
    exact ⟨hs, Nat.zero_add _⟩
  | cons a rest ih =>
    obtain ⟨horiginal, next, hmove, hrest⟩ := execute_cons_eq_some.mp h
    obtain ⟨hok, hlength⟩ := ih (hs.move horiginal hmove) hrest
    have hleft := hs.left_move horiginal hmove
    refine ⟨hok, ?_⟩
    rw [length_cons]
    omega

theorem left_start (getSymbolQPS : String → Int) (pt : PartitionTable) :
    (start getSymbolQPS pt).left getSymbolQPS pt =
      (pt.splitWork getSymbolQPS pt.partitions.keys).length := by
  unfold left start AutoScaler.start
  simp

/-! ## Every iteration order -/

/-- For every table, every load and every way to range over the map: a loop that has come to its end
has made one new partition for each hot symbol of each partition and left no new one empty exactly
when no partition lists a hot symbol twice, the loop came upon no partition it had made itself, and
no id it gave out was in use; and a loop that keeps to this has no more turns than there are
partitions and hot symbols in them. -/
theorem splitHotSymbols_exact_iff (getSymbolQPS : String → Int) (pt : PartitionTable)
    (moves : List ScaleAction) (s : SplitRun) :
    (execute move (fun _ _ => True) (start getSymbolQPS pt) moves = some s → s.Complete pt →
      (s.Exact getSymbolQPS pt ↔ pt.HotOnce getSymbolQPS ∧
        execute move (Original pt) (start getSymbolQPS pt) moves = some s)) ∧
    (execute move (Original pt) (start getSymbolQPS pt) moves = some s →
      moves.length ≤ (pt.splitWork getSymbolQPS pt.partitions.keys).length) := by
  constructor
  · intro hrun hcomplete
    constructor
    · intro hexact
      rcases grows_start.original_or_doomed hrun with horiginal | hdoomed
      · exact ⟨((ok_start.left_execute horiginal).1.exact_iff hcomplete).mp hexact, horiginal⟩
      · exact absurd hexact (hdoomed.not_exact hcomplete)
    · rintro ⟨honce, horiginal⟩
      exact ((ok_start.left_execute horiginal).1.exact_iff hcomplete).mpr honce
  · intro hrun
    have hlength := (ok_start.left_execute hrun).2
    rw [left_start] at hlength
    omega

theorem fiveSymbols_hotOnce : fiveSymbols.HotOnce (qpsOf ["BTCUSDT"] []) := by
  intro pid
  rcases eq_or_ne pid "p1" with rfl | hne
  · decide +kernel
  · have hkey : pid ∉ fiveSymbols.partitions.keys := by
      rw [show fiveSymbols.partitions.keys = ["p1"] from rfl, mem_singleton]
      exact hne
    rw [symbolsOf_of_not_mem hkey]
    exact nodup_nil

/-- The one partition there is is split once. -/
theorem fiveSymbols_split_exact :
    ∃ s, execute move (fun _ _ => True) (start (qpsOf ["BTCUSDT"] []) fiveSymbols)
        [.visit "p1", .create "093000"] = some s ∧ s.Complete fiveSymbols ∧
      s.Exact (qpsOf ["BTCUSDT"] []) fiveSymbols := by
  have hrun : (execute move (Original fiveSymbols) (start (qpsOf ["BTCUSDT"] []) fiveSymbols)
      [.visit "p1", .create "093000"]).any (fun s => decide (s.Complete fiveSymbols)) = true := by
    decide +kernel
  obtain ⟨s, hs, htest⟩ := exists_of_any hrun
  have hcomplete := of_decide_eq_true htest
  have hall : execute move (fun _ _ => True) (start (qpsOf ["BTCUSDT"] []) fiveSymbols)
      [.visit "p1", .create "093000"] = some s :=
    execute_mono hs fun _ _ _ => trivial
  exact ⟨s, hall, hcomplete, ((splitHotSymbols_exact_iff _ _ _ _).1 hall hcomplete).mpr
    ⟨fiveSymbols_hotOnce, hs⟩⟩

/-! ### A loop that comes upon what it has made -/

def oneHotSymbol : PartitionTable :=
  .ofPartitions (List.toAList [⟨"p1", ⟨"p1", ["BTCUSDT"], ["worker1"]⟩⟩])

structure Facing (s : SplitRun) (pid symbol : String) : Prop where
  idle : s.run.hotSymbols = []
  lists : ∃ p, s.run.newPT.partitions.lookup pid = some p ∧ p.symbols = [symbol]
  hot : 800 < s.run.symbolLoad.qps symbol
  longer : ∀ other ∈ s.run.visited, other.length < pid.length

theorem length_hotPartitionID (pid symbol clock : String) :
    pid.length < (hotPartitionID pid symbol clock).length := by
  have hhot : "_hot_".length = 5 := rfl
  simp only [hotPartitionID, String.length_append]
  omega

theorem Facing.next {pid symbol : String} (hs : s.Facing pid symbol) (clock : String) :
    ∃ s', execute move (fun _ _ => True) s [.visit pid, .create clock] = some s' ∧
      s'.Facing (hotPartitionID pid symbol clock) symbol := by
  have hlists : s.run.newPT.symbolsOf pid = [symbol] := by
    obtain ⟨p, hp, hsymbols⟩ := hs.lists
    rw [symbolsOf, hp, map_some, getD_some, hsymbols]
  have hunvisited : pid ∉ s.run.visited := fun hmem => Nat.lt_irrefl _ (hs.longer pid hmem)
  have hkey := mem_keys_of_mem_symbolsOf
    (show symbol ∈ s.run.newPT.symbolsOf pid by rw [hlists]; exact mem_singleton_self _)
  obtain ⟨mid, hvisit⟩ := exists_visit hs.idle hunvisited hkey
  have hv := visited_of_move hvisit
  have hhot : mid.run.hotSymbols = [symbol] := by
    rw [hv.hot, hlists]
    simp [findHotSymbols, hs.hot]
  obtain ⟨s', hcreate⟩ := exists_create hhot clock
  obtain ⟨symbol', hc⟩ := created_of_move hcreate
  obtain ⟨rfl, hidle⟩ := List.cons.inj (hhot.symm.trans hc.hot)
  rw [hv.current] at hc
  refine ⟨s', execute_cons_eq_some.mpr ⟨trivial, mid, hvisit,
    execute_singleton.mpr ⟨trivial, hcreate⟩⟩, hidle.symm, ?_, ?_, ?_⟩
  · have hnew := hc.symbols (hotPartitionID pid symbol clock)
    rw [if_pos rfl, symbolsOf] at hnew
    cases hp : s'.run.newPT.partitions.lookup (hotPartitionID pid symbol clock) with
    | none =>
      rw [hp] at hnew
      cases hnew
    | some p =>
      rw [hp] at hnew
      exact ⟨p, rfl, hnew⟩
  · rw [hc.load, hv.load]
    exact hs.hot
  · have hlonger := length_hotPartitionID pid symbol clock
    rw [hc.visited, hv.visited]
    refine forall_mem_cons.mpr ⟨hlonger, fun other hother => ?_⟩
    exact Nat.lt_trans (hs.longer other hother) hlonger

theorem Facing.unbounded {pid symbol : String} (hs : s.Facing pid symbol) (n : Nat) :
    ∃ moves s', execute move (fun _ _ => True) s moves = some s' ∧ n ≤ moves.length := by
  induction n generalizing s pid with
  | zero => exact ⟨[], s, rfl, Nat.le_refl 0⟩
  | succ n ih =>
    obtain ⟨s₁, hturns, hnext⟩ := hs.next "093000"
    obtain ⟨moves, s', hrun, hlength⟩ := ih hnext
    refine ⟨.visit pid :: .create "093000" :: moves, s', ?_, ?_⟩
    · obtain ⟨-, mid, hvisit, hcreate⟩ := execute_cons_eq_some.mp hturns
      exact execute_cons_eq_some.mpr ⟨trivial, mid, hvisit,
        execute_cons_eq_some.mpr ⟨trivial, s₁, (execute_singleton.mp hcreate).2, hrun⟩⟩
    · rw [length_cons, length_cons]
      omega

/-- The partition made for the symbol is split again and stays behind empty; and there are loops
with any number of turns. -/
theorem oneHotSymbol_split_again :
    (∃ s, execute move (fun _ _ => True) (start (qpsOf ["BTCUSDT"] []) oneHotSymbol)
        [.visit "p1", .create "093000", .visit "p1_hot_BTCUSDT_093000", .create "093000"] =
        some s ∧ s.Complete oneHotSymbol ∧
      s.created.map HotCreation.pid = ["p1", "p1_hot_BTCUSDT_093000"] ∧
      s.run.newPT.symbolsOf "p1_hot_BTCUSDT_093000" = [] ∧
      ¬ s.Exact (qpsOf ["BTCUSDT"] []) oneHotSymbol) ∧
    ∀ n, ∃ moves s, execute move (fun _ _ => True)
      (start (qpsOf ["BTCUSDT"] []) oneHotSymbol) moves = some s ∧ n ≤ moves.length := by
  constructor
  · have hrun : (execute move (fun _ _ => True) (start (qpsOf ["BTCUSDT"] []) oneHotSymbol)
        [.visit "p1", .create "093000", .visit "p1_hot_BTCUSDT_093000", .create "093000"]).any
        (fun s => decide (s.Complete oneHotSymbol ∧
          s.created.map HotCreation.pid = ["p1", "p1_hot_BTCUSDT_093000"] ∧
          s.run.newPT.symbolsOf "p1_hot_BTCUSDT_093000" = [] ∧
          "p1_hot_BTCUSDT_093000" ∈ s.run.newPT.partitions.keys ∧
          "p1_hot_BTCUSDT_093000" ∉ oneHotSymbol.partitions.keys)) = true := by
      decide +kernel
    obtain ⟨s, hs, htest⟩ := exists_of_any hrun
    obtain ⟨hcomplete, hcreated, hempty, hkey, hnew⟩ := of_decide_eq_true htest
    exact ⟨s, hs, hcomplete, hcreated, hempty, fun h => h.nonempty _ hkey hnew hempty⟩
  · have hstart : (start (qpsOf ["BTCUSDT"] []) oneHotSymbol).Facing "p1" "BTCUSDT" :=
      ⟨rfl, ⟨_, rfl, rfl⟩, by decide +kernel, nofun⟩
    exact hstart.unbounded

end SplitRun

end CexHertz
