import CexHertz.Model.OwnershipAudit
import CexHertz.Model.Partition
import Mathlib.Data.Finset.Basic

/-!
# The partition watcher

`watchPartitionChange`: each iteration registers, unregisters, subscribes and unsubscribes the
difference between the partition table and what it knows. The machines live in a heap, where
migrations go on between the iterations.
-/

namespace CexHertz

open List

/-- `GetSymbolsForWorker`; the watcher collects `mySymbols` in the same loops. -/
def PartitionTable.getSymbolsForWorker (pt : PartitionTable) (workerAddr : String) :
    Finset String :=
  (pt.partitions.entries.flatMap fun entry => entry.2.workers.flatMap fun worker =>
    if worker = workerAddr then entry.2.symbols else []).toFinset

/-- A registered machine is given by its address in `machines`.  `observed` is history: the table
of the last iteration. -/
structure Watcher where
  machines : List OwnershipSystem
  ownershipFSMs : AList fun _ : String => Nat
  watchedSymbols : Finset String
  lastSymbols : Option (Finset String)
  observed : Option PartitionTable

open Watcher

def newWatcher : Watcher := ⟨[], ∅, ∅, none, none⟩

/-- One turn of the loop: the sections that ran on machines since the last one, each with the
address, the table, and what the turn finds of clock and coordinators. -/
structure WatchRound where
  sections : List (Nat × OwnershipAction)
  table : PartitionTable
  now : String → Int
  defaultCoordinator : Option TransferCoordinator
  transferCoord : Option TransferCoordinator

namespace Watcher

variable (localAddr : String) (round : WatchRound)

def runSections (s : Watcher) (sections : List (Nat × OwnershipAction)) : Watcher :=
  { s with machines := sections.foldl (fun machines (addr, action) =>
      machines.modify addr fun m => (m.step action).getD m) s.machines }

def registerOwnershipFSM (s : Watcher) (pid : String) (m : OwnershipSystem) : Watcher :=
  let m := match round.transferCoord with
    | none => m
    | some coordinator => (m.step (.setTransferCoordinator (some coordinator))).getD m
  { s with
    machines := s.machines ++ [m]
    ownershipFSMs := s.ownershipFSMs.insert pid s.machines.length }

def registerOwned (s : Watcher) (entry : (_ : String) × Partition) : Watcher :=
  if localAddr ∈ entry.2.workers ∧ s.ownershipFSMs.lookup entry.1 = none then
    s.registerOwnershipFSM round entry.1 (newOwnershipSystem entry.1 localAddr entry.2.symbols
      (round.now entry.1) round.defaultCoordinator)
  else s

def currOwned (pt : PartitionTable) : Finset String :=
  ((pt.partitions.entries.filter fun entry => localAddr ∈ entry.2.workers).map Sigma.fst).toFinset

def unregister (owned : Finset String) (fsms : AList fun _ : String => Nat) :
    AList fun _ : String => Nat :=
  fsms.keys.foldl (fun fsms pid => if pid ∈ owned then fsms else fsms.erase pid) fsms

def iterate (s : Watcher) : Watcher :=
  let mySymbols := round.table.getSymbolsForWorker localAddr
  let registered := round.table.partitions.entries.foldl (registerOwned localAddr round) s
  let lastSymbols := s.lastSymbols.getD ∅
  { machines := registered.machines
    ownershipFSMs := unregister (currOwned localAddr round.table) registered.ownershipFSMs
    watchedSymbols := (s.watchedSymbols ∪ (mySymbols \ lastSymbols)) \ (lastSymbols \ mySymbols)
    lastSymbols := some mySymbols
    observed := some round.table }

def step (s : Watcher) (round : WatchRound) : Option Watcher :=
  some (iterate localAddr round (s.runSections round.sections))

end Watcher

def Watcher.Own (s : Watcher) : Prop :=
  ∀ pid, ∀ addr ∈ s.ownershipFSMs.lookup pid, ∃ m,
    s.machines[addr]? = some m ∧ m.fsm.metadata.partitionID = pid

/-- The partition lists this node among its workers. -/
def PartitionTable.Mine (pt : PartitionTable) (localAddr pid : String) : Prop :=
  ∃ p, pt.partitions.lookup pid = some p ∧ localAddr ∈ p.workers

structure Converged (localAddr : String) (pt : PartitionTable) (s : Watcher) : Prop where
  watched : ∀ symbol, symbol ∈ s.watchedSymbols ↔ ∃ pid p,
    pt.partitions.lookup pid = some p ∧ localAddr ∈ p.workers ∧ symbol ∈ p.symbols
  registered : ∀ pid, pid ∈ s.ownershipFSMs ↔ pt.Mine localAddr pid
  own : s.Own

/-! ## One iteration -/

section

variable {localAddr : String} {round : WatchRound} {s s' : Watcher} {pt : PartitionTable}

theorem mem_getSymbolsForWorker {symbol : String} :
    symbol ∈ pt.getSymbolsForWorker localAddr ↔ ∃ pid p,
      pt.partitions.lookup pid = some p ∧ localAddr ∈ p.workers ∧ symbol ∈ p.symbols := by
  unfold PartitionTable.getSymbolsForWorker
  simp only [mem_toFinset, mem_flatMap]
  constructor
  · rintro ⟨⟨pid, p⟩, hentry, worker, hworker, hsymbol⟩
    split at hsymbol
    next heq =>
      exact ⟨pid, p, mem_dlookup pt.partitions.nodupKeys hentry, heq ▸ hworker, hsymbol⟩
    next => cases hsymbol
  · rintro ⟨pid, p, hlookup, hworker, hsymbol⟩
    exact ⟨⟨pid, p⟩, of_mem_dlookup hlookup, localAddr, hworker, by rwa [if_pos rfl]⟩

theorem mem_currOwned {pid : String} : pid ∈ currOwned localAddr pt ↔ pt.Mine localAddr pid := by
  unfold currOwned PartitionTable.Mine
  simp only [mem_toFinset, mem_map, mem_filter, decide_eq_true_eq]
  constructor
  · rintro ⟨⟨pid, p⟩, ⟨hentry, hworker⟩, rfl⟩
    exact ⟨p, mem_dlookup pt.partitions.nodupKeys hentry, hworker⟩
  · rintro ⟨p, hlookup, hworker⟩
    exact ⟨⟨pid, p⟩, ⟨of_mem_dlookup hlookup, hworker⟩, rfl⟩

theorem lookup_unregister (owned : Finset String) (fsms : AList fun _ : String => Nat)
    (pid : String) :
    (unregister owned fsms).lookup pid = if pid ∈ owned then fsms.lookup pid else none := by
  have hfold : ∀ (keys : List String) (fsms : AList fun _ : String => Nat),
      (keys.foldl (fun fsms pid =>
      if pid ∈ owned then fsms else fsms.erase pid) fsms).lookup pid =
        if pid ∈ keys ∧ pid ∉ owned then none else fsms.lookup pid := by
    intro keys
    induction keys with
    | nil => simp
    | cons key keys ih =>
      intro fsms
      rw [foldl_cons, ih]
      by_cases hkey : key ∈ owned
      · rcases eq_or_ne pid key with rfl | hne
        · simp [hkey]
        · simp [hkey, hne]
      · rcases eq_or_ne pid key with rfl | hne
        · simp [hkey]
        · simp [hkey, hne, AList.lookup_erase_ne hne]
  unfold unregister
  rw [hfold]
  by_cases howned : pid ∈ owned
  · simp [howned]
  · by_cases hkey : pid ∈ fsms.keys
    · simp [howned, hkey]
    · simp [howned, hkey, AList.lookup_eq_none.mpr hkey]

structure Grown (s s' : Watcher) : Prop where
  machines : s.machines <+: s'.machines
  kept : ∀ pid, ∀ addr ∈ s.ownershipFSMs.lookup pid, s'.ownershipFSMs.lookup pid = some addr
  own : s.Own → s'.Own

theorem Grown.refl (s : Watcher) : Grown s s := ⟨prefix_refl _, fun _ _ => id, id⟩

theorem Grown.trans {s'' : Watcher} (h : Grown s s') (h' : Grown s' s'') : Grown s s'' :=
  ⟨h.machines.trans h'.machines, fun pid addr ha => h'.kept pid addr (h.kept pid addr ha),
    fun hown => h'.own (h.own hown)⟩

theorem grown_registerOwnershipFSM {pid : String} (hnone : s.ownershipFSMs.lookup pid = none)
    {m : OwnershipSystem} (hm : m.fsm.metadata.partitionID = pid) :
    Grown s (s.registerOwnershipFSM round pid m) := by
  have hmade : ∃ m', (s.registerOwnershipFSM round pid m).machines = s.machines ++ [m'] ∧
      m'.fsm.metadata.partitionID = pid := by
    unfold registerOwnershipFSM
    cases round.transferCoord with
    | none | some => exact ⟨_, rfl, hm⟩
  obtain ⟨m', hmachines, hm'⟩ := hmade
  have hother : ∀ {pid'}, pid' ≠ pid →
      (s.registerOwnershipFSM round pid m).ownershipFSMs.lookup pid' =
        s.ownershipFSMs.lookup pid' := fun hne => AList.lookup_insert_ne hne
  refine ⟨hmachines ▸ prefix_append _ _, fun pid' addr haddr => ?_, fun hown pid' addr haddr => ?_⟩
  · refine (hother ?_).trans haddr
    rintro rfl
    rw [hnone] at haddr
    cases haddr
  · rw [hmachines]
    rcases eq_or_ne pid' pid with rfl | hne
    · have haddr : some s.machines.length = some addr := (AList.lookup_insert _).symm.trans haddr
      cases haddr
      exact ⟨m', List.getElem?_concat_length, hm'⟩
    · rw [hother hne] at haddr
      obtain ⟨m₀, hm₀, hid⟩ := hown pid' addr haddr
      exact ⟨m₀, List.getElem?_append_left (List.getElem?_eq_some_iff.mp hm₀).1 ▸ hm₀, hid⟩

theorem registered_fold (entries : List ((_ : String) × Partition)) (s : Watcher) :
    Grown s (entries.foldl (registerOwned localAddr round) s) ∧
    ∀ pid, pid ∈ (entries.foldl (registerOwned localAddr round) s).ownershipFSMs ↔
      pid ∈ s.ownershipFSMs ∨ ∃ entry ∈ entries, entry.1 = pid ∧ localAddr ∈ entry.2.workers := by
  induction entries generalizing s with
  | nil => exact ⟨.refl s, by simp⟩
  | cons entry entries ih =>
    rw [foldl_cons]
    obtain ⟨hgrown, hmem⟩ := ih (registerOwned localAddr round s entry)
    have hentry : Grown s (registerOwned localAddr round s entry) ∧
        ∀ pid, pid ∈ (registerOwned localAddr round s entry).ownershipFSMs ↔
          pid ∈ s.ownershipFSMs ∨ pid = entry.1 ∧ localAddr ∈ entry.2.workers := by
      unfold registerOwned
      split
      next hnew =>
        refine ⟨grown_registerOwnershipFSM hnew.2 rfl, fun pid => ?_⟩
        show pid ∈ s.ownershipFSMs.insert entry.1 _ ↔ _
        rw [AList.mem_insert, or_comm, and_iff_left hnew.1]
      next hnot =>
        refine ⟨.refl s, fun pid => ⟨.inl, fun h => h.elim id ?_⟩⟩
        rintro ⟨rfl, hworker⟩
        by_contra hmem
        exact hnot ⟨hworker, AList.lookup_eq_none.mpr hmem⟩
    refine ⟨hentry.1.trans hgrown, fun pid => ?_⟩
    rw [hmem, hentry.2]
    simp [or_assoc, eq_comm]

/-! ## Migrations between the iterations -/

theorem step_partitionID {m m' : OwnershipSystem} {action : OwnershipAction}
    (h : m.step action = some m') : m'.fsm.metadata.partitionID = m.fsm.metadata.partitionID := by
  have hmove := OwnershipSystem.step_move h
  generalize m'.fsm = fsm' at hmove ⊢
  cases hmove with
  | @transition call _ =>
    rcases transition_eq_or_edge m call.opens call.toState call.reason call.actor call.input with
      heq | ⟨mid, hedge, heq⟩
    · rw [heq]
    · obtain ⟨_, _, _, _, _, hmid⟩ := hedge.metadata
      rw [heq]
      show mid.metadata.partitionID = _
      rw [hmid]
  | progress _ hprogress =>
    cases hprogress
    rfl
  | targetOwner | migrationTimeout | transferCoordinator => rfl

theorem own_runSections (sections : List (Nat × OwnershipAction)) (h : s.Own) :
    (s.runSections sections).Own := by
  induction sections generalizing s with
  | nil => exact h
  | cons run sections ih =>
    refine @ih (s.runSections [run]) fun pid addr haddr => ?_
    obtain ⟨m, hm, hid⟩ := h pid addr haddr
    show ∃ m, (s.machines.modify run.1 _)[addr]? = some m ∧ _
    rw [List.getElem?_modify, hm]
    refine ⟨_, rfl, ?_⟩
    split
    next =>
      show ((m.step run.2).getD m).fsm.metadata.partitionID = pid
      cases hstep : m.step run.2 with
      | none => exact hid
      | some m' => exact (step_partitionID hstep).trans hid
    next => exact hid

end

/-! ## Runs -/

section

variable {localAddr : String} {round : WatchRound} {s : Watcher}

structure WatcherOk (localAddr : String) (s : Watcher) : Prop where
  watched : s.watchedSymbols = s.lastSymbols.getD ∅
  own : s.Own
  converged : ∀ pt ∈ s.observed, ∀ pid, pid ∈ s.ownershipFSMs ↔ pt.Mine localAddr pid

/-- After the iteration a machine is registered exactly for the partitions of this node, and one
that was registered before is where and what it was. -/
theorem iterate_registry (hown : s.Own) :
    (∀ pid, pid ∈ (s.iterate localAddr round).ownershipFSMs ↔ round.table.Mine localAddr pid) ∧
    (s.iterate localAddr round).Own ∧
    ∀ pid, round.table.Mine localAddr pid → ∀ addr ∈ s.ownershipFSMs.lookup pid,
      (s.iterate localAddr round).ownershipFSMs.lookup pid = some addr ∧
      (s.iterate localAddr round).machines[addr]? = s.machines[addr]? := by
  obtain ⟨hgrown, hmem⟩ := @registered_fold localAddr round round.table.partitions.entries s
  have hlookup : ∀ pid, (s.iterate localAddr round).ownershipFSMs.lookup pid =
      if pid ∈ currOwned localAddr round.table then _ else none := lookup_unregister _ _
  refine ⟨fun pid => ?_, fun pid addr haddr => ?_, fun pid hmine addr haddr => ?_⟩
  · rw [← AList.lookup_isSome, hlookup]
    split
    next hmine =>
      obtain ⟨p, hp, hworker⟩ := mem_currOwned.mp hmine
      rw [AList.lookup_isSome, hmem]
      exact iff_of_true (.inr ⟨⟨pid, p⟩, of_mem_dlookup hp, rfl, hworker⟩) ⟨p, hp, hworker⟩
    next hnot => exact iff_of_false nofun fun hmine => hnot (mem_currOwned.mpr hmine)
  · rw [hlookup] at haddr
    split at haddr
    · exact hgrown.own hown pid addr haddr
    · cases haddr
  · obtain ⟨m, hm, -⟩ := hown pid addr haddr
    rw [hlookup, if_pos (mem_currOwned.mpr hmine)]
    refine ⟨hgrown.kept pid addr haddr, ?_⟩
    obtain ⟨rest, hrest⟩ := hgrown.machines
    exact hrest ▸ List.getElem?_append_left (List.getElem?_eq_some_iff.mp hm).1

theorem iterate_watched (h : s.watchedSymbols = s.lastSymbols.getD ∅) :
    (s.iterate localAddr round).watchedSymbols = round.table.getSymbolsForWorker localAddr := by
  unfold Watcher.iterate
  rw [h]
  ext symbol
  simp only [Finset.mem_sdiff, Finset.mem_union]
  tauto

theorem watcherOk_of_reaches
    (hrun : Run.Reaches (step localAddr) (fun _ _ => True) newWatcher s) :
    WatcherOk localAddr s := by
  refine hrun.invariant ⟨rfl, nofun, nofun⟩ fun s round s' h _ hstep => ?_
  cases hstep
  obtain ⟨hregistered, hown, -⟩ := iterate_registry (own_runSections round.sections h.own)
  refine ⟨iterate_watched h.watched, hown, fun pt hpt => ?_⟩
  cases hpt
  exact hregistered

end

/-- Whatever tables the watcher sees and whatever migrations do in between: one iteration makes
watched symbols and registered machines those of the table, and a machine whose partition stays is
the same one, in the state its migration had reached. -/
theorem watcher_converges (localAddr : String) (s s' : Watcher) (round : WatchRound)
    (hrun : Run.Reaches (step localAddr) (fun _ _ => True) newWatcher s)
    (hstep : s.step localAddr round = some s') :
    Converged localAddr round.table s' ∧
    ∀ prev ∈ s.observed, ∀ pid, prev.Mine localAddr pid → round.table.Mine localAddr pid →
      ∃ addr m, s.ownershipFSMs.lookup pid = some addr ∧ s'.ownershipFSMs.lookup pid = some addr ∧
        (s.runSections round.sections).machines[addr]? = some m ∧
        s'.machines[addr]? = some m := by
  have h := watcherOk_of_reaches hrun
  have hown := own_runSections round.sections h.own
  cases hstep
  obtain ⟨hregistered, hown', hkept⟩ := iterate_registry hown
  refine ⟨⟨fun symbol => ?_, hregistered, hown'⟩, fun prev hprev pid hmine hstays => ?_⟩
  · have hwatched : (s.runSections round.sections).watchedSymbols = _ := h.watched
    rw [iterate_watched hwatched]
    exact mem_getSymbolsForWorker
  · obtain ⟨addr, haddr⟩ := Option.isSome_iff_exists.mp
      (AList.lookup_isSome.mpr ((h.converged prev hprev pid).mpr hmine))
    obtain ⟨m, hm, -⟩ := hown pid addr haddr
    obtain ⟨hsame, hmachine⟩ := hkept pid hstays addr haddr
    exact ⟨addr, m, haddr, hsame, hm, hmachine.trans hm⟩

/-- A migration is begun between two iterations, the second of which finds the partition with one
more symbol. -/
def migratingRounds : List WatchRound :=
  [⟨[], ⟨fun _ => [], AList.singleton "p" ⟨"p", ["BTC"], ["A"]⟩⟩, fun _ => 0, none, none⟩,
   ⟨[(0, .beginStartMigration "B" "admin"), (0, .finish 0 quietInput)],
    ⟨fun _ => [], AList.singleton "p" ⟨"p", ["BTC", "ETH"], ["C", "A"]⟩⟩, fun _ => 0, none, none⟩]

theorem watcher_keeps_migration : ∃ s s', Run.Reaches (step "A") (fun _ _ => True) newWatcher s ∧
      s.step "A" migratingRounds[1] = some s' ∧ s'.watchedSymbols = {"BTC", "ETH"} ∧
      s'.machines.map (·.fsm.metadata.state) = [.migrationPending] ∧
      Converged "A" migratingRounds[1].table s' := by
  refine Run.exists_reaches_step [migratingRounds[0]] migratingRounds[1]
    (P := fun _ s' => s'.watchedSymbols = {"BTC", "ETH"} ∧
      s'.machines.map (·.fsm.metadata.state) = [.migrationPending])
    (by decide +kernel) fun s s' hreach hstep ⟨hwatched, hstate⟩ => ?_
  exact ⟨hstep, hwatched, hstate, (watcher_converges "A" s s' _ hreach hstep).1⟩

end CexHertz
