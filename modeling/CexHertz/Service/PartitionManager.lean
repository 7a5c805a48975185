import CexHertz.Service.NodeRegistry
import CexHertz.Service.PartitionAutoScaler

/-!
# Writing the partition table back

`partition_manager.go`. Every node keeps a copy of the table in Consul. A change is computed from
the copy, put in its place, marshalled and written without looking at what is stored. Nothing is
lost as long as a change starts from the stored table, alone, and the watcher does not replace the
copy before it is marshalled.
-/

namespace CexHertz

open List Function Run

/-! ## A call of scaleIfNeeded as a change of the table -/

/-- What decides the course of a call: the loads, the turns of the loop over the partitions, the
order of the loads and the last clock reading. -/
structure ScaleChoices where
  getSymbolQPS : String → Int
  moves : List ScaleAction
  order : List String
  clock : String

def ScaleRun.move (run : ScaleRun) : ScaleAction → Option ScaleRun
  | .visit pid => run.visit pid
  | .create clock => run.create clock
  | _ => none

/-- The table a call computes and whether it is to be stored; `none` if the choices do not describe
a course of the call on this table. -/
def scaleIfNeeded (pt : PartitionTable) (choices : ScaleChoices) : Option (PartitionTable × Bool) :=
  let start := AutoScaler.start ⟨pt, none⟩ choices.getSymbolQPS
  match execute ScaleRun.move (fun _ _ => True) start choices.moves with
  | none => none
  | some run =>
    if run.hotSymbols = [] ∧ (∀ pid ∈ pt.partitions.keys, pid ∈ run.visited) ∧
        choices.order.Perm run.symbolLoad.keys then
      let (newPT, needUpdateCold) :=
        mergeColdSymbols run.newPT choices.order run.symbolLoad mockWorkerLoadProvider
          choices.clock
      some (newPT, run.needUpdateHot || needUpdateCold)
    else none

/-! ## Changes under way -/

inductive TableUpdate where
  /-- An operator's `UpdatePartitionTable`. -/
  | operator (change : PartitionTable → PartitionTable)
  | autoscale (choices : ScaleChoices)

def TableUpdate.compute : TableUpdate → PartitionTable → Option (PartitionTable × Bool)
  | .operator change, pt => some (change pt, true)
  | .autoscale choices, pt => scaleIfNeeded pt choices

def TableUpdate.applyTo (update : TableUpdate) (pt : PartitionTable) : Option PartitionTable :=
  (update.compute pt).map fun result => if result.2 then result.1 else pt

def applyAll (pt : PartitionTable) (updates : List TableUpdate) : Option PartitionTable :=
  updates.foldlM (fun pt update => update.applyTo pt) pt

theorem applyAll_append {pt pt' : PartitionTable} {updates : List TableUpdate}
    (h : applyAll pt updates = some pt') (update : TableUpdate) :
    applyAll pt (updates ++ [update]) = update.applyTo pt' := by
  unfold applyAll at h ⊢
  rw [foldlM_append, h]
  show (update.applyTo pt').bind some = _
  exact Option.bind_fun_some _

/-- Where a change is: the table was obtained, its successor is in the cache, the cache was
marshalled, or the call has returned, `true` if without an error. -/
inductive UpdatePhase where
  | obtained (pt : PartitionTable)
  | cached
  | marshalled (data : PartitionTable)
  | unneeded
  | returned (confirmed : Bool)

def UpdatePhase.active : UpdatePhase → Prop
  | .obtained _ | .cached | .marshalled _ => True
  | _ => False

structure UpdateCall (ι : Type) where
  node : ι
  update : TableUpdate
  phase : UpdatePhase

variable {ι : Type} [DecidableEq ι]

/-- `fetched` is what a watcher, or `LoadFromConsul`, has read and not put into the cache yet.
`applied` is history: the calls in the order in which their writes took effect. -/
structure PartitionManagers (ι : Type) where
  stored : Option PartitionTable
  cache : ι → PartitionTable
  fetched : ι → Option PartitionTable
  calls : List (UpdateCall ι)
  applied : List (Nat × TableUpdate)

open PartitionManagers

def newPartitionTable : PartitionTable := ⟨fun _ => [], ∅⟩

def PartitionManagers.current (s : PartitionManagers ι) : PartitionTable :=
  s.stored.getD newPartitionTable

def partitionManagers (stored : Option PartitionTable) (cache : ι → PartitionTable) :
    PartitionManagers ι := ⟨stored, cache, fun _ => none, [], []⟩

inductive ManagerAction (ι : Type) where
  | fetch (i : ι)
  | refresh (i : ι)
  | obtain (i : ι) (update : TableUpdate)
  | setCache (call : Nat)
  | marshal (call : Nat)
  | put (call : Nat) (result : CallResult)

namespace PartitionManagers

variable (s : PartitionManagers ι)

def setPhase (k : Nat) (call : UpdateCall ι) (phase : UpdatePhase) : PartitionManagers ι :=
  { s with calls := s.calls.set k { call with phase := phase } }

def write (k : Nat) (call : UpdateCall ι) (data : PartitionTable) : PartitionManagers ι :=
  { s with stored := some data, applied := s.applied ++ [(k, call.update)] }

def advance (k : Nat) (call : UpdateCall ι) : ManagerAction ι → Option (PartitionManagers ι)
  | .setCache _ =>
    match call.phase with
    | .obtained pt =>
      match call.update.compute pt with
      | none => none
      | some (_, false) => some (s.setPhase k call .unneeded)
      | some (newPT, true) =>
        some ({ s with cache := update s.cache call.node newPT }.setPhase
          k call .cached)
    | _ => none
  | .marshal _ =>
    match call.phase with
    | .cached => some (s.setPhase k call (.marshalled (s.cache call.node)))
    | _ => none
  | .put _ result =>
    match call.phase, result with
    | .marshalled data, .ok => some ((s.write k call data).setPhase k call (.returned true))
    | .marshalled data, .failed true =>
      some ((s.write k call data).setPhase k call (.returned false))
    | .marshalled _, .failed false => some (s.setPhase k call (.returned false))
    | _, _ => none
  | _ => none

def step (action : ManagerAction ι) : Option (PartitionManagers ι) :=
  match action with
  | .fetch i =>
    match s.stored with
    | none => some s
    | some pt => some { s with fetched := update s.fetched i (some pt) }
  | .refresh i =>
    match s.fetched i with
    | none => none
    | some pt =>
      some { s with
        cache := update s.cache i pt
        fetched := update s.fetched i none }
  | .obtain i update => some { s with calls := s.calls ++ [⟨i, update, .obtained (s.cache i)⟩] }
  | .setCache k | .marshal k | .put k _ =>
    match s.calls[k]? with
    | none => none
    | some call => s.advance k call action

/-- Every confirmed change is in the stored table: it is what the confirmed changes make of the
first table, one after the other in some order, with those whose write took effect although the call
returned an error. -/
def Serialized (t₀ : PartitionTable) : Prop :=
  ∃ order : List (Nat × TableUpdate), (order.map Prod.fst).Nodup ∧
    (∀ k call, s.calls[k]? = some call → call.phase = .returned true → (k, call.update) ∈ order) ∧
    (∀ p ∈ order, ∃ call, s.calls[p.1]? = some call ∧ call.update = p.2 ∧
      ∃ confirmed, call.phase = .returned confirmed) ∧
    applyAll t₀ (order.map Prod.snd) = some s.current

/-- A change starts from the table that is stored and while no other is under way, and no watcher
replaces a cache that is about to be marshalled. -/
def Alone : ManagerAction ι → Prop
  | .obtain i _ => s.cache i = s.current ∧ ∀ call ∈ s.calls, ¬ call.phase.active
  | .refresh i => ∀ call ∈ s.calls, call.node = i → call.phase ≠ .cached
  | _ => True

end PartitionManagers

/-! ## The changes in the order of their writes -/

def CallHolds (s : PartitionManagers ι) (call : UpdateCall ι) : Prop :=
  match call.phase with
  | .obtained pt => pt = s.current
  | .cached => call.update.compute s.current = some (s.cache call.node, true)
  | .marshalled data => call.update.compute s.current = some (data, true)
  | _ => True

structure ManagersOk (t₀ : PartitionTable) (s : PartitionManagers ι) : Prop where
  applied : applyAll t₀ (s.applied.map Prod.snd) = some s.current
  nodup : (s.applied.map Prod.fst).Nodup
  confirmed : ∀ k call, s.calls[k]? = some call → call.phase = .returned true →
    (k, call.update) ∈ s.applied
  attempted : ∀ p ∈ s.applied, ∃ call, s.calls[p.1]? = some call ∧ call.update = p.2 ∧
    ∃ confirmed, call.phase = .returned confirmed
  alone : ∀ (k k' : Nat) (call call' : UpdateCall ι), s.calls[k]? = some call →
    s.calls[k']? = some call' → call.phase.active → call'.phase.active → k = k'
  holds : ∀ (k : Nat) (call : UpdateCall ι), s.calls[k]? = some call → CallHolds s call

omit [DecidableEq ι] in
-- A call that is not in progress holds nothing.
theorem callHolds_of_inactive {s : PartitionManagers ι} {call : UpdateCall ι}
    (h : ¬ call.phase.active) : CallHolds s call := by
  unfold CallHolds
  cases hphase : call.phase with
  | obtained | cached | marshalled => exact absurd (hphase ▸ trivial) h
  | unneeded | returned => trivial

namespace ManagersOk

variable {t₀ : PartitionTable} {s : PartitionManagers ι}

omit [DecidableEq ι] in
theorem new (stored : Option PartitionTable) (cache : ι → PartitionTable) :
    ManagersOk (stored.getD newPartitionTable) (partitionManagers stored cache) where
  applied := rfl
  nodup := nodup_nil
  confirmed := fun _ _ hk => by cases hk
  attempted := fun _ hp => by cases hp
  alone := fun _ _ _ _ hk => by cases hk
  holds := fun _ _ hk => by cases hk

variable (h : ManagersOk t₀ s)

include h

omit [DecidableEq ι] in
theorem moveOn {k : Nat} {call : UpdateCall ι}
    (hk : s.calls[k]? = some call) (hactive : call.phase.active) {phase : UpdatePhase}
    (hphase : ∀ confirmed, phase = .returned confirmed → confirmed = false)
    (cache : ι → PartitionTable)
    (hholds : CallHolds { s with cache := cache } { call with phase := phase }) :
    ManagersOk t₀ ({ s with cache := cache }.setPhase k call phase) where
  applied := h.applied
  nodup := h.nodup
  confirmed := by
    intro j other hj hother
    rcases getElem?_set_cases hj with ⟨rfl, rfl⟩ | ⟨-, hold⟩
    · cases hphase true hother
    · exact h.confirmed j other hold hother
  attempted := by
    intro p hp
    obtain ⟨other, hother, hupdate, confirmed, hreturned⟩ := h.attempted p hp
    have hne : k ≠ p.1 := by
      intro heq
      rw [← heq, hk] at hother
      cases hother
      rwa [hreturned] at hactive
    exact ⟨other, (List.getElem?_set_ne hne).trans hother, hupdate, confirmed, hreturned⟩
  alone := by
    -- only the call that goes on can be active
    have honly : ∀ (j : Nat) (other : UpdateCall ι),
        ({ s with cache := cache }.setPhase k call phase).calls[j]? = some other →
          other.phase.active → j = k := by
      intro j other hj hother
      rcases getElem?_set_cases hj with ⟨rfl, -⟩ | ⟨-, hold⟩
      · rfl
      · exact h.alone j k other call hold hk hother hactive
    intro j j' other other' hj hj' hother hother'
    rw [honly j other hj hother, honly j' other' hj' hother']
  holds := by
    intro j other hj
    rcases getElem?_set_cases hj with ⟨rfl, rfl⟩ | ⟨hne, hold⟩
    · exact hholds
    · apply callHolds_of_inactive
      exact fun hother => hne (h.alone j k other call hold hk hother hactive)

omit [DecidableEq ι] in
theorem write {k : Nat} {call : UpdateCall ι} {data : PartitionTable}
    (hk : s.calls[k]? = some call) (hphase : call.phase = .marshalled data) (confirmed : Bool) :
    ManagersOk t₀ ((s.write k call data).setPhase k call (.returned confirmed)) := by
  have hactive : call.phase.active := hphase ▸ trivial
  have hcompute : call.update.compute s.current = some (data, true) := by
    have hholds := h.holds k call hk
    unfold CallHolds at hholds
    rwa [hphase] at hholds
  have hnew : k ∉ s.applied.map Prod.fst := by
    intro hmem
    obtain ⟨p, hp, rfl⟩ := mem_map.mp hmem
    obtain ⟨other, hother, -, c, hreturned⟩ := h.attempted p hp
    rw [hk] at hother
    cases hother
    rw [hphase] at hreturned
    cases hreturned
  have hself : ((s.write k call data).setPhase k call (.returned confirmed)).calls[k]? =
      some { call with phase := .returned confirmed } := getElem?_set_self hk _
  -- the others have returned
  have hothers : ∀ (j : Nat) (other : UpdateCall ι),
      ((s.write k call data).setPhase k call (.returned confirmed)).calls[j]? = some other →
        ¬ other.phase.active := by
    intro j other hj hother
    rcases getElem?_set_cases hj with ⟨rfl, rfl⟩ | ⟨hne, hold⟩
    · exact hother
    · exact hne (h.alone j k other call hold hk hother hactive)
  refine ⟨?_, ?_, ?_, ?_, ?_, ?_⟩
  · show applyAll t₀ ((s.applied ++ [(k, call.update)]).map Prod.snd) = some data
    rw [map_append, map_singleton, applyAll_append h.applied, TableUpdate.applyTo, hcompute]
    rfl
  · show ((s.applied ++ [(k, call.update)]).map Prod.fst).Nodup
    rw [map_append, map_singleton, nodup_append]
    refine ⟨h.nodup, nodup_singleton _, fun a ha b hb hab => ?_⟩
    rw [hab, mem_singleton.mp hb] at ha
    exact hnew ha
  · intro j other hj hother
    rcases getElem?_set_cases hj with ⟨rfl, rfl⟩ | ⟨-, hold⟩
    · exact mem_append_right _ mem_cons_self
    · exact mem_append_left _ (h.confirmed j other hold hother)
  · refine forall_mem_concat (fun p hp => ?_) ⟨_, hself, rfl, confirmed, rfl⟩
    obtain ⟨other, hother, hupdate, c, hreturned⟩ := h.attempted p hp
    have hne : k ≠ p.1 := fun heq => hnew (heq ▸ mem_map_of_mem hp)
    exact ⟨other, (List.getElem?_set_ne hne).trans hother, hupdate, c, hreturned⟩
  · intro j j' other other' hj _ hother
    exact absurd hother (hothers j other hj)
  · intro j other hj
    exact callHolds_of_inactive (hothers j other hj)

omit [DecidableEq ι] in
theorem obtain {i : ι} (hcache : s.cache i = s.current)
    (hidle : ∀ call ∈ s.calls, ¬ call.phase.active) (update : TableUpdate) :
    ManagersOk t₀ { s with calls := s.calls ++ [⟨i, update, .obtained (s.cache i)⟩] } := by
  have hinactive : ∀ (j : Nat) (other : UpdateCall ι), s.calls[j]? = some other →
      ¬ other.phase.active := fun j other hj => hidle other (mem_of_getElem? hj)
  refine ⟨h.applied, h.nodup, fun j other hj hother => ?_, fun p hp => ?_,
    fun j j' other other' hj hj' hother hother' => ?_, fun j other hj => ?_⟩
  · rcases getElem?_concat_cases hj with hj | ⟨-, rfl⟩
    · exact h.confirmed j other hj hother
    · cases hother
  · obtain ⟨other, hother, hrest⟩ := h.attempted p hp
    obtain ⟨hlt, -⟩ := List.getElem?_eq_some_iff.mp hother
    exact ⟨other, (List.getElem?_append_left hlt).trans hother, hrest⟩
  · rcases getElem?_concat_cases hj with hj | ⟨hj, -⟩
    · exact absurd hother (hinactive j other hj)
    · rcases getElem?_concat_cases hj' with hj' | ⟨hj', -⟩
      · exact absurd hother' (hinactive j' other' hj')
      · rw [hj, hj']
  · rcases getElem?_concat_cases hj with hj | ⟨-, rfl⟩
    · exact callHolds_of_inactive (hinactive j other hj)
    · exact hcache

theorem refresh {i : ι}
    (hidle : ∀ call ∈ s.calls, call.node = i → call.phase ≠ .cached) (pt : PartitionTable)
    (fetched : ι → Option PartitionTable) :
    ManagersOk t₀ { s with cache := update s.cache i pt, fetched := fetched } := by
  refine ⟨h.applied, h.nodup, h.confirmed, h.attempted, h.alone, fun j other hj => ?_⟩
  have hother := h.holds j other hj
  unfold CallHolds at hother ⊢
  cases hphase : other.phase with
  | obtained => rwa [hphase] at hother
  | cached =>
    rw [hphase] at hother
    have hne : other.node ≠ i := fun heq =>
      hidle other (mem_of_getElem? hj) heq hphase
    show other.update.compute s.current = some (update s.cache i pt other.node, true)
    rwa [update_of_ne hne]
  | marshalled => rwa [hphase] at hother
  | unneeded | returned => trivial

theorem advance {k : Nat} {call : UpdateCall ι} {action : ManagerAction ι}
    {s' : PartitionManagers ι} (hk : s.calls[k]? = some call)
    (hstep : s.advance k call action = some s') : ManagersOk t₀ s' := by
  have hholds := h.holds k call hk
  unfold CallHolds at hholds
  cases action with
  | setCache =>
    dsimp only [PartitionManagers.advance] at hstep
    split at hstep
    next pt hphase =>
      rw [hphase] at hholds
      have hactive : call.phase.active := hphase ▸ trivial
      split at hstep
      next => cases hstep
      next =>
        cases hstep
        exact h.moveOn hk hactive (fun _ heq => by cases heq) s.cache trivial
      next newPT hcompute =>
        cases hstep
        refine h.moveOn hk hactive (fun _ heq => by cases heq) _ ?_
        show call.update.compute s.current = some (update s.cache call.node newPT call.node, true)
        rwa [update_self, ← hholds]
    next => cases hstep
  | marshal =>
    dsimp only [PartitionManagers.advance] at hstep
    split at hstep
    next hphase =>
      rw [hphase] at hholds
      cases hstep
      exact h.moveOn hk (hphase ▸ trivial) (fun _ heq => by cases heq) s.cache hholds
    next => cases hstep
  | put _ result =>
    dsimp only [PartitionManagers.advance] at hstep
    split at hstep
    next data hphase =>
      cases hstep
      exact h.write hk hphase true
    next data hphase =>
      cases hstep
      exact h.write hk hphase false
    next data hphase =>
      cases hstep
      exact h.moveOn hk (hphase ▸ trivial) (fun _ heq => by cases heq; rfl) s.cache trivial
    next => cases hstep
  | fetch | refresh | obtain => cases hstep

theorem step {action : ManagerAction ι} {s' : PartitionManagers ι}
    (hallowed : s.Alone action) (hstep : s.step action = some s') : ManagersOk t₀ s' := by
  have hcall : ∀ k, (match s.calls[k]? with
      | none => none
      | some call => s.advance k call action) = some s' → ManagersOk t₀ s' := by
    intro k hk
    cases hcall : s.calls[k]? with
    | none => simp [hcall] at hk
    | some call =>
      rw [hcall] at hk
      exact h.advance hcall hk
  cases action with
  | fetch i =>
    dsimp only [PartitionManagers.step] at hstep
    split at hstep
    · cases hstep
      exact h
    · cases hstep
      exact ⟨h.applied, h.nodup, h.confirmed, h.attempted, h.alone, h.holds⟩
  | refresh i =>
    dsimp only [PartitionManagers.step] at hstep
    split at hstep
    next => cases hstep
    next pt _ =>
      cases hstep
      exact h.refresh hallowed pt _
  | obtain i update =>
    cases hstep
    exact h.obtain hallowed.1 hallowed.2 update
  | setCache k | marshal k | put k result => exact hcall k hstep

end ManagersOk

/-- In every run in which changes start from the stored table, one at a time, and no watcher comes
between a cache and its marshalling, no confirmed change is lost. -/
theorem table_updates_not_lost {stored : Option PartitionTable} {cache : ι → PartitionTable}
    {s : PartitionManagers ι}
    (hrun : Run.Reaches step PartitionManagers.Alone
      (partitionManagers stored cache) s) :
    s.Serialized (stored.getD newPartitionTable) := by
  have hok : ManagersOk (stored.getD newPartitionTable) s :=
    hrun.invariant (ManagersOk.new stored cache) fun _ _ _ hs hallowed hstep =>
      hs.step hallowed hstep
  exact ⟨s.applied, hok.nodup, hok.confirmed, hok.attempted, hok.applied⟩

/-! ## Two operators -/

def addPartition (p : Partition) : TableUpdate :=
  .operator fun pt => pt.putPartition p.partitionID p

-- Whatever is added in whatever order, nothing that is there goes away.
theorem lookup_of_addPartitions {updates : List TableUpdate} {pt pt' : PartitionTable}
    (hadd : ∀ update ∈ updates, ∃ p, update = addPartition p)
    (h : applyAll pt updates = some pt') {pid : String}
    (hpid : (pt.partitions.lookup pid).isSome ∨
      ∃ p, addPartition p ∈ updates ∧ p.partitionID = pid) :
    (pt'.partitions.lookup pid).isSome := by
  induction updates generalizing pt with
  | nil =>
    cases h
    rcases hpid with hpid | ⟨p, hp, -⟩
    · exact hpid
    · cases hp
  | cons update rest ih =>
    obtain ⟨p, rfl⟩ := hadd update mem_cons_self
    have hkept : ∀ q : Partition, (pt.partitions.lookup pid).isSome ∨ q.partitionID = pid →
        (((pt.putPartition q.partitionID q).partitions.lookup pid)).isSome := by
      intro q hq
      show ((pt.partitions.insert q.partitionID q).lookup pid).isSome
      rcases eq_or_ne pid q.partitionID with rfl | hne
      · rw [AList.lookup_insert]
        rfl
      · rw [AList.lookup_insert_ne hne]
        exact hq.resolve_right (Ne.symm hne)
    apply ih (fun update hmem => hadd update (.tail _ hmem)) h
    rcases hpid with hpid | ⟨q, hq, hid⟩
    · exact .inl (hkept p (.inl hpid))
    · rcases mem_cons.mp hq with heq | hq
      · -- the partition is added by this change
        have hput := congrFun (TableUpdate.operator.inj heq) pt
        have := hkept q (.inr hid)
        rw [hput] at this
        exact .inl this
      · exact .inr ⟨q, hq, hid⟩

def btcPartition : Partition := ⟨"btc", ["BTC"], ["worker1"]⟩

def ethPartition : Partition := ⟨"eth", ["ETH"], ["worker2"]⟩

def twoManagers : PartitionManagers Bool := partitionManagers none fun _ => newPartitionTable

def addBothAtOnce : List (ManagerAction Bool) :=
  [.obtain false (addPartition btcPartition), .obtain true (addPartition ethPartition),
    .setCache 0, .setCache 1, .marshal 0, .marshal 1, .put 0 .ok, .put 1 .ok]

/-- Two nodes add a partition each, both are told that it is stored, and one is gone. -/
theorem confirmed_partition_disappears : ∃ s, Run.Reaches step (fun _ _ => True) twoManagers s ∧
      s.calls.map (·.update) = [addPartition btcPartition, addPartition ethPartition] ∧
      (∀ call ∈ s.calls, call.phase = .returned true) ∧
      s.current.partitions.lookup "btc" = none ∧ ¬ s.Serialized newPartitionTable := by
  obtain ⟨s, hrun, hcalls, hlookup⟩ : ∃ s,
      execute step (fun _ _ => True) twoManagers addBothAtOnce = some s ∧
      s.calls = [⟨false, addPartition btcPartition, .returned true⟩,
        ⟨true, addPartition ethPartition, .returned true⟩] ∧
      s.current.partitions.lookup "btc" = none := ⟨_, rfl, rfl, by decide⟩
  refine ⟨s, reaches_of_execute hrun, by rw [hcalls]; rfl, ?_, hlookup, ?_⟩
  · rw [hcalls]
    simp
  · rintro ⟨order, -, hconfirmed, horder, happly⟩
    have hbtc : (0, addPartition btcPartition) ∈ order :=
      hconfirmed 0 _ (by rw [hcalls]; rfl) rfl
    have hadd : ∀ update ∈ order.map Prod.snd, ∃ p, update = addPartition p := by
      intro update hupdate
      obtain ⟨p, hp, rfl⟩ := mem_map.mp hupdate
      obtain ⟨call, hcall, hupdate, -⟩ := horder p hp
      have hmem := mem_of_getElem? hcall
      rw [hcalls] at hmem
      rw [← hupdate]
      rcases mem_pair.mp hmem with rfl | rfl
      · exact ⟨btcPartition, rfl⟩
      · exact ⟨ethPartition, rfl⟩
    have hthere : (s.current.partitions.lookup "btc").isSome :=
      lookup_of_addPartitions hadd happly (.inr ⟨btcPartition, mem_map_of_mem hbtc, rfl⟩)
    rw [hlookup] at hthere
    cases hthere

/-- The second node fetches the table before it changes it. -/
theorem partitions_added_in_turn : ∃ s, Run.Reaches step PartitionManagers.Alone twoManagers s ∧
      s.current.partitions.keys = ["eth", "btc"] ∧ s.Serialized newPartitionTable := by
  have hidle : ∀ call ∈ [(⟨false, addPartition btcPartition, .returned true⟩ : UpdateCall Bool)],
      ¬ call.phase.active := by
    intro call hcall
    rw [mem_singleton.mp hcall]
    exact id
  have hobtain : Run.Reaches step PartitionManagers.Alone twoManagers _ :=
    .step (a := .obtain false (addPartition btcPartition)) .refl
      ⟨rfl, fun call hcall => by cases hcall⟩ rfl
  have hstored : Run.Reaches step PartitionManagers.Alone twoManagers _ :=
    .step (a := .put 0 .ok) (.step (a := .marshal 0) (.step (a := .setCache 0) hobtain
      trivial rfl) trivial rfl) trivial rfl
  have hfetched : Run.Reaches step PartitionManagers.Alone twoManagers _ :=
    .step (a := .refresh true) (.step (a := .fetch true) hstored trivial rfl)
      (fun call hcall hnode => by
        rw [mem_singleton.mp hcall] at hnode
        cases hnode) rfl
  have hsecond : Run.Reaches step PartitionManagers.Alone twoManagers _ :=
    .step (a := .obtain true (addPartition ethPartition)) hfetched ⟨rfl, hidle⟩ rfl
  have hdone : Run.Reaches step PartitionManagers.Alone twoManagers _ :=
    .step (a := .put 1 .ok) (.step (a := .marshal 1) (.step (a := .setCache 1) hsecond
      trivial rfl) trivial rfl) trivial rfl
  exact ⟨_, hdone, by decide, table_updates_not_lost hdone⟩

end CexHertz
