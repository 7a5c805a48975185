import CexHertz.Service.ClusterSequence

/-!
# Who holds which node id

`GetOrAllocateNodeID` on its own: any number of nodes, each with its own address, call it again and
again. A crash forgets the call in progress. The id of a node is settled by the write of its
registry entry; until then the call that will write it holds an id which the counter has passed.
-/

namespace CexHertz

open Function Versioned List

variable {ι : Type}

/-- `calls` are the calls in progress; the ids won by compare-and-set and the answers that calls
have given are kept as history. -/
structure NodeIDs (ι : Type) where
  consul : Consul
  calls : ι → Option BootPhase
  won : ι → List Nat
  returned : List (ι × Nat)

def newNodeIDs : NodeIDs ι := ⟨.empty, fun _ => none, fun _ => [], []⟩

inductive NodeIDAction (ι : Type) where
  | call (i : ι)
  | advance (i : ι) (result : CallResult) (now : Int)
  | crash (i : ι)

def BootStep.pending : BootStep → Option BootPhase
  | .next phase => some phase
  | _ => none

def BootStep.answer (i : ι) : BootStep → List (ι × Nat)
  | .returned _ nodeID => [(i, nodeID)]
  | _ => []

section

variable [DecidableEq ι] (addr : ι → String)

def NodeIDs.advanced (s : NodeIDs ι) (i : ι) (phase : BootPhase) (consul : Consul)
    (next : BootStep) : NodeIDs ι where
  consul := consul
  calls := update s.calls i next.pending
  won := update s.won i (wonID phase next ++ s.won i)
  returned := s.returned ++ next.answer i

def NodeIDs.step (s : NodeIDs ι) : NodeIDAction ι → Option (NodeIDs ι)
  | .call i =>
    match s.calls i with
    | none => some { s with calls := update s.calls i (some .query) }
    | some _ => none
  | .advance i result now =>
    match s.calls i with
    | none => none
    | some phase =>
      let answer := bootStep (addr i) s.consul phase result now
      some (s.advanced i phase answer.1 answer.2)
  | .crash i => some { s with calls := update s.calls i none }

end

/-! ## What a call has checked -/

/-- A call that goes on after its query has found no entry, and one that goes on after reading the
counter was offered an id that is not too large. -/
def Checked (nodeAddr : String) (consul : Consul) : BootPhase → Prop
  | .query => registeredID consul nodeAddr = none
  | .readCounter _ => offeredID (consul.pair nodeIDCounterKey) ≤ 1023
  | _ => True

theorem bootStep_checked {nodeAddr : String} {consul : Consul} {phase next : BootPhase}
    {result : CallResult} {now : Int}
    (h : (bootStep nodeAddr consul phase result now).2 = .next next) :
    Checked nodeAddr consul phase := by
  cases phase with
  | query =>
    unfold bootStep at h
    dsimp only at h
    split at h
    · cases h
    · cases result with
      | failed => cases h
      | ok =>
        cases hid : registeredID consul nodeAddr with
        | none => exact hid
        | some id =>
          rw [hid] at h
          cases h
  | readCounter attempt =>
    cases result with
    | failed => cases h
    | ok =>
      unfold bootStep at h
      dsimp only at h
      split at h
      next => cases h
      next hle => exact Nat.le_of_not_lt hle
  | cas | put => trivial

/-! ## The invariant -/

def CallOk (nodeAddr : String) (consul : Consul) (won : List Nat) : Option BootPhase → Prop
  | none => True
  | some .query => True
  | some (.readCounter _) => registeredID consul nodeAddr = none
  | some (.cas _ currentID modifyIndex) => registeredID consul nodeAddr = none ∧
      currentID ≤ 1023 ∧ ∃ read, Seen consul nodeIDCounterKey read ∧
        currentID = offeredID read ∧ modifyIndex = version read
  | some (.put nodeID) => registeredID consul nodeAddr = none ∧ nodeID ∈ won

structure NodeIDsOk (addr : ι → String) (s : NodeIDs ι) : Prop where
  offered_pos : 1 ≤ offeredID (s.consul.pair nodeIDCounterKey)
  won_le : ∀ i, ∀ k ∈ s.won i, 1 ≤ k ∧ k ≤ 1023
  won_lt : ∀ i, ∀ k ∈ s.won i, k < offeredID (s.consul.pair nodeIDCounterKey)
  disjoint : ∀ i j, ∀ k ∈ s.won i, k ∈ s.won j → i = j
  registry : ∀ i id, registeredID s.consul (addr i) = some id → id ∈ s.won i
  calls : ∀ i, CallOk (addr i) s.consul (s.won i) (s.calls i)
  returned : ∀ r ∈ s.returned, registeredID s.consul (addr r.1) = some r.2

theorem newNodeIDs_ok (addr : ι → String) : NodeIDsOk addr newNodeIDs where
  offered_pos := Nat.le_refl 1
  won_le := fun _ _ hk => nomatch hk
  won_lt := fun _ _ hk => nomatch hk
  disjoint := fun _ _ _ hk => nomatch hk
  registry := fun _ _ hid => nomatch hid
  calls := fun _ => trivial
  returned := fun _ hr => nomatch hr

theorem CallOk.put {nodeAddr key : String} {consul : Consul} {won won' : List Nat}
    {call : Option BootPhase} (h : CallOk nodeAddr consul won call)
    (hkey : nodeRegistryPrefix ++ nodeAddr ≠ key) (value : RegistryValue)
    (hwon : ∀ k ∈ won, k ∈ won') : CallOk nodeAddr (consul.put key value) won' call := by
  have hreg : registeredID (consul.put key value) nodeAddr = registeredID consul nodeAddr :=
    registeredID_put_other hkey
  cases call with
  | none => trivial
  | some phase =>
    cases phase with
    | query => trivial
    | readCounter => exact hreg.trans h
    | cas =>
      obtain ⟨hnone, hle, read, hseen, hcur, hidx⟩ := h
      exact ⟨hreg.trans hnone, hle, read, hseen.put key value, hcur, hidx⟩
    | put => exact ⟨hreg.trans h.1, hwon _ h.2⟩

namespace NodeIDsOk

variable [DecidableEq ι] {addr : ι → String} {s : NodeIDs ι} {i : ι}

theorem setCall (h : NodeIDsOk addr s) {call : Option BootPhase}
    (hcall : CallOk (addr i) s.consul (s.won i) call) :
    NodeIDsOk addr { s with calls := update s.calls i call } := by
  refine ⟨h.offered_pos, h.won_le, h.won_lt, h.disjoint, h.registry, fun j => ?_, h.returned⟩
  show CallOk _ _ _ (update s.calls i call j)
  by_cases hj : j = i
  · subst hj
    rwa [update_self]
  · rw [update_of_ne hj]
    exact h.calls j

-- A call that ends, however it ends, leaves nothing to be kept.
theorem endCall (h : NodeIDsOk addr s) (i : ι) :
    NodeIDsOk addr { s with calls := update s.calls i none } :=
  h.setCall trivial

omit [DecidableEq ι] in
theorem raise (h : NodeIDsOk addr s) (haddr : ∀ j, addr j ≠ "next_id") : NodeIDsOk addr
      { s with
        consul := s.consul.put nodeIDCounterKey
          (.counter (offeredID (s.consul.pair nodeIDCounterKey) + 1)) } where
  offered_pos := by
    rw [Store.put_pair_self]
    show 1 ≤ offeredID (s.consul.pair nodeIDCounterKey) + 1
    omega
  won_le := h.won_le
  won_lt := by
    intro j k hk
    have hlt := h.won_lt j k hk
    rw [Store.put_pair_self]
    show k < offeredID (s.consul.pair nodeIDCounterKey) + 1
    omega
  disjoint := h.disjoint
  registry := fun j id hid => h.registry j id (registeredID_put_counter hid)
  calls := fun j => (h.calls j).put (registryKey_ne_counter (haddr j)) _ fun _ hk => hk
  returned := by
    intro r hr
    show registeredID (s.consul.put _ _) (addr r.1) = some r.2
    rw [registeredID_put_other (registryKey_ne_counter (haddr r.1))]
    exact h.returned r hr

theorem grant (h : NodeIDsOk addr s) {n : Nat} (hle : 1 ≤ n ∧ n ≤ 1023)
    (hlt : n < offeredID (s.consul.pair nodeIDCounterKey)) (hnew : ∀ j, n ∉ s.won j)
    (hnone : registeredID s.consul (addr i) = none) :
    NodeIDsOk addr
      { s with
        calls := update s.calls i (some (.put n))
        won := update s.won i (n :: s.won i) } := by
  have hmem : ∀ j k, k ∈ update s.won i (n :: s.won i) j ↔ j = i ∧ k = n ∨ k ∈ s.won j := by
    intro j k
    by_cases hj : j = i
    · subst hj
      rw [update_self, mem_cons]
      simp only [true_and]
    · rw [update_of_ne hj]
      simp only [hj, false_and, false_or]
  refine ⟨h.offered_pos, fun j k hk => ?_, fun j k hk => ?_, fun j j' k hk hk' => ?_,
    fun j id hid => (hmem j id).mpr (.inr (h.registry j id hid)), fun j => ?_, h.returned⟩
  · rcases (hmem j k).mp hk with ⟨-, rfl⟩ | hold
    · exact hle
    · exact h.won_le j k hold
  · rcases (hmem j k).mp hk with ⟨-, rfl⟩ | hold
    · exact hlt
    · exact h.won_lt j k hold
  · rcases (hmem j k).mp hk with ⟨rfl, rfl⟩ | hold
    · rcases (hmem j' k).mp hk' with ⟨rfl, -⟩ | hold'
      · rfl
      · exact absurd hold' (hnew j')
    · rcases (hmem j' k).mp hk' with ⟨-, rfl⟩ | hold'
      · exact absurd hold (hnew j)
      · exact h.disjoint j j' k hold hold'
  · by_cases hj : j = i
    · subst hj
      show CallOk _ _ (update s.won j _ j) (update s.calls j _ j)
      rw [update_self, update_self]
      exact ⟨hnone, mem_cons_self⟩
    · show CallOk _ _ (update s.won i _ j) (update s.calls i _ j)
      rw [update_of_ne hj, update_of_ne hj]
      exact h.calls j

theorem win (h : NodeIDsOk addr s) (haddr : ∀ j, addr j ≠ "next_id")
    (hnone : registeredID s.consul (addr i) = none) {attempt n modifyIndex : Nat} (hle : n ≤ 1023)
    (hn : n = offeredID (s.consul.pair nodeIDCounterKey)) :
    NodeIDsOk addr
      (s.advanced i (.cas attempt n modifyIndex) (s.consul.put nodeIDCounterKey (.counter (n + 1)))
        (.next (.put n))) := by
  have hraised := h.raise haddr
  rw [← hn] at hraised
  have hnew : ∀ j, n ∉ s.won j := by
    intro j hmem
    have := h.won_lt j n hmem
    omega
  have hpos := h.offered_pos
  have hgrant := hraised.grant (i := i) (n := n) ⟨by omega, hle⟩
    (by rw [Store.put_pair_self]; exact Nat.lt_succ_self n) hnew
    ((registeredID_put_other (registryKey_ne_counter (haddr i))).trans hnone)
  have hreturned : s.returned ++ BootStep.answer i (.next (.put n)) = s.returned :=
    append_nil _
  unfold NodeIDs.advanced
  rwa [hreturned]

theorem register (h : NodeIDsOk addr s) (hinj : Function.Injective addr)
    (haddr : ∀ j, addr j ≠ "next_id") (hnone : registeredID s.consul (addr i) = none) {n : Nat}
    (hid : n ∈ s.won i) (now : Int) :
    NodeIDsOk addr
      { s with
        consul := s.consul.put (nodeRegistryPrefix ++ addr i) (.entry n (addr i) now)
        calls := update s.calls i none } := by
  have hcounter : (s.consul.put (nodeRegistryPrefix ++ addr i) (.entry n (addr i) now)).pair
      nodeIDCounterKey = s.consul.pair nodeIDCounterKey :=
    Store.put_pair_of_ne (registryKey_ne_counter (haddr i)).symm
  have hkey : ∀ j, j ≠ i → nodeRegistryPrefix ++ addr j ≠ nodeRegistryPrefix ++ addr i :=
    fun j hj heq => hj (hinj (registryKey_inj heq))
  refine ⟨?_, h.won_le, ?_, h.disjoint, fun j id hreg => ?_, fun j => ?_, fun r hr => ?_⟩
  · rw [hcounter]
    exact h.offered_pos
  · rw [hcounter]
    exact h.won_lt
  · by_cases hj : j = i
    · subst hj
      rw [registeredID_put_self] at hreg
      cases hreg
      exact hid
    · rw [registeredID_put_other (hkey j hj)] at hreg
      exact h.registry j id hreg
  · show CallOk _ _ _ (update s.calls i none j)
    by_cases hj : j = i
    · subst hj
      rw [update_self]
      trivial
    · rw [update_of_ne hj]
      exact (h.calls j).put (hkey j hj) _ fun _ hk => hk
  · -- whoever was given an id was registered before
    have hold := h.returned r hr
    have hne : r.1 ≠ i := by
      intro heq
      rw [heq, hnone] at hold
      cases hold
    show registeredID (s.consul.put _ _) (addr r.1) = some r.2
    rwa [registeredID_put_other (hkey r.1 hne)]

omit [DecidableEq ι] in
theorem answer (h : NodeIDsOk addr s) {n : Nat}
    (hreg : registeredID s.consul (addr i) = some n) :
    NodeIDsOk addr { s with returned := s.returned ++ [(i, n)] } := by
  refine ⟨h.offered_pos, h.won_le, h.won_lt, h.disjoint, h.registry, h.calls, ?_⟩
  show ∀ r ∈ s.returned ++ [(i, n)], _
  rw [forall_mem_append, forall_mem_singleton]
  exact ⟨h.returned, hreg⟩

theorem advanced_quiet {phase : BootPhase} {next : BootStep} (hwon : wonID phase next = [])
    (hanswer : next.answer i = []) (consul : Consul) :
    s.advanced i phase consul next =
      { s with consul := consul, calls := update s.calls i next.pending } := by
  unfold NodeIDs.advanced
  rw [hwon, hanswer, nil_append, append_nil, update_eq_self]

theorem advanced_returned {phase : BootPhase} {fresh : Bool} {n : Nat}
    (hwon : wonID phase (.returned fresh n) = []) (consul : Consul) :
    s.advanced i phase consul (.returned fresh n) = { s with
        consul := consul
        calls := update s.calls i none
        returned := s.returned ++ [(i, n)] } := by
  unfold NodeIDs.advanced
  rw [hwon, nil_append, update_eq_self]
  rfl

theorem advance (h : NodeIDsOk addr s) (hinj : Function.Injective addr)
    (haddr : ∀ j, addr j ≠ "next_id") {phase : BootPhase} (hcall : s.calls i = some phase)
    (result : CallResult) (now : Int) :
    NodeIDsOk addr
      (s.advanced i phase (bootStep (addr i) s.consul phase result now).1
        (bootStep (addr i) s.consul phase result now).2) := by
  have hok := h.calls i
  rw [hcall] at hok
  have hedge := bootStep_edge (addr i) s.consul phase result now
  have hchecked := fun next => @bootStep_checked (addr i) s.consul phase next result now
  generalize (bootStep (addr i) s.consul phase result now).1 = consul at hedge ⊢
  generalize (bootStep (addr i) s.consul phase result now).2 = next at hedge hchecked ⊢
  cases hedge with
  | failed =>
    rw [advanced_quiet (wonID_error _) rfl]
    exact h.endCall i
  | found hid =>
    rw [advanced_returned rfl]
    exact (h.endCall i).answer hid
  | absent =>
    rw [advanced_quiet rfl rfl]
    exact h.setCall (hchecked _ rfl)
  | read attempt =>
    rw [advanced_quiet rfl rfl]
    exact h.setCall ⟨hok, hchecked _ rfl, _, seen_self _ _, rfl, rfl⟩
  | conflict =>
    rw [advanced_quiet rfl rfl]
    exact h.setCall hok.1
  | won attempt hversion =>
    obtain ⟨hnone, hle, read, hseen, hcur, hidx⟩ := hok
    have hpair := hseen.unchanged (hversion.trans hidx)
    rw [← hpair] at hcur
    exact h.win haddr hnone hle hcur
  | wonUnseen attempt hversion =>
    obtain ⟨-, -, read, hseen, hcur, hidx⟩ := hok
    have hpair := hseen.unchanged (hversion.trans hidx)
    rw [advanced_quiet rfl rfl, hcur, ← hpair]
    exact (h.raise haddr).endCall i
  | registered nodeID now =>
    rw [advanced_returned rfl]
    exact (h.register hinj haddr hok.1 hok.2 now).answer (registeredID_put_self _ _ _)
  | registeredUnseen nodeID now =>
    rw [advanced_quiet rfl rfl]
    exact h.register hinj haddr hok.1 hok.2 now

theorem step (h : NodeIDsOk addr s) (hinj : Function.Injective addr)
    (haddr : ∀ j, addr j ≠ "next_id") {action : NodeIDAction ι} {s' : NodeIDs ι}
    (hstep : s.step addr action = some s') : NodeIDsOk addr s' := by
  cases action with
  | call i =>
    dsimp only [NodeIDs.step] at hstep
    split at hstep
    · cases hstep
      exact h.setCall trivial
    · cases hstep
  | advance i result now =>
    dsimp only [NodeIDs.step] at hstep
    split at hstep
    next => cases hstep
    next phase hcall =>
      cases hstep
      exact h.advance hinj haddr hcall result now
  | crash i =>
    cases hstep
    exact h.endCall i

end NodeIDsOk

theorem address_ne_counter (identity port : String) : identity ++ ":" ++ port ≠ "next_id" := by
  intro h
  have hmem : ':' ∈ (identity ++ ":" ++ port).toList := by
    rw [String.toList_append, String.toList_append]
    exact mem_append_left _ (mem_append_right _ mem_cons_self)
  rw [h] at hmem
  exact absurd hmem (by decide)

/-- Nodes with distinct addresses of the form `identity:port`: in every run of calls, whatever
Consul answers and wherever they crash, two answers are the same id exactly when they were given to
the same node, and every id lies between 1 and 1023. -/
theorem nodeIDs_never_shared [DecidableEq ι] {addr : ι → String}
    (hinj : Function.Injective addr)
    (hform : ∀ i, ∃ identity port, addr i = identity ++ ":" ++ port) {s : NodeIDs ι}
    (hrun : Run.Reaches (NodeIDs.step addr) (fun _ _ => True) newNodeIDs s) :
    (∀ r ∈ s.returned, 1 ≤ r.2 ∧ r.2 ≤ 1023) ∧
      ∀ r ∈ s.returned, ∀ r' ∈ s.returned, r.2 = r'.2 ↔ r.1 = r'.1 := by
  have haddr : ∀ i, addr i ≠ "next_id" := by
    intro i
    obtain ⟨identity, port, hi⟩ := hform i
    rw [hi]
    exact address_ne_counter identity port
  have hok : NodeIDsOk addr s := hrun.invariant (newNodeIDs_ok addr)
    fun _ _ _ hs _ hstep => hs.step hinj haddr hstep
  have hwon : ∀ r ∈ s.returned, r.2 ∈ s.won r.1 := fun r hr =>
    hok.registry r.1 r.2 (hok.returned r hr)
  refine ⟨fun r hr => hok.won_le r.1 r.2 (hwon r hr), fun r hr r' hr' => ⟨fun heq => ?_, ?_⟩⟩
  · apply hok.disjoint r.1 r'.1 r.2 (hwon r hr)
    rw [heq]
    exact hwon r' hr'
  · intro heq
    have hreg := hok.returned r hr
    rw [heq, hok.returned r' hr'] at hreg
    exact (Option.some.inj hreg).symm

/-- Two nodes allocate at the same time: the second one loses the race and tries again; the first
one crashes and asks once more. -/
theorem racingNodes_keep_their_ids :
    ∃ s, Run.Reaches (NodeIDs.step twoAddresses) (fun _ _ => True) newNodeIDs s ∧
      s.returned = [(false, 1), (true, 2), (false, 1)] ∧
      (∀ r ∈ s.returned, 1 ≤ r.2 ∧ r.2 ≤ 1023) ∧
      ∀ r ∈ s.returned, ∀ r' ∈ s.returned, r.2 = r'.2 ↔ r.1 = r'.1 := by
  refine Run.exists_reaches
    [.call false, .call true, .advance false .ok 0, .advance true .ok 0, .advance false .ok 0,
      .advance true .ok 0, .advance false .ok 0, .advance true .ok 0, .advance false .ok 0,
      .advance true .ok 0, .advance true .ok 0, .advance true .ok 0, .crash false, .call false,
      .advance false .ok 0] (P := fun s => s.returned = [(false, 1), (true, 2), (false, 1)])
    (by decide +kernel) fun _ hreach htest => ?_
  have hinj : Function.Injective twoAddresses := by
    unfold Function.Injective
    decide
  have hform : ∀ i, ∃ identity port, twoAddresses i = identity ++ ":" ++ port := by
    intro i
    cases i with
    | false => exact ⟨"a", "9001", rfl⟩
    | true => exact ⟨"b", "9001", rfl⟩
  exact ⟨htest, nodeIDs_never_shared hinj hform hreach⟩

end CexHertz
