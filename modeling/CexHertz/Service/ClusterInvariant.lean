import CexHertz.Service.NodeRegistry
import Mathlib.Data.List.Nodup

/-!
# What the cluster keeps

Ids won by compare-and-set are distinct and belong to one node each; a boot holds an id that nobody
has used.  The steps of a boot and a store by a process that is alone under its id keep this.
-/

namespace CexHertz

open Function Json Versioned List Store

variable {ι τ : Type}
variable {consul : Consul} {nodeAddr : String}

/-! ## What a boot step can do -/

inductive BootEdge (nodeAddr : String) (consul : Consul) : BootPhase → Consul → BootStep → Prop
  | failed (phase : BootPhase) : BootEdge nodeAddr consul phase consul .error
  | found {id : Nat} (h : registeredID consul nodeAddr = some id) :
      BootEdge nodeAddr consul .query consul (.returned false id)
  | absent : BootEdge nodeAddr consul .query consul (.next (.readCounter 0))
  | read (attempt : Nat) : BootEdge nodeAddr consul (.readCounter attempt) consul
        (.next (.cas attempt (offeredID (consul.pair nodeIDCounterKey))
          (version (consul.pair nodeIDCounterKey))))
  | conflict (attempt currentID modifyIndex : Nat) :
      BootEdge nodeAddr consul (.cas attempt currentID modifyIndex) consul
        (.next (.readCounter (attempt + 1)))
  | won (attempt : Nat) {currentID modifyIndex : Nat}
      (h : version (consul.pair nodeIDCounterKey) = modifyIndex) :
      BootEdge nodeAddr consul (.cas attempt currentID modifyIndex)
        (consul.put nodeIDCounterKey (.counter (currentID + 1))) (.next (.put currentID))
  | wonUnseen (attempt : Nat) {currentID modifyIndex : Nat}
      (h : version (consul.pair nodeIDCounterKey) = modifyIndex) :
      BootEdge nodeAddr consul (.cas attempt currentID modifyIndex)
        (consul.put nodeIDCounterKey (.counter (currentID + 1))) .error
  | registered (nodeID : Nat) (now : Int) : BootEdge nodeAddr consul (.put nodeID)
        (consul.put (nodeRegistryPrefix ++ nodeAddr) (.entry nodeID nodeAddr now))
        (.returned true nodeID)
  | registeredUnseen (nodeID : Nat) (now : Int) : BootEdge nodeAddr consul (.put nodeID)
        (consul.put (nodeRegistryPrefix ++ nodeAddr) (.entry nodeID nodeAddr now)) .error

-- Every answer of Consul, in every phase.
theorem bootStep_edge (nodeAddr : String) (consul : Consul) (phase : BootPhase)
    (result : CallResult) (now : Int) :
    BootEdge nodeAddr consul phase (bootStep nodeAddr consul phase result now).1
      (bootStep nodeAddr consul phase result now).2 := by
  cases phase with
  | query =>
    unfold bootStep
    dsimp only
    split
    · exact .failed _
    · split
      · exact .failed _
      · split
        next id hid => exact .found hid
        next => exact .absent
  | readCounter attempt =>
    cases result with
    | failed effect => exact .failed _
    | ok =>
      unfold bootStep
      dsimp only
      split
      · exact .failed _
      · exact .read attempt
  | cas attempt currentID modifyIndex =>
    cases result with
    | failed effect =>
      cases effect with
      | false => exact .failed _
      | true =>
        unfold bootStep cas
        dsimp only
        rw [if_pos rfl]
        split
        next h => exact .wonUnseen attempt h
        next => exact .failed _
    | ok =>
      unfold bootStep cas
      dsimp only
      by_cases h : version (consul.pair nodeIDCounterKey) = modifyIndex
      · rw [if_pos h]
        exact .won attempt h
      · rw [if_neg h]
        dsimp only
        split
        · exact .conflict ..
        · exact .failed _
  | put nodeID =>
    cases result with
    | failed effect =>
      cases effect with
      | false => exact .failed _
      | true => exact .registeredUnseen nodeID now
    | ok => exact .registered nodeID now

/-! ## Keys -/

theorem registryKey_inj {a b : String} (h : nodeRegistryPrefix ++ a = nodeRegistryPrefix ++ b) :
    a = b := by
  have hlist := congrArg String.toList h
  rw [String.toList_append, String.toList_append] at hlist
  exact String.toList_injective (append_cancel_left hlist)

-- A node whose address is `next_id` would share its key with the counter.
theorem registryKey_ne_counter {a : String} (h : a ≠ "next_id") :
    nodeRegistryPrefix ++ a ≠ nodeIDCounterKey := by
  intro heq
  exact h (registryKey_inj (b := "next_id") heq)

theorem registeredID_put_other {key : String} {value : RegistryValue}
    (h : nodeRegistryPrefix ++ nodeAddr ≠ key) :
    registeredID (consul.put key value) nodeAddr = registeredID consul nodeAddr := by
  unfold registeredID
  rw [put_pair_of_ne h]

theorem registeredID_put_self (consul : Consul) (nodeAddr : String) (value : RegistryValue) :
    registeredID (consul.put (nodeRegistryPrefix ++ nodeAddr) value) nodeAddr = value.nodeID := by
  unfold registeredID
  rw [put_pair_self]
  rfl

theorem registeredID_put_counter {n id : Nat}
    (h : registeredID (consul.put nodeIDCounterKey (.counter n)) nodeAddr = some id) :
    registeredID consul nodeAddr = some id := by
  by_cases hkey : nodeRegistryPrefix ++ nodeAddr = nodeIDCounterKey
  · rw [← hkey, registeredID_put_self] at h
    cases h
  · rwa [registeredID_put_other hkey] at h

/-! ## The invariant -/

def Silent (attempts : List (StoreAttempt ι)) (i : ι) (boot : Nat) : Prop :=
  ∀ t ∈ attempts, t.node = i → t.boot ≠ boot

def OnlyBy (attempts : List (StoreAttempt ι)) (i : ι) (boot nodeID : Nat) : Prop :=
  ∀ t ∈ attempts, t.nodeID = nodeID → t.node = i ∧ t.boot = boot

def PhaseOk (consul : Consul) (attempts : List (StoreAttempt ι)) (allocated : List Nat) :
    BootPhase → Prop
  | .query => True
  | .readCounter _ => True
  | .cas _ currentID modifyIndex => ∃ read, Seen consul nodeIDCounterKey read ∧
      currentID = offeredID read ∧ modifyIndex = version read
  | .put nodeID => nodeID ∈ allocated ∧ ∀ t ∈ attempts, t.nodeID ≠ nodeID

structure UpOk (attempts : List (StoreAttempt ι)) (i : ι) (node : Node) (fresh : Bool)
    (s : Sequencer) : Prop where
  nodeID_le : s.nodeID ≤ 1023
  allocated : s.nodeID = 0 ∨ s.nodeID ∈ node.allocated
  localSeq_le : s.localSeq ≤ node.drawn
  rows_le : ∀ t ∈ attempts, t.node = i → t.boot = node.boots → t.localSeq ≤ s.localSeq
  fresh : fresh = true → s.nodeID ∈ node.allocated ∧ OnlyBy attempts i node.boots s.nodeID

def ProcessOk (nodeAddr : String) (i : ι) (consul : Consul) (attempts : List (StoreAttempt ι))
    (node : Node) : Prop :=
  match node.process with
  | .down => True
  | .booting phase => nodeAddr ≠ "next_id" ∧ Silent attempts i node.boots ∧
      PhaseOk consul attempts node.allocated phase
  | .up fresh s => UpOk attempts i node fresh s

structure AttemptOk (nodes : ι → Node) (t : StoreAttempt ι) : Prop where
  globalSeq : t.globalSeq = int64 (globalSeq t.nodeID t.localSeq)
  localSeq_lt : t.localSeq < 2 ^ 40
  nodeID_le : t.nodeID ≤ 1023
  allocated : t.nodeID = 0 ∨ t.nodeID ∈ (nodes t.node).allocated
  boot_le : t.boot ≤ (nodes t.node).boots

structure ClusterInv (addr : ι → String) (c : Cluster ι τ) : Prop where
  offered_pos : 1 ≤ offeredID (c.consul.pair nodeIDCounterKey)
  allocated_lt : ∀ i, ∀ k ∈ (c.nodes i).allocated,
    1 ≤ k ∧ k < offeredID (c.consul.pair nodeIDCounterKey)
  disjoint : ∀ i j, ∀ k ∈ (c.nodes i).allocated, k ∈ (c.nodes j).allocated → i = j
  registry : ∀ i id, registeredID c.consul (addr i) = some id → id ∈ (c.nodes i).allocated
  attempts : ∀ t ∈ c.attempts, AttemptOk c.nodes t
  processes : ∀ i, ProcessOk (addr i) i c.consul c.attempts (c.nodes i)
  distinct : (c.attempts.map (·.globalSeq)).Nodup

theorem newCluster_inv (addr : ι → String) : ClusterInv addr (newCluster : Cluster ι τ) where
  offered_pos := Nat.le_refl 1
  allocated_lt := fun _ _ hk => nomatch hk
  disjoint := fun _ _ _ hk => nomatch hk
  registry := fun _ _ hid => nomatch hid
  attempts := fun _ ht => nomatch ht
  processes := fun _ => trivial
  distinct := nodup_nil

-- What was read stays what was read; a later write only moves the version on.
theorem PhaseOk.put {attempts : List (StoreAttempt ι)} {allocated : List Nat} {phase : BootPhase}
    (h : PhaseOk consul attempts allocated phase) (key : String) (value : RegistryValue) :
    PhaseOk (consul.put key value) attempts allocated phase := by
  cases phase with
  | query | readCounter => trivial
  | cas =>
    obtain ⟨read, hseen, hcur, hidx⟩ := h
    exact ⟨read, hseen.put key value, hcur, hidx⟩
  | put => exact h

theorem ProcessOk.put {i : ι} {attempts : List (StoreAttempt ι)} {node : Node}
    (h : ProcessOk nodeAddr i consul attempts node) (key : String) (value : RegistryValue) :
    ProcessOk nodeAddr i (consul.put key value) attempts node := by
  unfold ProcessOk at h ⊢
  split
  next hp => trivial
  next phase hp =>
    rw [hp] at h
    exact ⟨h.1, h.2.1, h.2.2.put key value⟩
  next fresh s hp =>
    rwa [hp] at h

section

variable [DecidableEq ι] {addr : ι → String} {c : Cluster ι τ} {i : ι} {node : Node}
variable {fresh : Bool} {s : Sequencer}

theorem ClusterInv.grant (h : ClusterInv addr c) {ids : List Nat}
    (hallocated : node.allocated = ids ++ (c.nodes i).allocated)
    (hids : ∀ k ∈ ids, (1 ≤ k ∧ k < offeredID (c.consul.pair nodeIDCounterKey)) ∧
      ∀ j, k ∉ (c.nodes j).allocated) (hboots : (c.nodes i).boots ≤ node.boots)
    (hprocess : ProcessOk (addr i) i c.consul c.attempts node) :
    ClusterInv addr { c with nodes := update c.nodes i node } := by
  have hmem : ∀ j k, k ∈ (update c.nodes i node j).allocated ↔
      j = i ∧ k ∈ ids ∨ k ∈ (c.nodes j).allocated := by
    intro j k
    by_cases hj : j = i
    · subst hj
      rw [update_self, hallocated, mem_append]
      simp only [true_and]
    · rw [update_of_ne hj]
      simp only [hj, false_and, false_or]
  have hmono : ∀ j, (c.nodes j).boots ≤ (update c.nodes i node j).boots := by
    intro j
    by_cases hj : j = i
    · subst hj
      rwa [update_self]
    · rw [update_of_ne hj]
  refine ⟨h.offered_pos, fun j k hk => ?_, fun j j' k hk hk' => ?_, fun j id hid => ?_,
    fun t ht => ?_, fun j => ?_, h.distinct⟩
  · rcases (hmem j k).mp hk with ⟨-, hnew⟩ | hold
    · exact (hids k hnew).1
    · exact h.allocated_lt j k hold
  · rcases (hmem j k).mp hk with ⟨hj, hnew⟩ | hold
    · rcases (hmem j' k).mp hk' with ⟨hj', -⟩ | hold'
      · exact hj.trans hj'.symm
      · exact absurd hold' ((hids k hnew).2 j')
    · rcases (hmem j' k).mp hk' with ⟨-, hnew⟩ | hold'
      · exact absurd hold ((hids k hnew).2 j)
      · exact h.disjoint j j' k hold hold'
  · exact (hmem j id).mpr (.inr (h.registry j id hid))
  · have hold := h.attempts t ht
    exact ⟨hold.globalSeq, hold.localSeq_lt, hold.nodeID_le,
      hold.allocated.imp id fun halloc => (hmem _ _).mpr (.inr halloc),
      Nat.le_trans hold.boot_le (hmono _)⟩
  · dsimp only
    by_cases hj : j = i
    · subst hj
      rwa [update_self]
    · rw [update_of_ne hj]
      exact h.processes j

theorem ClusterInv.setNode (h : ClusterInv addr c)
    (hallocated : node.allocated = (c.nodes i).allocated) (hboots : (c.nodes i).boots ≤ node.boots)
    (hprocess : ProcessOk (addr i) i c.consul c.attempts node) :
    ClusterInv addr { c with nodes := update c.nodes i node } :=
  h.grant (nil_append _ ▸ hallocated) (fun _ hk => absurd hk not_mem_nil) hboots hprocess

theorem ClusterInv.register (h : ClusterInv addr c) (hinj : Function.Injective addr)
    (haddr : addr i ≠ "next_id") {nodeID : Nat} (hid : nodeID ∈ (c.nodes i).allocated) (now : Int) :
    ClusterInv addr
      { c with
        consul := c.consul.put (nodeRegistryPrefix ++ addr i) (.entry nodeID (addr i) now) } := by
  have hcounter : (c.consul.put (nodeRegistryPrefix ++ addr i) (.entry nodeID (addr i) now)).pair
      nodeIDCounterKey = c.consul.pair nodeIDCounterKey :=
    put_pair_of_ne (registryKey_ne_counter haddr).symm
  refine ⟨?_, ?_, h.disjoint, ?_, h.attempts, fun j => (h.processes j).put _ _, h.distinct⟩
  · rw [hcounter]
    exact h.offered_pos
  · rw [hcounter]
    exact h.allocated_lt
  · intro j id hreg
    by_cases hj : j = i
    · subst hj
      rw [registeredID_put_self] at hreg
      cases hreg
      exact hid
    · rw [registeredID_put_other] at hreg
      · exact h.registry j id hreg
      · intro hkey
        exact hj (hinj (registryKey_inj hkey))

omit [DecidableEq ι] in
theorem ClusterInv.raise (h : ClusterInv addr c) : ClusterInv addr
      { c with
        consul := c.consul.put nodeIDCounterKey
          (.counter (offeredID (c.consul.pair nodeIDCounterKey) + 1)) } := by
  refine ⟨?_, ?_, h.disjoint, ?_, h.attempts, fun j => (h.processes j).put _ _, h.distinct⟩
  · rw [put_pair_self]
    exact Nat.le_add_left 1 _
  · intro j k hk
    have := h.allocated_lt j k hk
    rw [put_pair_self]
    exact ⟨this.1, Nat.lt_succ_of_lt this.2⟩
  · intro j id hid
    exact h.registry j id (registeredID_put_counter hid)

def Node.won (node : Node) (n : Nat) : Node :=
  { node with process := .booting (.put n), allocated := n :: node.allocated }

theorem ClusterInv.win (h : ClusterInv addr c) (haddr : addr i ≠ "next_id")
    (hsilent : Silent c.attempts i (c.nodes i).boots) {n : Nat}
    (hn : n = offeredID (c.consul.pair nodeIDCounterKey)) :
    ClusterInv addr
      { c with
        consul := c.consul.put nodeIDCounterKey (.counter (n + 1))
        nodes := update c.nodes i ((c.nodes i).won n) } := by
  have hnew : ∀ j, ∀ k ∈ (c.nodes j).allocated, k < n := fun j k hk =>
    hn ▸ (h.allocated_lt j k hk).2
  have hpos : 1 ≤ n := hn ▸ h.offered_pos
  have hraised := h.raise
  rw [← hn] at hraised
  have hwon : ((c.nodes i).won n).allocated = [n] ++ (c.nodes i).allocated := rfl
  refine hraised.grant hwon ?_ (Nat.le_refl _) ?_
  · intro k hk
    rw [List.mem_singleton.mp hk, put_pair_self]
    exact ⟨⟨hpos, Nat.lt_succ_self n⟩, fun j hmem => Nat.lt_irrefl n (hnew j n hmem)⟩
  · refine ⟨haddr, hsilent, mem_cons_self, fun t ht => ?_⟩
    -- whatever was stored was stored under an older id
    rcases (h.attempts t ht).allocated with hzero | halloc
    · omega
    · exact Nat.ne_of_lt (hnew _ _ halloc)

omit [DecidableEq ι] in
theorem upOk_fallback (node : Node) (attempts : List (StoreAttempt ι))
    (hsilent : Silent attempts i node.boots) : UpOk attempts i node false newSequencer where
  nodeID_le := Nat.zero_le _
  allocated := .inl rfl
  localSeq_le := Nat.zero_le _
  rows_le := fun t ht hnode hboot => absurd hboot (hsilent t ht hnode)
  fresh := nofun

omit [DecidableEq ι] in
theorem processOk_returned {nodeID : Nat}
    (hprocess : node.process = engineProcess (.returned fresh nodeID))
    (hsilent : Silent c.attempts i node.boots) (hid : nodeID ∈ node.allocated)
    (hfresh : fresh = true → ∀ t ∈ c.attempts, t.nodeID ≠ nodeID) :
    ProcessOk (addr i) i c.consul c.attempts node := by
  unfold ProcessOk
  rw [hprocess, engineProcess, startEngine]
  cases hs : newSequencerWithNodeID nodeID with
  | none => trivial
  | some s =>
    obtain ⟨hle, rfl⟩ := newSequencerWithNodeID_eq_some hs
    exact ⟨hle, .inr hid, Nat.zero_le _, fun t ht hnode hboot => absurd hboot (hsilent t ht hnode),
      fun hf => ⟨hid, fun t ht heq => absurd heq (hfresh hf t ht)⟩⟩

-- A failed boot wins nothing.
theorem wonID_error (phase : BootPhase) : wonID phase .error = [] := by
  cases phase <;> rfl

theorem ClusterInv.boot (h : ClusterInv addr c) (hinj : Function.Injective addr) {phase : BootPhase}
    (hphase : (c.nodes i).process = .booting phase) {consul : Consul} {next : BootStep}
    (hedge : BootEdge (addr i) c.consul phase consul next) :
    ClusterInv addr
      { c with
        consul := consul
        nodes := update c.nodes i
          { c.nodes i with
            process := engineProcess next
            allocated := wonID phase next ++ (c.nodes i).allocated } } := by
  have hprocess := h.processes i
  unfold ProcessOk at hprocess
  rw [hphase] at hprocess
  obtain ⟨haddr, hsilent, hok⟩ := hprocess
  cases hedge with
  | failed =>
    rw [wonID_error]
    exact h.setNode rfl (Nat.le_refl _) (upOk_fallback _ _ hsilent)
  | found hid =>
    exact h.setNode rfl (Nat.le_refl _)
      (processOk_returned rfl hsilent (h.registry i _ hid) nofun)
  | absent | conflict => exact h.setNode rfl (Nat.le_refl _) ⟨haddr, hsilent, trivial⟩
  | read attempt =>
    exact h.setNode rfl (Nat.le_refl _) ⟨haddr, hsilent, _, seen_self _ _, rfl, rfl⟩
  | won attempt hversion =>
    obtain ⟨read, hseen, hcur, hidx⟩ := hok
    have hpair := hseen.unchanged (hversion.trans hidx)
    exact h.win haddr hsilent (by rw [hcur, hpair])
  | wonUnseen attempt hversion =>
    obtain ⟨read, hseen, hcur, hidx⟩ := hok
    have hpair := hseen.unchanged (hversion.trans hidx)
    rw [hcur, ← hpair]
    exact h.raise.setNode rfl (Nat.le_refl _) (upOk_fallback _ _ hsilent)
  | registered nodeID now =>
    exact (h.register hinj haddr hok.1 now).setNode rfl (Nat.le_refl _)
      (processOk_returned rfl hsilent hok.1 fun _ => hok.2)
  | registeredUnseen nodeID now =>
    exact (h.register hinj haddr hok.1 now).setNode rfl (Nat.le_refl _)
      (upOk_fallback _ _ hsilent)

def nextAttempt (i : ι) (node : Node) (s : Sequencer) : StoreAttempt ι where
  globalSeq := int64 (globalSeq s.nodeID (s.localSeq + 1))
  node := i
  boot := node.boots
  nodeID := s.nodeID
  localSeq := s.localSeq + 1

omit [DecidableEq ι] in
theorem ClusterInv.nextAttempt_new (h : ClusterInv addr c)
    (hup : UpOk c.attempts i (c.nodes i) fresh s) (hlt : s.localSeq + 1 < 2 ^ 40)
    (honly : OnlyBy c.attempts i (c.nodes i).boots s.nodeID) :
    ∀ t ∈ c.attempts, t.globalSeq ≠ (nextAttempt i (c.nodes i) s).globalSeq := by
  intro t ht heq
  have hold := h.attempts t ht
  have hseq : globalSeq t.nodeID t.localSeq = globalSeq s.nodeID (s.localSeq + 1) := by
    have hltOld := globalSeq_lt hold.nodeID_le
      (Nat.lt_trans hold.localSeq_lt (by decide : 2 ^ 40 < 2 ^ 64))
    have hltNew := globalSeq_lt hup.nodeID_le
      (Nat.lt_trans hlt (by decide : 2 ^ 40 < 2 ^ 64))
    rw [hold.globalSeq] at heq
    have huint := congrArg uint64 heq
    rwa [nextAttempt, uint64_int64 hltOld, uint64_int64 hltNew] at huint
  obtain ⟨hnode, hlocal⟩ := globalSeq_inj hold.localSeq_lt hlt hseq
  obtain ⟨hi, hboot⟩ := honly t ht hnode
  have hle := hup.rows_le t ht hi hboot
  omega

omit [DecidableEq ι] in
theorem ClusterInv.processOk_append (h : ClusterInv addr c) {j : ι} (hj : j ≠ i)
    {t : StoreAttempt ι} (hnode : t.node = i)
    (hallocated : t.nodeID = 0 ∨ t.nodeID ∈ (c.nodes i).allocated) :
    ProcessOk (addr j) j c.consul (c.attempts ++ [t]) (c.nodes j) := by
  have hforeign : ∀ k ∈ (c.nodes j).allocated, t.nodeID ≠ k := by
    intro k hk heq
    subst heq
    rcases hallocated with hzero | halloc
    · have := (h.allocated_lt j _ hk).1
      omega
    · exact hj (h.disjoint j i _ hk halloc)
  have hother : t.node ≠ j := fun heq => hj (heq.symm.trans hnode)
  have hprocess := h.processes j
  unfold ProcessOk at hprocess ⊢
  split
  next => trivial
  next phase hp =>
    rw [hp] at hprocess
    obtain ⟨haddr, hsilent, hok⟩ := hprocess
    refine ⟨haddr, ?_, ?_⟩
    · unfold Silent
      rw [forall_mem_append, forall_mem_singleton]
      exact ⟨hsilent, fun heq => absurd heq hother⟩
    · cases phase with
      | query | readCounter => trivial
      | cas => exact hok
      | put nodeID =>
        refine ⟨hok.1, ?_⟩
        rw [forall_mem_append, forall_mem_singleton]
        exact ⟨hok.2, hforeign _ hok.1⟩
  next fresh s hp =>
    rw [hp] at hprocess
    refine ⟨hprocess.nodeID_le, hprocess.allocated, hprocess.localSeq_le, ?_, ?_⟩
    · rw [forall_mem_append, forall_mem_singleton]
      exact ⟨hprocess.rows_le, fun heq => absurd heq hother⟩
    · intro hfresh
      obtain ⟨hid, honly⟩ := hprocess.fresh hfresh
      refine ⟨hid, ?_⟩
      unfold OnlyBy
      rw [forall_mem_append, forall_mem_singleton]
      exact ⟨honly, fun heq => absurd heq (hforeign _ hid)⟩

omit [DecidableEq ι] in
theorem ClusterInv.addAttempt (h : ClusterInv addr c) {t : StoreAttempt ι} (hnode : t.node = i)
    (hok : AttemptOk c.nodes t) (hnew : ∀ t' ∈ c.attempts, t'.globalSeq ≠ t.globalSeq)
    (hprocess : ProcessOk (addr i) i c.consul (c.attempts ++ [t]) (c.nodes i))
    (table : List (PersistentEvent τ)) :
    ClusterInv addr { c with table := table, attempts := c.attempts ++ [t] } := by
  refine ⟨h.offered_pos, h.allocated_lt, h.disjoint, h.registry, ?_, fun j => ?_, ?_⟩
  · rw [forall_mem_append, forall_mem_singleton]
    exact ⟨h.attempts, hok⟩
  · by_cases hj : j = i
    · subst hj
      exact hprocess
    · exact h.processOk_append hj hnode (hnode ▸ hok.allocated)
  · rw [map_append, map_singleton]
    refine List.nodup_append.mpr ⟨h.distinct, nodup_singleton _, fun a ha b hb => ?_⟩
    obtain ⟨t', ht', rfl⟩ := List.mem_map.mp ha
    rw [List.mem_singleton.mp hb]
    exact hnew t' ht'

omit [DecidableEq ι] in
/-- The sequencer of a process that is alone under its id moves on, and the row it stores is its
own. -/
theorem UpOk.draw {attempts : List (StoreAttempt ι)} {drawn : Nat}
    (h : UpOk attempts i node fresh s) (hdrawn : drawn = node.drawn + 1) (process : Process) :
    UpOk attempts i { node with process := process, drawn := drawn } fresh
      ⟨s.nodeID, s.localSeq + 1⟩ := by
  subst hdrawn
  exact ⟨h.nodeID_le, h.allocated, Nat.succ_le_succ h.localSeq_le,
    fun t ht hnode hboot => Nat.le_succ_of_le (h.rows_le t ht hnode hboot), h.fresh⟩

theorem ClusterInv.append (h : ClusterInv addr c) (hprocess : (c.nodes i).process = .up fresh s)
    (hdrawn : (c.nodes i).drawn + 1 < 2 ^ 40)
    (honly : OnlyBy c.attempts i (c.nodes i).boots s.nodeID) (table : List (PersistentEvent τ)) :
    ClusterInv addr
      { c with
        table := table
        nodes := update c.nodes i
          { c.nodes i with
            process := .up fresh ⟨s.nodeID, s.localSeq + 1⟩
            drawn := (c.nodes i).drawn + 1 }
        attempts := c.attempts ++ [nextAttempt i (c.nodes i) s] } := by
  have hup : UpOk c.attempts i (c.nodes i) fresh s := by
    have := h.processes i
    unfold ProcessOk at this
    rwa [hprocess] at this
  have hlt : s.localSeq + 1 < 2 ^ 40 := by
    have := hup.localSeq_le
    omega
  have hnew := h.nextAttempt_new hup hlt honly
  -- the node draws its number first, then the row is added
  have hdraw := hup.draw rfl (.up fresh ⟨s.nodeID, s.localSeq + 1⟩)
  have hnode : ClusterInv addr
      { c with
        nodes := update c.nodes i
          { c.nodes i with
            process := .up fresh ⟨s.nodeID, s.localSeq + 1⟩
            drawn := (c.nodes i).drawn + 1 } } := h.setNode rfl (Nat.le_refl _) hdraw
  refine hnode.addAttempt (i := i) rfl ?_ hnew ?_ table
  · refine ⟨rfl, hlt, hup.nodeID_le, ?_, ?_⟩
    · dsimp only [nextAttempt]
      rw [update_self]
      exact hup.allocated
    · dsimp only [nextAttempt]
      rw [update_self]
  · dsimp only
    rw [update_self]
    refine ⟨hdraw.nodeID_le, hdraw.allocated, hdraw.localSeq_le, ?_, fun hfresh => ?_⟩
    · rw [forall_mem_append, forall_mem_singleton]
      exact ⟨hdraw.rows_le, fun _ _ => Nat.le_refl _⟩
    · refine ⟨(hdraw.fresh hfresh).1, ?_⟩
      unfold OnlyBy
      rw [forall_mem_append, forall_mem_singleton]
      exact ⟨honly, fun _ => ⟨rfl, rfl⟩⟩

end

end CexHertz
