import CexHertz.Service.ClusterInvariant

/-!
# Sequence numbers across the cluster

Processes under an id they allocated themselves cannot collide. One that took its id from the
registry, or runs without one, counts from zero again: it must be the first to store rows under that
id.
-/

namespace CexHertz

open Json Versioned Cluster

variable {ι τ : Type}

/-! ## Runs -/

variable [DecidableEq ι]

def Cluster.Bounded (c : Cluster ι τ) : ClusterAction ι → Prop
  | .draw i => (c.nodes i).drawn + 1 < 2 ^ 40
  | .append i _ _ => (c.nodes i).drawn + 1 < 2 ^ 40
  | _ => True

/-- A process that did not allocate its id itself stores rows only if no other process has stored
any under this id. -/
def MayStore (attempts : List (StoreAttempt ι)) (i : ι) (boot : Nat) : Process → Prop
  | .up false s => OnlyBy attempts i boot s.nodeID
  | _ => True

def Cluster.Exclusive (addr : ι → String) (c : Cluster ι τ) : ClusterAction ι → Prop
  | .start i => addr i ≠ "next_id"
  | .append i _ _ => MayStore c.attempts i (c.nodes i).boots (c.nodes i).process
  | _ => True

instance (c : Cluster ι τ) (action : ClusterAction ι) : Decidable (c.Bounded action) := by
  cases action <;> (unfold Cluster.Bounded; infer_instance)

instance (attempts : List (StoreAttempt ι)) (i : ι) (boot nodeID : Nat) :
    Decidable (OnlyBy attempts i boot nodeID) :=
  inferInstanceAs (Decidable (∀ t ∈ attempts, t.nodeID = nodeID → t.node = i ∧ t.boot = boot))

instance (attempts : List (StoreAttempt ι)) (i : ι) (boot : Nat) :
    DecidablePred (MayStore attempts i boot)
  | .down => inferInstanceAs (Decidable True)
  | .booting _ => inferInstanceAs (Decidable True)
  | .up true _ => inferInstanceAs (Decidable True)
  | .up false s => inferInstanceAs (Decidable (OnlyBy attempts i boot s.nodeID))

instance (addr : ι → String) (c : Cluster ι τ) (action : ClusterAction ι) :
    Decidable (c.Exclusive addr action) := by
  cases action <;> (unfold Cluster.Exclusive; infer_instance)

section

variable {J : Encoding τ} {addr : ι → String} {c c' : Cluster ι τ} {action : ClusterAction ι}

omit [DecidableEq ι] in
theorem ClusterInv.onlyBy (h : ClusterInv addr c) {i : ι} {fresh : Bool} {s : Sequencer}
    (hprocess : (c.nodes i).process = .up fresh s) {event : MatchingEngineEvent}
    {input : WriteInput} (hexclusive : c.Exclusive addr (.append i event input)) :
    OnlyBy c.attempts i (c.nodes i).boots s.nodeID := by
  cases fresh with
  | false =>
    rw [Cluster.Exclusive, hprocess] at hexclusive
    exact hexclusive
  | true =>
    have hup := h.processes i
    unfold ProcessOk at hup
    rw [hprocess] at hup
    exact (hup.fresh rfl).2

theorem ClusterInv.step (h : ClusterInv addr c) (hinj : Function.Injective addr)
    (hbounded : c.Bounded action) (hexclusive : c.Exclusive addr action)
    (hstep : c.step J addr action = some c') : ClusterInv addr c' := by
  cases action with
  | start i =>
    rw [step] at hstep
    split at hstep
    · cases hstep
      refine h.setNode rfl (Nat.le_succ _) ⟨hexclusive, ?_, trivial⟩
      -- no row can be from the boot that starts now
      intro t ht hnode hboot
      have hle := (h.attempts t ht).boot_le
      rw [hnode] at hle
      change t.boot = (c.nodes i).boots + 1 at hboot
      omega
    · cases hstep
  | boot i result now =>
    rw [step] at hstep
    split at hstep
    next phase hphase =>
      cases hstep
      exact h.boot hinj hphase (bootStep_edge _ _ _ _ _)
    next => cases hstep
  | crash i =>
    cases hstep
    exact h.setNode rfl (Nat.le_refl _) trivial
  | draw i =>
    rw [step] at hstep
    split at hstep
    next fresh s hprocess =>
      cases hstep
      have hup := h.processes i
      unfold ProcessOk at hup
      rw [hprocess] at hup
      change (c.nodes i).drawn + 1 < 2 ^ 40 at hbounded
      have hle := hup.localSeq_le
      refine h.setNode rfl (Nat.le_refl _) ?_
      rw [nextGlobalSeq_of_lt (by omega)]
      exact ⟨hup.nodeID_le, hup.allocated, Nat.succ_le_succ hle,
        fun t ht hnode hboot => Nat.le_succ_of_le (hup.rows_le t ht hnode hboot), hup.fresh⟩
    next => cases hstep
  | append i event input =>
    rw [step] at hstep
    split at hstep
    next fresh s hprocess =>
      have hup := h.processes i
      unfold ProcessOk at hup
      rw [hprocess] at hup
      change (c.nodes i).drawn + 1 < 2 ^ 40 at hbounded
      have hle := hup.localSeq_le
      have honly := h.onlyBy hprocess hexclusive
      dsimp only at hstep
      rw [appendEvent_sequencer, show (newPostgresEventLog c.table s).sequencer = s from rfl,
        nextGlobalSeq_of_lt (by omega)] at hstep
      cases hstep
      exact h.append hprocess hbounded honly _
    next => cases hstep

end

/-- In every run of the cluster in which a process that did not allocate its id itself is the only
one to store rows under it, no two appends try to store the same number. -/
theorem stored_numbers_distinct (J : Encoding τ) {addr : ι → String}
    (hinj : Function.Injective addr) {c : Cluster ι τ}
    (h : Run.Reaches (step J addr) (fun c a => c.Bounded a ∧ c.Exclusive addr a)
      newCluster c) : (c.attempts.map (·.globalSeq)).Nodup := by
  have hinv : ClusterInv addr c := h.invariant (newCluster_inv addr)
    fun _ _ _ hs hallowed hstep => hs.step hinj hallowed.1 hallowed.2 hstep
  exact hinv.distinct

/-! ## Two nodes, and a restart -/

def firstBoot (i : ι) : List (ClusterAction ι) :=
  [.start i, .boot i .ok 0, .boot i .ok 0, .boot i .ok 0, .boot i .ok 0]

def someEvent : MatchingEngineEvent :=
  .orderCancelled { seq := 1, timestamp := 5, orderID := "o1", symbolStr := "BTC", reason := "" }

def storeBy (i : ι) : ClusterAction ι := .append i someEvent ⟨0, none⟩

def twoAddresses : Bool → String
  | false => "a:9001"
  | true => "b:9001"

/-- Two nodes boot and store a row each. -/
theorem twoNodes_distinct : ∃ c, Run.Reaches (step Encoding.value twoAddresses)
        (fun c a => c.Bounded a ∧ c.Exclusive twoAddresses a) newCluster c ∧
      c.attempts.map (·.globalSeq) = [2 ^ 40 + 1, 2 * 2 ^ 40 + 1] ∧
      (c.attempts.map (·.globalSeq)).Nodup := by
  refine Run.exists_reaches (firstBoot false ++ [storeBy false] ++ firstBoot true ++ [storeBy true])
    (P := fun c => c.attempts.map (·.globalSeq) = [2 ^ 40 + 1, 2 * 2 ^ 40 + 1]) (by decide +kernel)
    fun _ hreach htest => ?_
  have hinj : Function.Injective twoAddresses := by
    unfold Function.Injective
    decide
  exact ⟨htest, stored_numbers_distinct Encoding.value hinj hreach⟩

/-- A node stores a row, crashes, finds its id in the registry and counts from zero again. -/
theorem restart_repeats_number : ∃ c, Run.Reaches (step Encoding.value fun _ : Unit => "a:9001")
        (fun c a => c.Bounded a) newCluster c ∧
      c.attempts.map (·.globalSeq) = [2 ^ 40 + 1, 2 ^ 40 + 1] ∧
      ¬ (c.attempts.map (·.globalSeq)).Nodup := by
  refine Run.exists_reaches
    (firstBoot () ++ [storeBy (), .crash (), .start (), .boot () .ok 0, storeBy ()])
    (P := fun c => c.attempts.map (·.globalSeq) = [2 ^ 40 + 1, 2 ^ 40 + 1]) (by decide +kernel)
    fun _ _ hrows => ?_
  refine ⟨hrows, ?_⟩
  rw [hrows]
  decide

end CexHertz
