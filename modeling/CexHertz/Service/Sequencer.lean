import Mathlib.Data.Nat.Bitwise

/-!
# The sequencer

`sequencer.go`: a node id and an atomic counter.  Drawing is one atomic step, so a draw is a
function from a sequencer to the number and the next sequencer.
-/

namespace CexHertz

variable {nodeID localSeq : Nat} {s : Sequencer}

structure Sequencer where
  nodeID : Nat
  localSeq : Nat
  deriving DecidableEq, Repr

def newSequencer : Sequencer := ⟨0, 0⟩

def newSequencerWithNodeID (nodeID : Nat) : Option Sequencer :=
  if nodeID > 1023 then none else some ⟨nodeID &&& 0x3FF, 0⟩

/-- Node id in the high bits, forty bits of the counter below; without a node id the counter. -/
def globalSeq (nodeID localSeq : Nat) : Nat :=
  if nodeID = 0 then localSeq else (nodeID <<< 40) ||| (localSeq &&& 0xFFFFFFFFFF)

def Sequencer.nextGlobalSeq (s : Sequencer) : Nat × Sequencer :=
  let next := (s.localSeq + 1) % 2 ^ 64
  (globalSeq s.nodeID next, { s with localSeq := next })

/-! ## Packing -/

theorem globalSeq_zero (localSeq : Nat) : globalSeq 0 localSeq = localSeq := rfl

theorem globalSeq_eq (h : nodeID ≠ 0) (localSeq : Nat) :
    globalSeq nodeID localSeq = nodeID * 2 ^ 40 + localSeq % 2 ^ 40 := by
  have hmask := Nat.and_two_pow_sub_one_eq_mod localSeq 40
  unfold globalSeq
  rw [if_neg h, hmask, ← Nat.shiftLeft_add_eq_or_of_lt (Nat.mod_lt _ (by decide)), Nat.shiftLeft_eq]

theorem globalSeq_of_lt (nodeID : Nat) (h : localSeq < 2 ^ 40) :
    globalSeq nodeID localSeq = nodeID * 2 ^ 40 + localSeq := by
  by_cases hnode : nodeID = 0
  · subst hnode
    rw [globalSeq_zero]
    omega
  · rw [globalSeq_eq hnode, Nat.mod_eq_of_lt h]

-- While the counter has not left its forty bits, number and node can be read off.
theorem globalSeq_inj {nodeID' localSeq' : Nat} (h : localSeq < 2 ^ 40) (h' : localSeq' < 2 ^ 40)
    (heq : globalSeq nodeID localSeq = globalSeq nodeID' localSeq') :
    nodeID = nodeID' ∧ localSeq = localSeq' := by
  rw [globalSeq_of_lt _ h, globalSeq_of_lt _ h'] at heq
  omega

-- Away from the wrap-around the draw is a plain successor.
theorem nextGlobalSeq_of_lt (h : s.localSeq + 1 < 2 ^ 40) :
    s.nextGlobalSeq = (globalSeq s.nodeID (s.localSeq + 1), ⟨s.nodeID, s.localSeq + 1⟩) := by
  unfold Sequencer.nextGlobalSeq
  rw [Nat.mod_eq_of_lt (by omega)]

theorem newSequencerWithNodeID_eq_some (h : newSequencerWithNodeID nodeID = some s) :
    nodeID ≤ 1023 ∧ s = ⟨nodeID, 0⟩ := by
  unfold newSequencerWithNodeID at h
  split at h
  · cases h
  next hle =>
    have hmask : nodeID &&& 0x3FF = nodeID % 2 ^ 10 := Nat.and_two_pow_sub_one_eq_mod nodeID 10
    rw [hmask, Nat.mod_eq_of_lt (by omega)] at h
    cases h
    exact ⟨by omega, rfl⟩

theorem globalSeq_lt (hnode : nodeID ≤ 1023) (hlocal : localSeq < 2 ^ 64) :
    globalSeq nodeID localSeq < 2 ^ 64 := by
  by_cases h : nodeID = 0
  · subst h
    rwa [globalSeq_zero]
  · rw [globalSeq_eq h]
    omega

theorem nextGlobalSeq_lt (h : s.nodeID ≤ 1023) : s.nextGlobalSeq.1 < 2 ^ 64 :=
  globalSeq_lt h (Nat.mod_lt _ (by decide))

end CexHertz
