import CexHertz.Service.PostgresEventLog

/-!
# Numbers drawn across a cluster

The calls of `NextGlobalSeq` on any number of nodes, in the order in which their atomic `Add`s take
effect.  While no node has drawn `2 ^ 40` numbers, a number is its node and its counter.
-/

namespace CexHertz

open Function List

variable {ι : Type} [DecidableEq ι] {sequencers : ι → Sequencer} {calls : List ι} {ids : ι → Nat}

/-- A call: the node it was made on, what the `Add` returned, and the number. -/
structure Draw (ι : Type) where
  node : ι
  localSeq : Nat
  seq : Nat
  deriving DecidableEq

def drawAll (sequencers : ι → Sequencer) : List ι → List (Draw ι)
  | [] => []
  | i :: calls =>
    let (seq, next) := (sequencers i).nextGlobalSeq
    ⟨i, next.localSeq, seq⟩ :: drawAll (update sequencers i next) calls

/-- Numbers of nodes with the given ids, in the order of the calls. -/
structure Packed (ids : ι → Nat) (draws : List (Draw ι)) : Prop where
  distinct : (draws.map Draw.seq).Nodup
  increasing : draws.Pairwise fun d d' => d.node = d'.node → d.seq < d'.seq
  positive : ∀ d ∈ draws, 0 < d.seq
  small : ∀ d ∈ draws, d.seq < 2 ^ 50 ∧ int64 d.seq = d.seq
  recovered : ∀ d ∈ draws, d.seq >>> 40 = ids d.node ∧ d.seq &&& (2 ^ 40 - 1) = d.localSeq
  ordered : ∀ d ∈ draws, ∀ d' ∈ draws, d.seq < d'.seq ↔
    ids d.node < ids d'.node ∨ ids d.node = ids d'.node ∧ d.localSeq < d'.localSeq

structure DrawnBy (sequencers : ι → Sequencer) (d : Draw ι) : Prop where
  seq : d.seq = (sequencers d.node).nodeID * 2 ^ 40 + d.localSeq
  after : (sequencers d.node).localSeq < d.localSeq
  small : d.localSeq < 2 ^ 40

theorem drawAll_spec (h : ∀ i, (sequencers i).localSeq + calls.count i < 2 ^ 40) :
    (∀ d ∈ drawAll sequencers calls, DrawnBy sequencers d) ∧
    (drawAll sequencers calls).Pairwise
      fun d d' => d.node = d'.node → d.localSeq < d'.localSeq := by
  induction calls generalizing sequencers with
  | nil => exact ⟨nofun, .nil⟩
  | cons i calls ih =>
    have hi := h i
    rw [count_cons_self] at hi
    unfold drawAll
    rw [nextGlobalSeq_of_lt (by omega)]
    set next := update sequencers i ⟨(sequencers i).nodeID, (sequencers i).localSeq + 1⟩ with hnext
    have hself : next i = ⟨(sequencers i).nodeID, (sequencers i).localSeq + 1⟩ := update_self _ _ _
    have hother : ∀ {j}, j ≠ i → next j = sequencers j := fun hne => update_of_ne hne _ _
    have hroom : ∀ j, (next j).localSeq + calls.count j < 2 ^ 40 := by
      intro j
      rcases eq_or_ne j i with rfl | hne
      · rw [hself]
        dsimp only
        omega
      · have hj := h j
        rw [count_cons_of_ne hne.symm] at hj
        rwa [hother hne]
    obtain ⟨hdrawn, hpairs⟩ := ih hroom
    refine ⟨fun d hd => ?_, pairwise_cons.mpr ⟨fun d hd hnode => ?_, hpairs⟩⟩
    · rcases mem_cons.mp hd with rfl | hd
      · exact ⟨globalSeq_of_lt _ (by omega), Nat.lt_succ_self _, by dsimp only; omega⟩
      · obtain ⟨hseq, hafter, hsmall⟩ := hdrawn d hd
        rcases eq_or_ne d.node i with heq | hne
        · rw [heq, hself] at hseq hafter
          exact ⟨heq ▸ hseq, heq ▸ Nat.lt_of_succ_lt hafter, hsmall⟩
        · rw [hother hne] at hseq hafter
          exact ⟨hseq, hafter, hsmall⟩
    · have hafter := (hdrawn d hd).after
      rwa [← hnode, hself] at hafter

/-- Whatever nodes with different ids draw, in whatever order: the numbers are positive, below
`2 ^ 50`, all different, ascending on each node, and node and counter can be read off them. -/
theorem drawn_numbers_packed (hids : Injective ids)
    (hnew : ∀ i, newSequencerWithNodeID (ids i) = some (sequencers i))
    (hcalls : ∀ i, calls.count i < 2 ^ 40) : Packed ids (drawAll sequencers calls) := by
  have hstart : ∀ i, ids i ≤ 1023 ∧ sequencers i = ⟨ids i, 0⟩ :=
    fun i => newSequencerWithNodeID_eq_some (hnew i)
  have hroom : ∀ i, (sequencers i).localSeq + calls.count i < 2 ^ 40 := by
    intro i
    rw [(hstart i).2]
    simpa using hcalls i
  obtain ⟨hdrawn, hpairs⟩ := drawAll_spec hroom
  have hnumber : ∀ d ∈ drawAll sequencers calls, ids d.node ≤ 1023 ∧
      d.seq = ids d.node * 2 ^ 40 + d.localSeq ∧ 0 < d.localSeq ∧ d.localSeq < 2 ^ 40 := by
    intro d hd
    obtain ⟨hseq, hafter, hsmall⟩ := hdrawn d hd
    rw [(hstart d.node).2] at hseq hafter
    exact ⟨(hstart d.node).1, hseq, hafter, hsmall⟩
  refine ⟨pairwise_map.mpr ?_, ?_, fun d hd => ?_, fun d hd => ?_, fun d hd => ?_,
    fun d hd d' hd' => ?_⟩
  · refine hpairs.imp_of_mem fun {d d'} hd hd' hless heq => ?_
    obtain ⟨-, hseq, -, hsmall⟩ := hnumber d hd
    obtain ⟨-, hseq', -, hsmall'⟩ := hnumber d' hd'
    have hsame : ids d.node = ids d'.node := by omega
    have := hless (hids hsame)
    omega
  · refine hpairs.imp_of_mem fun {d d'} hd hd' hless hnode => ?_
    have := hless hnode
    rw [(hnumber d hd).2.1, (hnumber d' hd').2.1, hnode]
    omega
  · obtain ⟨-, hseq, hpos, -⟩ := hnumber d hd
    omega
  · obtain ⟨hid, hseq, -, hsmall⟩ := hnumber d hd
    exact ⟨by omega, int64_of_small (by omega)⟩
  · obtain ⟨-, hseq, -, hsmall⟩ := hnumber d hd
    rw [Nat.shiftRight_eq_div_pow, Nat.and_two_pow_sub_one_eq_mod]
    omega
  · obtain ⟨-, hseq, -, hsmall⟩ := hnumber d hd
    obtain ⟨-, hseq', -, hsmall'⟩ := hnumber d' hd'
    omega

/-- Two nodes in turn, one of them without a node id. -/
theorem drawn_by_two_nodes : drawAll (fun i : Bool => ⟨if i then 7 else 0, 0⟩) [true, false, true] =
        [⟨true, 1, 7 * 2 ^ 40 + 1⟩, ⟨false, 1, 1⟩, ⟨true, 2, 7 * 2 ^ 40 + 2⟩] ∧
      Packed (fun i : Bool => if i then 7 else 0)
        (drawAll (fun i : Bool => ⟨if i then 7 else 0, 0⟩) [true, false, true]) :=
  ⟨by decide +kernel, drawn_numbers_packed (by unfold Injective; decide) (by decide) (by decide)⟩

end CexHertz
