import CexHertz.Model.Event
import Mathlib.Data.List.Sublists
import Mathlib.Data.List.Perm.Basic
import Mathlib.Logic.Function.Basic

/-!
# The event pipeline

`dispatchToProcessorsInternal` hands an event to every processor, under the lock of the processor's
name and the symbol: one step, which skips an event whose number is not above the last one.
`dispatched` is the history of these steps, `given` the part in which the processor was called.
-/

namespace CexHertz

open List Function

abbrev Dispatch := Nat × MatchingEngineEvent

structure EventPipeline where
  /-- `processorOffsets`: processor name, symbol, last processed number. -/
  processorOffsets : String → String → Nat
  given : List Dispatch
  processed : List Dispatch
  dispatched : List Dispatch

open EventPipeline

def newEventPipeline : EventPipeline := ⟨fun _ _ => 0, [], [], []⟩

def setOffset (offsets : String → String → Nat) (name symbol : String) (seq : Nat) :
    String → String → Nat :=
  update offsets name (update (offsets name) symbol seq)

/-- The body of the goroutine for one processor; `err` is what its `ProcessEvent` answers. -/
def EventPipeline.dispatch (ep : EventPipeline) (i : Nat) (procName : String)
    (event : MatchingEngineEvent) (err : Option String) : EventPipeline :=
  let ep := { ep with dispatched := ep.dispatched ++ [(i, event)] }
  if event.eventSeq ≤ ep.processorOffsets procName event.symbol then ep
  else
    let ep := { ep with given := ep.given ++ [(i, event)] }
    match err with
    | some _ => ep
    | none =>
      { ep with
        processorOffsets :=
          setOffset ep.processorOffsets procName event.symbol event.eventSeq
        processed := ep.processed ++ [(i, event)] }

def eventsAt (i : Nat) (ds : List Dispatch) : List MatchingEngineEvent :=
  (ds.filter fun d => d.1 = i).map Prod.snd

section

variable (nameOf : Nat → String)

def seqsFor (name symbol : String) (ds : List Dispatch) : List Nat :=
  (ds.filter fun d => nameOf d.1 = name ∧ d.2.symbol = symbol).map fun d => d.2.eventSeq

/-- Under every processor name and for every symbol the dispatches come in increasing order of the
sequence numbers, the first above zero. -/
def InOrder (ds : List Dispatch) : Prop :=
  ∀ name symbol, (0 :: seqsFor nameOf name symbol ds).Pairwise (· < ·)

end

/-! ## Dispatching without processor errors -/

section

variable {nameOf : Nat → String} {ep : EventPipeline} {ds : List Dispatch}

def EventPipeline.dispatchAll (nameOf : Nat → String) (ds : List Dispatch) : EventPipeline :=
  ds.foldl (fun ep d => ep.dispatch d.1 (nameOf d.1) d.2 none) newEventPipeline

theorem dispatchAll_append (ds : List Dispatch) (d : Dispatch) : dispatchAll nameOf (ds ++ [d]) =
      (dispatchAll nameOf ds).dispatch d.1 (nameOf d.1) d.2 none := by
  rw [dispatchAll, foldl_append]
  rfl

@[simp] theorem dispatch_dispatched (ep : EventPipeline) (i : Nat) (name : String)
    (e : MatchingEngineEvent) (err : Option String) :
    (ep.dispatch i name e err).dispatched = ep.dispatched ++ [(i, e)] := by
  unfold dispatch
  dsimp only
  split
  · rfl
  · cases err <;> rfl

theorem dispatchAll_dispatched (ds : List Dispatch) : (dispatchAll nameOf ds).dispatched = ds := by
  induction ds using List.reverseRecOn with
  | nil => rfl
  | append_singleton ds d ih => rw [dispatchAll_append, dispatch_dispatched, ih]

theorem dispatch_cases (ep : EventPipeline) (i : Nat) (name : String) (e : MatchingEngineEvent) :
    (e.eventSeq ≤ ep.processorOffsets name e.symbol ∧ (ep.dispatch i name e none).given = ep.given ∧
      (ep.dispatch i name e none).processorOffsets = ep.processorOffsets) ∨
    (ep.processorOffsets name e.symbol < e.eventSeq ∧
      (ep.dispatch i name e none).given = ep.given ++ [(i, e)] ∧
      (ep.dispatch i name e none).processorOffsets =
        setOffset ep.processorOffsets name e.symbol e.eventSeq) := by
  unfold dispatch
  dsimp only
  split
  next h => exact .inl ⟨h, rfl, rfl⟩
  next h => exact .inr ⟨by omega, rfl, rfl⟩

theorem dispatch_processed_cases (ep : EventPipeline) (i : Nat) (name : String)
    (e : MatchingEngineEvent) (err : Option String) :
    ((e.eventSeq ≤ ep.processorOffsets name e.symbol ∨ err ≠ none) ∧
      (ep.dispatch i name e err).processed = ep.processed ∧
      (ep.dispatch i name e err).processorOffsets = ep.processorOffsets) ∨
    (ep.processorOffsets name e.symbol < e.eventSeq ∧ err = none ∧
      (ep.dispatch i name e err).processed = ep.processed ++ [(i, e)] ∧
      (ep.dispatch i name e err).processorOffsets =
        setOffset ep.processorOffsets name e.symbol e.eventSeq) := by
  unfold dispatch
  dsimp only
  split
  next h => exact .inl ⟨.inl h, rfl, rfl⟩
  next h =>
    cases err with
    | some err => exact .inl ⟨.inr nofun, rfl, rfl⟩
    | none => exact .inr ⟨by omega, rfl, rfl, rfl⟩

-- Skipping is the only thing that can happen to a dispatch.
theorem dispatchAll_given_sublist (ds : List Dispatch) :
    (dispatchAll nameOf ds).given.Sublist ds := by
  induction ds using List.reverseRecOn with
  | nil => exact .slnil
  | append_singleton ds d ih =>
    rw [dispatchAll_append]
    rcases dispatch_cases (dispatchAll nameOf ds) d.1 (nameOf d.1) d.2 with
      ⟨-, hg, -⟩ | ⟨-, hg, -⟩
    · rw [hg]
      exact ih.trans (sublist_append_left _ _)
    · rw [hg]
      exact ih.append (.refl _)

theorem dispatchAll_given_ne_append (ds : List Dispatch) (d : Dispatch) :
    (dispatchAll nameOf ds).given ≠ ds ++ [d] := by
  intro h
  have hsub : (dispatchAll nameOf ds).given.Sublist ds := dispatchAll_given_sublist ds
  have hlen := hsub.length_le
  rw [h, length_append, length_singleton] at hlen
  omega

theorem setOffset_apply (offsets : String → String → Nat) (name symbol : String) (seq : Nat)
    (name' symbol' : String) :
    setOffset offsets name symbol seq name' symbol' =
      if name = name' ∧ symbol = symbol' then seq else offsets name' symbol' := by
  unfold setOffset
  by_cases hname : name = name'
  · subst hname
    rw [update_self]
    by_cases hsymbol : symbol = symbol'
    · subst hsymbol
      rw [update_self, if_pos ⟨rfl, rfl⟩]
    · rw [update_of_ne (Ne.symm hsymbol), if_neg fun h => hsymbol h.2]
  · rw [update_of_ne (Ne.symm hname), if_neg fun h => hname h.1]

theorem seqsFor_append (name symbol : String) (ds : List Dispatch) (d : Dispatch) :
    seqsFor nameOf name symbol (ds ++ [d]) = seqsFor nameOf name symbol ds ++
        if nameOf d.1 = name ∧ d.2.symbol = symbol then [d.2.eventSeq] else [] := by
  unfold seqsFor
  rw [filter_append, map_append]
  congr 1
  split
  next h => simp [h]
  next h => simp [h]

theorem inOrder_nil : InOrder nameOf [] := fun _ _ => pairwise_singleton _ _

theorem inOrder_of_pairwise (h : (0 :: ds.map fun d => d.2.eventSeq).Pairwise (· < ·)) :
    InOrder nameOf ds := by
  intro name symbol
  exact h.sublist ((filter_sublist.map _).cons_cons 0)

theorem InOrder.of_append {d : Dispatch} (h : InOrder nameOf (ds ++ [d])) : InOrder nameOf ds := by
  intro name symbol
  have hsub : (0 :: seqsFor nameOf name symbol ds).Sublist
      (0 :: seqsFor nameOf name symbol (ds ++ [d])) := by
    rw [seqsFor_append]
    exact (sublist_append_left _ _).cons_cons _
  exact (h name symbol).sublist hsub

def Latest (offset : Nat) (seqs : List Nat) : Prop :=
  offset ∈ 0 :: seqs ∧ ∀ m ∈ 0 :: seqs, m ≤ offset

-- An event that is not skipped becomes the latest.
theorem Latest.push {offset seq : Nat} {seqs : List Nat} (h : Latest offset seqs)
    (hlt : offset < seq) : Latest seq (seqs ++ [seq]) := by
  refine ⟨.tail _ (mem_append_right _ mem_cons_self), fun m hm => ?_⟩
  rw [← cons_append] at hm
  rcases mem_append.mp hm with hm | hm
  · exact (h.2 m hm).trans hlt.le
  · exact (mem_singleton.mp hm).le

theorem Latest.pairwise_push {offset seq : Nat} {seqs : List Nat} (h : Latest offset seqs)
    (hseqs : (0 :: seqs).Pairwise (· < ·)) (hlt : offset < seq) :
    (0 :: (seqs ++ [seq])).Pairwise (· < ·) := by
  rw [← cons_append, pairwise_append]
  refine ⟨hseqs, pairwise_singleton _ _, fun m hm n hn => ?_⟩
  rw [mem_singleton.mp hn]
  exact (h.2 m hm).trans_lt hlt

/-- The successes under every name and for every symbol come in increasing order, and the offset is
the latest of them. -/
def ProcessedInOrder (nameOf : Nat → String) (ep : EventPipeline) : Prop :=
  ∀ name symbol,
    Latest (ep.processorOffsets name symbol) (seqsFor nameOf name symbol ep.processed) ∧
    (0 :: seqsFor nameOf name symbol ep.processed).Pairwise (· < ·)

theorem processedInOrder_new : ProcessedInOrder nameOf newEventPipeline :=
  fun _ _ => ⟨⟨mem_cons_self, fun _ hm => (mem_singleton.mp hm).le⟩, pairwise_singleton _ _⟩

theorem ProcessedInOrder.dispatch (h : ProcessedInOrder nameOf ep) (i : Nat)
    (e : MatchingEngineEvent) (err : Option String) :
    ProcessedInOrder nameOf (ep.dispatch i (nameOf i) e err) := by
  intro name symbol
  obtain ⟨hlatest, hpairwise⟩ := h name symbol
  rcases dispatch_processed_cases ep i (nameOf i) e err with ⟨-, hp, ho⟩ | ⟨hlt, -, hp, ho⟩
  · rw [hp, ho]
    exact ⟨hlatest, hpairwise⟩
  · rw [hp, ho, seqsFor_append, setOffset_apply]
    split
    next heq =>
      obtain ⟨rfl, rfl⟩ := heq
      exact ⟨hlatest.push hlt, hlatest.pairwise_push hpairwise hlt⟩
    next =>
      rw [append_nil]
      exact ⟨hlatest, hpairwise⟩

theorem latest_of_given (hgiven : (dispatchAll nameOf ds).given = ds)
    (name symbol : String) :
    Latest ((dispatchAll nameOf ds).processorOffsets name symbol)
      (seqsFor nameOf name symbol ds) := by
  induction ds using List.reverseRecOn with
  | nil => exact ⟨mem_cons_self, fun m hm => (mem_singleton.mp hm).le⟩
  | append_singleton ds d ih =>
    rw [dispatchAll_append] at hgiven ⊢
    rcases dispatch_cases (dispatchAll nameOf ds) d.1 (nameOf d.1) d.2 with
      ⟨-, hg, -⟩ | ⟨hlt, hg, ho⟩
    · exact absurd (hg.symm.trans hgiven) (dispatchAll_given_ne_append ds d)
    · rw [hg] at hgiven
      have hlatest := ih (append_inj_left' hgiven rfl)
      rw [ho, seqsFor_append, setOffset_apply]
      split
      next heq =>
        obtain ⟨rfl, rfl⟩ := heq
        exact hlatest.push hlt
      next =>
        rwa [append_nil]

theorem dispatchAll_given_eq_iff : (dispatchAll nameOf ds).given = ds ↔ InOrder nameOf ds := by
  induction ds using List.reverseRecOn with
  | nil => exact ⟨fun _ => inOrder_nil, fun _ => rfl⟩
  | append_singleton ds d ih =>
    rw [dispatchAll_append]
    rcases dispatch_cases (dispatchAll nameOf ds) d.1 (nameOf d.1) d.2 with
      ⟨hle, hg, -⟩ | ⟨hlt, hg, -⟩
    · constructor
      · exact fun h => absurd (hg.symm.trans h) (dispatchAll_given_ne_append ds d)
      · intro h
        have hlatest := latest_of_given (ih.mpr h.of_append) (nameOf d.1) d.2.symbol
        have hpair := h (nameOf d.1) d.2.symbol
        rw [seqsFor_append, if_pos ⟨rfl, rfl⟩, ← cons_append, pairwise_append] at hpair
        have hlt := hpair.2.2 _ hlatest.1 _ mem_cons_self
        omega
    · rw [hg]
      constructor
      · intro h
        have hgiven := append_inj_left' h rfl
        intro name symbol
        rw [seqsFor_append]
        split
        next heq =>
          obtain ⟨rfl, rfl⟩ := heq
          exact (latest_of_given hgiven _ _).pairwise_push (ih.mp hgiven _ _) hlt
        next =>
          rw [append_nil]
          exact ih.mp hgiven name symbol
      · intro h
        rw [ih.mpr h.of_append]

-- Counting at one processor is counting pairs.
theorem count_eventsAt (i : Nat) (e : MatchingEngineEvent) (ds : List Dispatch) :
    (eventsAt i ds).count e = ds.count (i, e) := by
  unfold eventsAt
  induction ds with
  | nil => rfl
  | cons d ds ih =>
    obtain ⟨j, e'⟩ := d
    by_cases hj : j = i
    · subst hj
      simp only [filter_cons, decide_true, if_true, map_cons, count_cons, ih]
      simp
    · simp [hj, ih]

theorem given_eq_of_perm {given : List Dispatch} (hsub : given.Sublist ds) {n : Nat}
    (hbound : ∀ d ∈ ds, d.1 < n) (hperm : ∀ i < n, (eventsAt i given).Perm (eventsAt i ds)) :
    given = ds := by
  have hcount : given.Perm ds := by
    rw [perm_iff_count]
    rintro ⟨i, e⟩
    by_cases hi : i < n
    · rw [← count_eventsAt, ← count_eventsAt, (hperm i hi).count_eq]
    · have hnot : (i, e) ∉ ds := fun hmem => hi (hbound _ hmem)
      rw [count_eq_zero_of_not_mem hnot,
        count_eq_zero_of_not_mem fun hmem => hnot (hsub.subset hmem)]
  exact hsub.eq_of_length hcount.length_eq

end

end CexHertz
