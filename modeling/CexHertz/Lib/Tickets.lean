import Mathlib.Data.List.Nodup

/-!
# Tickets

Parties draw numbered tickets, record them and then queue them by key, each in a step of its own. If
a party queues its ticket only when no ticket of the same key with a smaller number is on its way,
every queue is in the order of the numbers, and a key with nothing on its way has in its queue what
the record says.
-/

namespace CexHertz.Tickets

open Function List

variable {ι κ τ : Type*}

/-- Tickets on their way, with whether they have been recorded; the record; everything queued so
far; and a bound on the numbers that were handed out. -/
structure State (ι κ τ : Type*) where
  way : ι → Option (τ × Bool)
  record : List τ
  queue : κ → List τ
  last : Nat

variable (number : τ → Nat) (key : τ → κ)

inductive Step [DecidableEq ι] [DecidableEq κ] (s : State ι κ τ) : State ι κ τ → Prop
  | draw (i : ι) (t : τ) : s.way i = none → s.last < number t →
      Step s { s with way := update s.way i (some (t, false)), last := number t }
  | record (i : ι) (t : τ) (n : Nat) : s.way i = some (t, false) → s.last ≤ n → Step s { s with
        way := update s.way i (some (t, true))
        record := s.record ++ [t]
        last := n }
  | drop (i : ι) (t : τ) (n : Nat) : s.way i = some (t, false) → s.last ≤ n →
      Step s { s with way := update s.way i none, last := n }
  | enqueue (i : ι) (t : τ) : s.way i = some (t, true) →
      (∀ j u b, s.way j = some (u, b) → key u = key t → number t ≤ number u) →
      Step s { s with
        way := update s.way i none
        queue := update s.queue (key t) (s.queue (key t) ++ [t]) }
  | tick (n : Nat) : s.last ≤ n → Step s { s with last := n }

structure Ok (s : State ι κ τ) : Prop where
  way_le : ∀ i t b, s.way i = some (t, b) → number t ≤ s.last
  queue_le : ∀ k, ∀ t ∈ s.queue k, number t ≤ s.last
  distinct : ∀ i j t u b c, s.way i = some (t, b) → s.way j = some (u, c) →
    number t = number u → i = j
  behind : ∀ i t b, s.way i = some (t, b) → ∀ u ∈ s.queue (key t), number u < number t
  ascending : ∀ k, (s.queue k).Pairwise fun t u => number t < number u
  keyed : ∀ k, ∀ t ∈ s.queue k, key t = k
  way_recorded : ∀ i t, s.way i = some (t, true) → t ∈ s.record
  queue_recorded : ∀ k, ∀ t ∈ s.queue k, t ∈ s.record
  covered : ∀ t ∈ s.record, t ∈ s.queue (key t) ∨ ∃ i, s.way i = some (t, true)
  nodup : s.record.Nodup

variable {number key} {s s' : State ι κ τ}

theorem ok_empty (last : Nat) :
    Ok number key (⟨fun _ => none, [], fun _ => [], last⟩ : State ι κ τ) where
  way_le := nofun
  queue_le := nofun
  distinct := nofun
  behind := nofun
  ascending := fun _ => List.Pairwise.nil
  keyed := nofun
  way_recorded := nofun
  queue_recorded := nofun
  covered := nofun
  nodup := nodup_nil

theorem Ok.not_recorded (h : Ok number key s) {i : ι} {t : τ} (hi : s.way i = some (t, false)) :
    t ∉ s.record := by
  intro hmem
  rcases h.covered t hmem with hqueue | ⟨j, hj⟩
  · exact absurd (h.behind i t false hi t hqueue) (Nat.lt_irrefl _)
  · rw [h.distinct i j t t _ _ hi hj rfl, hj] at hi
    cases hi

/-! ## One step -/

section

variable [DecidableEq ι]

-- What is on its way after one party's slot was written.
theorem way_update {way : ι → Option (τ × Bool)} {i j : ι} {new : Option (τ × Bool)}
    {p : τ × Bool} (h : update way i new j = some p) :
    j = i ∧ new = some p ∨ j ≠ i ∧ way j = some p := by
  rcases eq_or_ne j i with rfl | hne
  · rw [update_self] at h
    exact .inl ⟨rfl, h⟩
  · rw [update_of_ne hne] at h
    exact .inr ⟨hne, h⟩

-- Tickets that are recorded and on their way elsewhere stay there.
theorem Ok.covered_update (h : Ok number key s) {i : ι} (hi : ∀ u, s.way i ≠ some (u, true))
    (new : Option (τ × Bool)) :
    ∀ u ∈ s.record, u ∈ s.queue (key u) ∨
      ∃ j, update s.way i new j = some (u, true) := by
  intro u hu
  rcases h.covered u hu with hu | ⟨j, hj⟩
  · exact .inl hu
  · refine .inr ⟨j, ?_⟩
    rw [← hj]
    exact update_of_ne (by rintro rfl; exact hi u hj) _ _

theorem Ok.draw (h : Ok number key s) {i : ι} {t : τ} (hi : s.way i = none)
    (ht : s.last < number t) :
    Ok number key { s with
      way := update s.way i (some (t, false)), last := number t } where
  way_le := by
    intro j u b hj
    rcases way_update hj with ⟨-, heq⟩ | ⟨-, hj⟩
    · cases heq
      exact Nat.le_refl _
    · exact Nat.le_trans (h.way_le j u b hj) (Nat.le_of_lt ht)
  queue_le := fun k u hu => Nat.le_trans (h.queue_le k u hu) (Nat.le_of_lt ht)
  distinct := by
    intro j j' u u' b b' hj hj' heq
    rcases way_update hj with ⟨hji, hu⟩ | ⟨-, hold⟩
    · rcases way_update hj' with ⟨hji', -⟩ | ⟨-, hold'⟩
      · exact hji.trans hji'.symm
      · cases hu
        have hle := h.way_le j' u' b' hold'
        omega
    · rcases way_update hj' with ⟨-, hu'⟩ | ⟨-, hold'⟩
      · cases hu'
        have hle := h.way_le j u b hold
        omega
      · exact h.distinct j j' u u' b b' hold hold' heq
  behind := by
    intro j u b hj v hv
    rcases way_update hj with ⟨-, heq⟩ | ⟨-, hj⟩
    · cases heq
      exact Nat.lt_of_le_of_lt (h.queue_le _ v hv) ht
    · exact h.behind j u b hj v hv
  ascending := h.ascending
  keyed := h.keyed
  way_recorded := by
    intro j u hj
    rcases way_update hj with ⟨-, heq⟩ | ⟨-, hj⟩
    · cases heq
    · exact h.way_recorded j u hj
  queue_recorded := h.queue_recorded
  covered := h.covered_update (fun u hu => nomatch hi.symm.trans hu) _
  nodup := h.nodup

theorem Ok.record (h : Ok number key s) {i : ι} {t : τ} {n : Nat}
    (hi : s.way i = some (t, false)) (hn : s.last ≤ n) :
    Ok number key { s with
      way := update s.way i (some (t, true))
      record := s.record ++ [t]
      last := n } := by
  -- the same tickets are on their way as before
  have hold : ∀ {j u b}, update s.way i (some (t, true)) j = some (u, b) →
      ∃ b', s.way j = some (u, b') := by
    intro j u b hj
    rcases way_update hj with ⟨rfl, heq⟩ | ⟨-, hj⟩
    · cases heq
      exact ⟨false, hi⟩
    · exact ⟨b, hj⟩
  refine ⟨?_, fun k u hu => Nat.le_trans (h.queue_le k u hu) hn, ?_, ?_, h.ascending, h.keyed, ?_,
    fun k u hu => mem_append_left _ (h.queue_recorded k u hu), ?_, ?_⟩
  · intro j u b hj
    obtain ⟨b', hj⟩ := hold hj
    exact Nat.le_trans (h.way_le j u b' hj) hn
  · intro j j' u u' b b' hj hj' heq
    obtain ⟨c, hj⟩ := hold hj
    obtain ⟨c', hj'⟩ := hold hj'
    exact h.distinct j j' u u' c c' hj hj' heq
  · intro j u b hj v hv
    obtain ⟨b', hj⟩ := hold hj
    exact h.behind j u b' hj v hv
  · intro j u hj
    rcases way_update hj with ⟨-, heq⟩ | ⟨-, hj⟩
    · cases heq
      exact mem_append_right _ (mem_singleton_self _)
    · exact mem_append_left _ (h.way_recorded j u hj)
  · intro u hu
    rcases mem_append.mp hu with hu | hu
    · exact h.covered_update (fun v hv => nomatch hi.symm.trans hv) _ u hu
    · rw [mem_singleton.mp hu]
      exact .inr ⟨i, update_self _ _ _⟩
  · refine nodup_append.mpr ⟨h.nodup, nodup_singleton _, fun a ha b hb => ?_⟩
    rw [mem_singleton.mp hb]
    rintro rfl
    exact h.not_recorded hi ha

-- What is on its way once a party has left.
theorem way_left {way : ι → Option (τ × Bool)} {i j : ι} {p : τ × Bool}
    (h : update way i none j = some p) : j ≠ i ∧ way j = some p := by
  rcases way_update h with ⟨-, heq⟩ | h
  · cases heq
  · exact h

theorem Ok.drop (h : Ok number key s) {i : ι} {t : τ} {n : Nat}
    (hi : s.way i = some (t, false)) (hn : s.last ≤ n) :
    Ok number key { s with way := update s.way i none, last := n } where
  way_le := fun j u b hj => Nat.le_trans (h.way_le j u b (way_left hj).2) hn
  queue_le := fun k u hu => Nat.le_trans (h.queue_le k u hu) hn
  distinct := fun j j' u u' b b' hj hj' =>
    h.distinct j j' u u' b b' (way_left hj).2 (way_left hj').2
  behind := fun j u b hj => h.behind j u b (way_left hj).2
  ascending := h.ascending
  keyed := h.keyed
  way_recorded := fun j u hj => h.way_recorded j u (way_left hj).2
  queue_recorded := h.queue_recorded
  covered := h.covered_update (fun _ hu => nomatch hi.symm.trans hu) _
  nodup := h.nodup

end

-- What is in a queue once a ticket was put at the end of its own.
theorem mem_enqueued [DecidableEq κ] {k : κ} {t u : τ}
    (h : u ∈ update s.queue (key t) (s.queue (key t) ++ [t]) k) :
    u ∈ s.queue k ∨ u = t ∧ k = key t := by
  rcases eq_or_ne k (key t) with rfl | hne
  · rw [update_self] at h
    rcases mem_append.mp h with h | h
    · exact .inl h
    · exact .inr ⟨mem_singleton.mp h, rfl⟩
  · rw [update_of_ne hne] at h
    exact .inl h

/-- No ticket of the key with a smaller number is on its way, so the queue stays in order and what
is still on its way stays behind it. -/
theorem Ok.enqueue [DecidableEq ι] [DecidableEq κ] (h : Ok number key s) {i : ι} {t : τ}
    (hi : s.way i = some (t, true))
    (hfirst : ∀ j u b, s.way j = some (u, b) → key u = key t → number t ≤ number u) :
    Ok number key { s with
      way := update s.way i none
      queue := update s.queue (key t) (s.queue (key t) ++ [t]) } where
  way_le := fun j u b hj => h.way_le j u b (way_left hj).2
  queue_le := by
    intro k u hu
    rcases mem_enqueued hu with hu | ⟨rfl, -⟩
    · exact h.queue_le k u hu
    · exact h.way_le i u true hi
  distinct := fun j j' u u' b b' hj hj' =>
    h.distinct j j' u u' b b' (way_left hj).2 (way_left hj').2
  behind := by
    intro j u b hj v hv
    obtain ⟨hne, hold⟩ := way_left hj
    rcases mem_enqueued hv with hv | ⟨rfl, hkey⟩
    · exact h.behind j u b hold v hv
    · refine Nat.lt_of_le_of_ne (hfirst j u b hold hkey) fun heq => ?_
      exact hne (h.distinct i j v u _ _ hi hold heq).symm
  ascending := by
    intro k
    rcases eq_or_ne k (key t) with rfl | hne
    · dsimp only
      rw [update_self]
      refine pairwise_append.mpr
        ⟨h.ascending _, pairwise_singleton _ _, fun u hu v hv => ?_⟩
      rw [mem_singleton.mp hv]
      exact h.behind i t true hi u hu
    · dsimp only
      rw [update_of_ne hne]
      exact h.ascending k
  keyed := by
    intro k u hu
    rcases mem_enqueued hu with hu | ⟨rfl, hk⟩
    · exact h.keyed k u hu
    · exact hk.symm
  way_recorded := fun j u hj => h.way_recorded j u (way_left hj).2
  queue_recorded := by
    intro k u hu
    rcases mem_enqueued hu with hu | ⟨rfl, -⟩
    · exact h.queue_recorded k u hu
    · exact h.way_recorded i u hi
  covered := by
    intro u hu
    have hgrown : ∀ k, ∀ v ∈ s.queue k, v ∈ update s.queue (key t) (s.queue (key t) ++ [t]) k := by
      intro k v hv
      rcases eq_or_ne k (key t) with rfl | hne
      · rw [update_self]
        exact mem_append_left _ hv
      · rwa [update_of_ne hne]
    rcases h.covered u hu with hu | ⟨j, hj⟩
    · exact .inl (hgrown _ u hu)
    · rcases eq_or_ne j i with rfl | hne
      · rw [hi] at hj
        cases hj
        left
        dsimp only
        rw [update_self]
        exact mem_append_right _ (mem_singleton_self _)
      · exact .inr ⟨j, (update_of_ne hne _ _).trans hj⟩
  nodup := h.nodup

theorem Ok.step [DecidableEq ι] [DecidableEq κ] (h : Ok number key s)
    (hstep : Step number key s s') : Ok number key s' := by
  cases hstep with
  | draw i t hi ht => exact h.draw hi ht
  | record i t n hi hn => exact h.record hi hn
  | drop i t n hi hn => exact h.drop hi hn
  | enqueue i t hi hfirst => exact h.enqueue hi hfirst
  | tick n hn =>
    exact { h with
      way_le := fun i t b hi => Nat.le_trans (h.way_le i t b hi) hn
      queue_le := fun k t ht => Nat.le_trans (h.queue_le k t ht) hn }

/-! ## Nothing on its way -/

def inSequence (number : τ → Nat) (tickets : List τ) : List τ :=
  tickets.mergeSort fun t u => number t ≤ number u

theorem inSequence_of_ascending {tickets : List τ}
    (h : tickets.Pairwise fun t u => number t ≤ number u) : inSequence number tickets = tickets :=
  mergeSort_of_pairwise (h.imp fun hle => decide_eq_true hle)

theorem Ok.queue_eq [DecidableEq κ] (h : Ok number key s) {k : κ}
    (hnone : ∀ i t b, s.way i = some (t, b) → key t ≠ k) :
    s.queue k = inSequence number (s.record.filter fun t => key t = k) := by
  have hnumbers : ((s.queue k).map number).Nodup :=
    pairwise_map.mpr ((h.ascending k).imp fun hlt => Nat.ne_of_lt hlt)
  have hperm : (s.queue k).Perm (s.record.filter fun t => key t = k) := by
    refine (perm_ext_iff_of_nodup (List.Nodup.of_map _ hnumbers) (h.nodup.filter _)).mpr
      fun t => ?_
    rw [mem_filter, decide_eq_true_eq]
    constructor
    · exact fun ht => ⟨h.queue_recorded k t ht, h.keyed k t ht⟩
    · rintro ⟨ht, rfl⟩
      rcases h.covered t ht with ht | ⟨i, hi⟩
      · exact ht
      · exact absurd rfl (hnone i t true hi)
  have hsorted := hperm.trans (mergeSort_perm _ fun t u => decide (number t ≤ number u)).symm
  have hascending : (s.queue k).Pairwise fun t u => decide (number t ≤ number u) = true :=
    (h.ascending k).imp fun hlt => decide_eq_true (Nat.le_of_lt hlt)
  refine List.Perm.eq_of_pairwise ?_ hascending (pairwise_mergeSort ?_ ?_ _) hsorted
  · -- one queue has no two tickets with one number
    intro t u ht hu htu hut
    exact inj_on_of_nodup_map hnumbers ht (hsorted.mem_iff.mpr hu)
      (Nat.le_antisymm (of_decide_eq_true htu) (of_decide_eq_true hut))
  · intro t u v htu huv
    exact decide_eq_true (Nat.le_trans (of_decide_eq_true htu) (of_decide_eq_true huv))
  · intro t u
    rw [Bool.or_eq_true, decide_eq_true_eq, decide_eq_true_eq]
    exact Nat.le_total _ _

end CexHertz.Tickets
