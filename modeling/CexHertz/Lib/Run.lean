import Mathlib.Data.List.Basic

/-!
# Runs of a labelled transition system

A system is a partial step function on states and labels. `Reaches` restricts the runs to steps that
meet a condition on the state before the step and its label. `execute` evaluates a run and checks
the condition on the way.
-/

namespace CexHertz.Run

open List

variable {σ α : Type*} {step : σ → α → Option σ} {allowed allowed' : σ → α → Prop} {s₀ s s' : σ}
variable {labels : List α} {i : Nat}

inductive Reaches (step : σ → α → Option σ) (allowed : σ → α → Prop) (s₀ : σ) : σ → Prop
  | refl : Reaches step allowed s₀ s₀
  | step {s s' : σ} {a : α} : Reaches step allowed s₀ s → allowed s a → step s a = some s' →
      Reaches step allowed s₀ s'

/-- Invariant rule: what holds at the start and is kept by every allowed step holds throughout. -/
theorem Reaches.invariant {I : σ → Prop} (h : Reaches step allowed s₀ s) (hstart : I s₀)
    (hstep : ∀ s a s', I s → allowed s a → step s a = some s' → I s') : I s := by
  induction h with
  | refl => exact hstart
  | step _ hallowed hs ih => exact hstep _ _ _ ih hallowed hs

theorem Reaches.trans {s'' : σ} (h : Reaches step allowed s s') (h' : Reaches step allowed s' s'') :
    Reaches step allowed s s'' := by
  induction h' with
  | refl => exact h
  | step _ hallowed hs ih => exact .step ih hallowed hs

def execute (step : σ → α → Option σ) (allowed : σ → α → Prop) [∀ s a, Decidable (allowed s a)]
    (s : σ) : List α → Option σ
  | [] => some s
  | a :: rest =>
    if allowed s a then
      match step s a with
      | none => none
      | some s' => execute step allowed s' rest
    else none

theorem execute_cons_eq_some [∀ s a, Decidable (allowed s a)] {a : α} {rest : List α} :
    execute step allowed s (a :: rest) = some s' ↔
      allowed s a ∧ ∃ next, step s a = some next ∧ execute step allowed next rest = some s' := by
  rw [Run.execute]
  split
  next h =>
    cases hstep : step s a with
    | none => simp
    | some next => simp [h]
  next h => simp [h]

theorem Reaches.execute [∀ s a, Decidable (allowed s a)] (hs : Reaches step allowed s₀ s)
    (h : execute step allowed s labels = some s') :
    Reaches step allowed s₀ s' := by
  induction labels generalizing s with
  | nil =>
    cases h
    exact hs
  | cons a rest ih =>
    obtain ⟨hallowed, next, hstep, hrest⟩ := execute_cons_eq_some.mp h
    exact ih (.step hs hallowed hstep) hrest

theorem execute_singleton [∀ s a, Decidable (allowed s a)] {a : α} :
    execute step allowed s [a] = some s' ↔ allowed s a ∧ step s a = some s' := by
  rw [execute_cons_eq_some]
  simp [Run.execute]

-- An evaluated run is a run.
theorem reaches_of_execute [∀ s a, Decidable (allowed s a)]
    (h : execute step allowed s₀ labels = some s) : Reaches step allowed s₀ s :=
  Reaches.refl.execute h

theorem execute_mono [∀ s a, Decidable (allowed s a)] [∀ s a, Decidable (allowed' s a)]
    (h : execute step allowed s labels = some s') (himp : ∀ s a, allowed s a → allowed' s a) :
    execute step allowed' s labels = some s' := by
  induction labels generalizing s with
  | nil => exact h
  | cons a rest ih =>
    obtain ⟨hallowed, next, hstep, hrest⟩ := execute_cons_eq_some.mp h
    exact execute_cons_eq_some.mpr ⟨himp s a hallowed, next, hstep, ih hrest⟩

/-- A run meets the condition at every step and keeps the invariant, or the first step that does not
meet it leads to a state of `D`, which no step leaves. -/
theorem execute_or [∀ s a, Decidable (allowed s a)] [∀ s a, Decidable (allowed' s a)]
    {I D : σ → Prop} (h : execute step allowed' s labels = some s') (hs : I s)
    (hkeep : ∀ s a s', I s → allowed s a → step s a = some s' → I s')
    (hbreak : ∀ s a s', I s → ¬ allowed s a → step s a = some s' → D s')
    (hstay : ∀ s a s', D s → step s a = some s' → D s') :
    (execute step allowed s labels = some s' ∧ I s') ∨ D s' := by
  induction labels generalizing s with
  | nil =>
    cases h
    exact .inl ⟨rfl, hs⟩
  | cons a rest ih =>
    obtain ⟨-, next, hstep, hrest⟩ := execute_cons_eq_some.mp h
    by_cases hallowed : allowed s a
    · refine (ih hrest (hkeep s a next hs hallowed hstep)).imp_left fun hok => ?_
      exact ⟨execute_cons_eq_some.mpr ⟨hallowed, next, hstep, hok.1⟩, hok.2⟩
    · exact .inr ((reaches_of_execute hrest).invariant (hbreak s a next hs hallowed hstep)
        fun s a s' hs _ h => hstay s a s' hs h)

theorem exists_of_any {test : σ → Bool} {r : Option σ} (h : r.any test = true) :
    ∃ s, r = some s ∧ test s = true :=
  (Option.any_eq_true test r).mp h

theorem exists_reaches_of_any [∀ s a, Decidable (allowed s a)] {test : σ → Bool}
    (h : (execute step allowed s₀ labels).any test = true) :
    ∃ s, Reaches step allowed s₀ s ∧ test s = true := by
  obtain ⟨s, hs, htest⟩ := exists_of_any h
  exact ⟨s, reaches_of_execute hs, htest⟩

theorem exists_reaches [∀ s a, Decidable (allowed s a)] {P Q : σ → Prop} [DecidablePred P]
    (labels : List α) (h : (execute step allowed s₀ labels).any (fun s => decide (P s)) = true)
    (hQ : ∀ s, Reaches step allowed s₀ s → P s → Q s) : ∃ s, Reaches step allowed s₀ s ∧ Q s := by
  obtain ⟨s, hs, htest⟩ := exists_reaches_of_any h
  exact ⟨s, hs, hQ s hs (of_decide_eq_true htest)⟩

theorem exists_reaches_step [∀ s a, Decidable (allowed s a)] {P Q : σ → σ → Prop}
    [∀ s s', Decidable (P s s')] (labels : List α) (a : α) (h : (execute step allowed s₀ labels).any
      (fun s => (step s a).any fun s' => decide (P s s')) = true)
    (hQ : ∀ s s', Reaches step allowed s₀ s → step s a = some s' → P s s' → Q s s') :
    ∃ s s', Reaches step allowed s₀ s ∧ Q s s' := by
  obtain ⟨s, hs, hnext⟩ := exists_reaches_of_any h
  obtain ⟨s', hstep, htest⟩ := exists_of_any hnext
  exact ⟨s, s', hs, hQ s s' hs hstep (of_decide_eq_true htest)⟩

theorem set_split {α : Type*} {pool : List α} {a : α} (h : pool[i]? = some a) :
    ∃ pre post, pool = pre ++ a :: post ∧ ∀ b, pool.set i b = pre ++ b :: post := by
  obtain ⟨hi, rfl⟩ := List.getElem?_eq_some_iff.mp h
  refine ⟨pool.take i, pool.drop (i + 1), ?_, fun b => ?_⟩
  · rw [← drop_eq_getElem_cons hi, take_append_drop]
  · exact set_eq_take_append_cons_drop.trans (if_pos hi)

theorem forall_mem_set_append {α : Type*} {Q : α → Prop} {pool added : List α} {b : α} (i : Nat)
    (hpool : ∀ a ∈ pool, Q a) (hb : Q b) (hadded : ∀ a ∈ added, Q a) :
    ∀ a ∈ pool.set i b ++ added, Q a := by
  intro a ha
  rcases mem_append.mp ha with ha | ha
  · rcases mem_or_eq_of_mem_set ha with ha | rfl
    · exact hpool a ha
    · exact hb
  · exact hadded a ha

theorem forall_mem_concat {α : Type*} {Q : α → Prop} {pool : List α} {b : α}
    (hpool : ∀ a ∈ pool, Q a) (hb : Q b) : ∀ a ∈ pool ++ [b], Q a :=
  forall_mem_append.mpr ⟨hpool, forall_mem_singleton.mpr hb⟩

theorem getElem?_set_self {α : Type*} {pool : List α} {a : α} (h : pool[i]? = some a) (b : α) :
    (pool.set i b)[i]? = some b := by
  obtain ⟨hi, -⟩ := List.getElem?_eq_some_iff.mp h
  exact List.getElem?_set_self hi

-- A member is the one that is stepped, or it is still there after the step.
theorem exists_mem_set {α : Type*} {Q : α → Prop} {pool : List α} {a : α} (h : pool[i]? = some a)
    (hex : ∃ x ∈ pool, Q x) (b : α) :
    Q a ∨ ∃ x ∈ pool.set i b, Q x := by
  obtain ⟨pre, post, rfl, hset⟩ := set_split h
  obtain ⟨x, hx, hQ⟩ := hex
  rw [hset]
  rcases mem_append.mp hx with hx | hx
  · exact .inr ⟨x, mem_append_left _ hx, hQ⟩
  · rcases mem_cons.mp hx with rfl | hx
    · exact .inl hQ
    · exact .inr ⟨x, mem_append_right _ (.tail _ hx), hQ⟩

-- A member after a step is the one that was stepped, or an old one in its place.
theorem getElem?_set_cases {α : Type*} {pool : List α} {j : Nat} {a b : α}
    (h : (pool.set i b)[j]? = some a) : (j = i ∧ a = b) ∨ (j ≠ i ∧ pool[j]? = some a) := by
  rw [List.getElem?_set] at h
  split at h
  next heq =>
    split at h
    next => exact .inl ⟨heq.symm, (Option.some.inj h).symm⟩
    next => cases h
  next hne => exact .inr ⟨Ne.symm hne, h⟩

-- A member after one was added is an old one in its place, or the new one at the end.
theorem getElem?_concat_cases {α : Type*} {pool : List α} {j : Nat} {a b : α}
    (h : (pool ++ [b])[j]? = some a) : pool[j]? = some a ∨ (j = pool.length ∧ a = b) := by
  rw [List.getElem?_append] at h
  split at h
  next => exact .inl h
  next hle =>
    rcases Nat.eq_zero_or_pos (j - pool.length) with hzero | hpos
    · rw [hzero] at h
      exact .inr ⟨by omega, (Option.some.inj h).symm⟩
    · rw [List.getElem?_eq_none (by rw [length_singleton]; exact hpos)] at h
      cases h

-- Where a stepped member is found again.
theorem getElem?_set_append {α : Type*} {pool added : List α} {a b : α} (h : pool[i]? = some a) :
    (pool.set i b ++ added)[i]? = some b := by
  obtain ⟨hi, -⟩ := List.getElem?_eq_some_iff.mp h
  rw [List.getElem?_append_left (by rw [length_set]; exact hi), List.getElem?_set_self hi]

theorem forall_getElem?_set_append {α : Type*} {Q : Nat → α → Prop} {pool added : List α} {a b : α}
    (h : pool[i]? = some a) (hpool : ∀ j x, j ≠ i → pool[j]? = some x → Q j x) (hb : Q i b)
    (hadded : ∀ x ∈ added, ∀ j, Q j x) :
    ∀ j x, (pool.set i b ++ added)[j]? = some x → Q j x := by
  intro j x hj
  rcases eq_or_ne j i with rfl | hne
  · rw [getElem?_set_append h] at hj
    cases hj
    exact hb
  · rw [List.getElem?_append, List.getElem?_set_ne hne.symm] at hj
    split at hj
    · exact hpool j x hne hj
    · exact hadded x (mem_of_getElem? hj) j

theorem exists_others {α β : Type*} {f : α → List β} {pool added : List α} {a : α}
    (h : pool[i]? = some a) (hadded : added.flatMap f = []) :
    ∃ others, (pool.flatMap f).Perm (f a ++ others) ∧
      ∀ b, ((pool.set i b ++ added).flatMap f).Perm (f b ++ others) := by
  obtain ⟨pre, post, hpool, hset⟩ := set_split h
  refine ⟨pre.flatMap f ++ post.flatMap f, ?_, fun b => ?_⟩
  · rw [hpool, flatMap_append, flatMap_cons]
    exact perm_append_comm_assoc _ _ _
  · rw [flatMap_append, hadded, append_nil, hset, flatMap_append, flatMap_cons]
    exact perm_append_comm_assoc _ _ _

end CexHertz.Run
