import Mathlib.Logic.Relation

/-!
# Loops with a shrinking measure

A `for` loop whose body breaks or moves on is a partial step function. When every turn shrinks a
measure the loop is total: `Bounded.exit` is the state in which it stops, by structural recursion on
a bound for the measure.
-/

namespace CexHertz.Loop

variable {σ : Type*}

/-- `s'` is reached from `s` by finitely many turns and the body breaks there. -/
def Halts (body : σ → Option σ) (s s' : σ) : Prop :=
  Relation.ReflTransGen (fun a b => body a = some b) s s' ∧ body s' = none

structure Bounded (σ : Type*) where
  body : σ → Option σ
  size : σ → Nat
  shrinks : ∀ s s', body s = some s' → size s' < size s

namespace Bounded

variable (l : Bounded σ)

def exitWithin : (n : Nat) → (s : σ) → l.size s < n → σ
  | 0, _, h => absurd h (Nat.not_lt_zero _)
  | n + 1, s, h =>
    match hb : l.body s with
    | none => s
    | some s' => exitWithin n s' (by have := l.shrinks s s' hb; omega)

def exit (s : σ) : σ := l.exitWithin (l.size s + 1) s (Nat.lt_succ_self _)

-- The fuel is an upper bound on the measure, so it never runs out.
theorem exitWithin_halts (n : Nat) (s : σ) (h : l.size s < n) :
    Halts l.body s (l.exitWithin n s h) := by
  induction n generalizing s with
  | zero => exact absurd h (Nat.not_lt_zero _)
  | succ n ih =>
    rw [exitWithin]
    split
    next hb => exact ⟨.refl, hb⟩
    next s' hb =>
      have hrest := ih s' (by have := l.shrinks s s' hb; omega)
      exact ⟨.head hb hrest.1, hrest.2⟩

theorem halts (s : σ) : Halts l.body s (l.exit s) := l.exitWithin_halts _ s _

@[simp] theorem body_exit (s : σ) : l.body (l.exit s) = none := (l.halts s).2

end Bounded

theorem Halts.unique {body : σ → Option σ} {s a b : σ}
    (ha : Halts body s a) (hb : Halts body s b) : a = b := by
  obtain ⟨hra, hna⟩ := ha
  induction hra using Relation.ReflTransGen.head_induction_on with
  | refl =>
    obtain ⟨hrb, -⟩ := hb
    cases hrb.cases_head with
    | inl h => exact h
    | inr h =>
      obtain ⟨c, hc, -⟩ := h
      rw [hna] at hc
      cases hc
  | head hstep _ ih =>
    apply ih
    obtain ⟨hrb, hnb⟩ := hb
    cases hrb.cases_head with
    | inl h => subst h; rw [hnb] at hstep; cases hstep
    | inr h =>
      obtain ⟨c, hc, hrest⟩ := h
      rw [hstep] at hc
      cases hc
      exact ⟨hrest, hnb⟩

namespace Bounded

variable (l : Bounded σ)

theorem exit_of_none {s : σ} (h : l.body s = none) : l.exit s = s :=
  (l.halts s).unique ⟨.refl, h⟩

-- One turn does not change where the loop stops.
theorem exit_of_some {s s' : σ} (h : l.body s = some s') : l.exit s = l.exit s' :=
  (l.halts s).unique ⟨.head h (l.halts s').1, l.body_exit s'⟩

theorem reached_invariant {body : σ → Option σ} {I : σ → Prop} {s s' : σ}
    (hturn : ∀ a b, I a → body a = some b → I b) (hs : I s)
    (hr : Relation.ReflTransGen (fun a b => body a = some b) s s') : I s' := by
  induction hr with
  | refl => exact hs
  | tail _ hstep ih => exact hturn _ _ ih hstep

theorem exit_invariant {I : σ → Prop} {s : σ}
    (hturn : ∀ a b, I a → l.body a = some b → I b) (hs : I s) : I (l.exit s) :=
  reached_invariant hturn hs (l.halts s).1

theorem turn_induction {motive : σ → Prop} (s : σ)
    (stop : ∀ s, l.body s = none → motive s)
    (turn : ∀ s s', l.body s = some s' → motive s' → motive s) : motive s := by
  induction hn : l.size s using Nat.strongRecOn generalizing s with
  | ind n ih =>
    cases hb : l.body s with
    | none => exact stop s hb
    | some s' =>
      have hlt := l.shrinks s s' hb
      exact turn s s' hb (ih (l.size s') (by omega) s' rfl)

end Bounded

section

variable {body : σ → Option σ} {I : σ → Prop} {s : σ}

theorem exists_halts (size : σ → Nat) (hs : I s)
    (hturn : ∀ a b, I a → body a = some b → I b ∧ size b < size a) :
    ∃ s', Halts body s s' ∧ I s' := by
  induction hn : size s using Nat.strongRecOn generalizing s with
  | ind n ih =>
    cases hb : body s with
    | none => exact ⟨s, ⟨.refl, hb⟩, hs⟩
    | some next =>
      obtain ⟨hnext, hlt⟩ := hturn s next hs hb
      obtain ⟨s', hhalts, hs'⟩ := ih (size next) (by omega) hnext rfl
      exact ⟨s', ⟨.head hb hhalts.1, hhalts.2⟩, hs'⟩

theorem not_halts (hs : I s) (hturn : ∀ a, I a → ∃ b, body a = some b ∧ I b) (s' : σ) :
    ¬ Halts body s s' := by
  rintro ⟨hreached, hnone⟩
  have hinvariant : I s' := Bounded.reached_invariant
    (fun a b ha hb => by
      obtain ⟨b', hb', hI⟩ := hturn a ha
      rw [hb] at hb'
      cases hb'
      exact hI) hs hreached
  obtain ⟨b, hb, -⟩ := hturn s' hinvariant
  rw [hnone] at hb
  cases hb

end

end CexHertz.Loop
