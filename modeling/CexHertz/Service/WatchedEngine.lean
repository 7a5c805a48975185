import CexHertz.Service.EngineMoves

/-!
# An engine with a history beside it

A watched engine takes the steps of the engine and updates a history from the thread that moved:
what was broadcast, or which event an order in a queue came from.
-/

namespace CexHertz

variable {buyBefore sellBefore : Int → Int → Prop} [DecidableRel buyBefore]
  [DecidableRel sellBefore] {C : Containers buyBefore sellBefore} {γ : Type}

structure Watched (C : Containers buyBefore sellBefore) (γ : Type) where
  engine : EngineState C
  seen : γ

/-- `watch` gets what is shared before and after the step, and the thread with its place. -/
def Watched.step (watch : γ → Shared C → Shared C → Nat → Thread C → Thread C → γ)
    (cfg : EngineConfig) (s : Watched C γ) (action : EngineAction) : Option (Watched C γ) :=
  match s.engine.step cfg action, action with
  | none, _ => none
  | some engine, .submitOrder _ => some { s with engine := engine }
  | some engine, .advance k _ =>
    match s.engine.threads[k]?, engine.threads[k]? with
    | some th, some th' => some ⟨engine, watch s.seen s.engine.shared engine.shared k th th'⟩
    | _, _ => none

theorem Watched.step_cases {watch : γ → Shared C → Shared C → Nat → Thread C → Thread C → γ}
    {cfg : EngineConfig} {s s' : Watched C γ} {action : EngineAction}
    (h : s.step watch cfg action = some s') :
    (∃ order, action = .submitOrder order ∧
      s' = ⟨{ s.engine with threads := s.engine.threads ++ [submitOrder order] }, s.seen⟩) ∨
    ∃ k input th sh th' started, action = .advance k input ∧ s.engine.threads[k]? = some th ∧
      th.step cfg s.engine.shared input = some (sh, th', started) ∧
      s' = ⟨⟨sh, s.engine.threads.set k th' ++ started⟩,
        watch s.seen s.engine.shared sh k th th'⟩ := by
  unfold Watched.step at h
  cases action with
  | submitOrder order =>
    cases h
    exact .inl ⟨order, rfl, rfl⟩
  | advance k input =>
    rw [EngineState.step] at h
    cases hk : s.engine.threads[k]? with
    | none => simp only [hk, reduceCtorEq] at h
    | some th =>
      cases hth : th.step cfg s.engine.shared input with
      | none => simp only [hk, hth, reduceCtorEq] at h
      | some r =>
        obtain ⟨sh, th', started⟩ := r
        have hk' : (s.engine.threads.set k th' ++ started)[k]? = some th' :=
          Run.getElem?_set_append hk
        simp only [hk, hth, hk', Option.some.injEq] at h
        exact .inr ⟨k, input, th, sh, th', started, rfl, hk, hth, h.symm⟩

theorem Watched.engine_step {watch : γ → Shared C → Shared C → Nat → Thread C → Thread C → γ}
    {cfg : EngineConfig} {s s' : Watched C γ} {action : EngineAction}
    (h : s.step watch cfg action = some s') : s.engine.step cfg action = some s'.engine := by
  rcases Watched.step_cases h with ⟨order, rfl, rfl⟩ |
    ⟨k, input, th, sh, th', started, rfl, hk, hth, rfl⟩
  · rfl
  · rw [EngineState.step]
    simp only [hk, hth]

end CexHertz
