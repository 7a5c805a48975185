import Mathlib.Algebra.Ring.Int.Defs
import Mathlib.Data.List.Count
import Mathlib.Data.List.Basic

/-!
# Critical sections under the Redis lock

`RedisLockManager.WithLock` with its retry loop. The environment decides how every attempt ends; the
model keeps the calls on the mutex and on `fn`, in order. Whether the lock is held is kept in `err`
alone, which is right once the loop has run (`Acquisition.Ok`).
-/

namespace CexHertz

open List

/-! ## Contexts and options -/

/-- A `context.Context`: when it is cancelled, if ever, and with which error. -/
structure CancelContext where
  cancel : Option (Nat × String)
  deriving DecidableEq, Repr

def CancelContext.err (ctx : CancelContext) (now : Nat) : Option String :=
  match ctx.cancel with
  | none => none
  | some (time, e) => if time ≤ now then some e else none

structure LockOptions where
  expireDuration : Int
  maxRetries : Int
  retryDelay : Int
  deriving DecidableEq, Repr

def defaultLockOptions : LockOptions := ⟨30 * 10 ^ 9, 3, 100 * 10 ^ 6⟩

/-- The options in force: the first of `opts` unless it is missing or nil. -/
def effectiveOptions : List (Option LockOptions) → LockOptions
  | some opt :: _ => opt
  | _ => defaultLockOptions

/-! ## The retry loop -/

/-- How one turn of the loop goes: the answer of `LockContext` and the time it took, how long after
its delay the timer branch of the `select` is taken, and whether `ctx.Done()` is taken instead if
the context is cancelled by then. -/
structure LockAttempt where
  err : Option String
  took : Nat
  late : Nat
  done : Bool
  deriving DecidableEq, Repr

inductive LockCall where
  | lockContext (err : Option String)
  | fn
  | unlock
  deriving DecidableEq, Repr

/-- How the loop is left: by `break` or at its end, with the value of `err`, or by a `return`. -/
inductive LoopExit where
  | left (err : Option String)
  | returned (err : String)
  deriving DecidableEq, Repr

structure Acquisition where
  calls : List LockCall
  exit : LoopExit
  deriving DecidableEq, Repr

def Acquisition.after (call : LockCall) (r : Acquisition) : Acquisition :=
  { r with calls := call :: r.calls }

/-- The `select` entered at the time `now`: the error of the context, or the time at which the timer
branch is taken. -/
def selectRetry (opt : LockOptions) (ctx : CancelContext) (a : LockAttempt) (now : Nat) :
    Except String Nat :=
  let woken := now + opt.retryDelay.toNat + a.late
  match ctx.err woken with
  | none => .ok woken
  | some e => if a.done then .error e else .ok woken

def acquireLoop (opt : LockOptions) (ctx : CancelContext) (attempt : Nat → LockAttempt) :
    Nat → Nat → Nat → Option String → Acquisition
  | 0, _, _, err => ⟨[], .left err⟩
  | remaining + 1, i, now, _ =>
    let a := attempt i
    let now := now + a.took
    Acquisition.after (.lockContext a.err) <|
      match a.err with
      | none => ⟨[], .left none⟩
      | some e =>
        match ctx.err now with
        | some c => ⟨[], .returned ("lock context expired: " ++ c)⟩
        | none =>
          if (i : Int) < opt.maxRetries - 1 then
            match selectRetry opt ctx a now with
            | .error c => ⟨[], .returned c⟩
            | .ok now => acquireLoop opt ctx attempt remaining (i + 1) now (some e)
          else acquireLoop opt ctx attempt remaining (i + 1) now (some e)

/-! ## `WithLock` -/

inductive LockOutcome where
  | returned (err : Option String)
  | panicked
  deriving DecidableEq, Repr

structure LockedRun where
  calls : List LockCall
  outcome : LockOutcome
  deriving DecidableEq, Repr

/-- What is done after the loop.  `Unlock` is deferred, so it follows `fn` however that ends; its
own error is only logged. -/
def runLocked (key : String) (fn : LockOutcome) (r : Acquisition) : LockedRun :=
  match r.exit with
  | .returned e => ⟨r.calls, .returned (some e)⟩
  | .left (some e) =>
    ⟨r.calls, .returned (some ("failed to acquire lock on " ++ key ++ ": " ++ e))⟩
  | .left none => ⟨r.calls ++ [.fn, .unlock], fn⟩

def withLock (ctx : CancelContext) (key : String) (fn : LockOutcome)
    (opts : List (Option LockOptions)) (attempt : Nat → LockAttempt) (now : Nat) : LockedRun :=
  let opt := effectiveOptions opts
  runLocked key fn (acquireLoop opt ctx attempt opt.maxRetries.toNat 0 now none)

/-! ## What the loop leaves -/

/-- The loop with `remaining` turns, started with the error `err`: it only asks for the lock, at
most so often, and `err` is nil exactly when the lock was given — unless there was neither a turn
nor an error to begin with. -/
structure Acquisition.Ok (remaining : Nat) (err : Option String) (r : Acquisition) : Prop where
  bounded : r.calls.length ≤ remaining
  only : ∀ call ∈ r.calls, ∃ e, call = .lockContext e
  held : err ≠ none ∨ 0 < remaining → (.lockContext none ∈ r.calls ↔ r.exit = .left none)

theorem Acquisition.Ok.last {remaining : Nat} {err e : Option String} {exit : LoopExit}
    (h : e = none ↔ exit = .left none) :
    (Acquisition.after (.lockContext e) ⟨[], exit⟩).Ok (remaining + 1) err where
  bounded := Nat.succ_le_succ (Nat.zero_le _)
  only := by simp [Acquisition.after]
  held := by
    intro _
    show .lockContext none ∈ [LockCall.lockContext e] ↔ _
    rwa [mem_singleton, LockCall.lockContext.injEq, eq_comm]

theorem Acquisition.Ok.retry {remaining : Nat} {err : Option String} {e : String}
    {r : Acquisition} (h : r.Ok remaining (some e)) :
    (r.after (.lockContext (some e))).Ok (remaining + 1) err where
  bounded := Nat.succ_le_succ h.bounded
  only := List.forall_mem_cons.mpr ⟨⟨_, rfl⟩, h.only⟩
  held := by
    intro _
    show .lockContext none ∈ LockCall.lockContext (some e) :: r.calls ↔ r.exit = .left none
    rw [mem_cons, ← h.held (.inl (by simp))]
    simp

theorem acquireLoop_ok (opt : LockOptions) (ctx : CancelContext) (attempt : Nat → LockAttempt)
    (remaining i now : Nat) (err : Option String) :
    (acquireLoop opt ctx attempt remaining i now err).Ok remaining err := by
  induction remaining generalizing i now err with
  | zero =>
    refine ⟨Nat.le_refl _, by simp [acquireLoop], fun h => ?_⟩
    have herr : err ≠ none := h.resolve_right (Nat.lt_irrefl 0)
    simp [acquireLoop, herr]
  | succ remaining ih =>
    rw [acquireLoop]
    cases ha : (attempt i).err with
    | none => exact .last (by simp)
    | some e =>
      dsimp only
      split
      next => exact .last (by simp)
      next =>
        split
        next =>
          split
          next => exact .last (by simp)
          next => exact (ih _ _ _).retry
        next => exact (ih _ _ _).retry

/-! ## Critical sections run only under the lock -/

/-- `fn` at most once and only after a successful `LockContext`, one `Unlock` exactly if there was
one, at most `MaxRetries` attempts, and an error whenever `fn` was not called. -/
structure LockedRun.Guarded (opt : LockOptions) (r : LockedRun) : Prop where
  fn_once : r.calls.count .fn ≤ 1
  fn_locked : ∀ pre post, r.calls = pre ++ .fn :: post → .lockContext none ∈ pre
  unlock_once : r.calls.count .unlock = if .lockContext none ∈ r.calls then 1 else 0
  attempts : r.calls.countP (fun call => call ≠ .fn ∧ call ≠ .unlock) ≤ opt.maxRetries.toNat
  skipped : .fn ∉ r.calls → ∃ e, r.outcome = .returned (some e)

section

variable {remaining : Nat} {r : Acquisition}

theorem Acquisition.Ok.not_mem {err : Option String} (h : r.Ok remaining err) (call : LockCall)
    (hcall : ∀ e, call ≠ .lockContext e) : call ∉ r.calls := by
  intro hmem
  obtain ⟨e, rfl⟩ := h.only call hmem
  exact hcall e rfl

theorem LockedRun.Guarded.refused {opt : LockOptions} {e : String}
    (h : r.Ok opt.maxRetries.toNat none) (hnot : .lockContext none ∉ r.calls) :
    (LockedRun.mk r.calls (.returned (some e))).Guarded opt where
  fn_once := by simp [count_eq_zero_of_not_mem (h.not_mem .fn (by simp))]
  fn_locked := by
    intro pre post hcalls
    dsimp only at hcalls
    exact absurd (by simp [hcalls]) (h.not_mem .fn (by simp))
  unlock_once := by
    rw [if_neg hnot]
    exact count_eq_zero_of_not_mem (h.not_mem .unlock (by simp))
  attempts := Nat.le_trans countP_le_length h.bounded
  skipped := fun _ => ⟨e, rfl⟩

theorem LockedRun.Guarded.entered {opt : LockOptions} {fn : LockOutcome}
    (h : r.Ok opt.maxRetries.toNat none) (hheld : .lockContext none ∈ r.calls) :
    (LockedRun.mk (r.calls ++ [.fn, .unlock]) fn).Guarded opt where
  fn_once := by
    simp [count_append, count_eq_zero_of_not_mem (h.not_mem .fn (by simp))]
  fn_locked := by
    intro pre post hcalls
    rcases List.append_eq_append_iff.mp hcalls with ⟨rest, hpre, hrest⟩ | ⟨rest, hcalls', hrest⟩
    · rw [hpre]
      exact mem_append_left _ hheld
    · -- `fn` is not among the calls of the loop
      cases rest with
      | nil =>
        rw [append_nil] at hcalls'
        exact hcalls' ▸ hheld
      | cons call rest =>
        obtain rfl : LockCall.fn = call := (List.cons.inj hrest).1
        exact absurd (by simp [hcalls']) (h.not_mem .fn (by simp))
  unlock_once := by
    rw [if_pos (mem_append_left _ hheld)]
    simp [count_append, count_eq_zero_of_not_mem (h.not_mem .unlock (by simp))]
  attempts := by
    rw [countP_append]
    exact Nat.le_trans countP_le_length h.bounded
  skipped := fun hnot => absurd (by simp) hnot

end

/-- With a positive `MaxRetries` the loop has run, and `err` says whether the lock is held. -/
theorem withLock_guarded_of_pos (ctx : CancelContext) (key : String) (fn : LockOutcome)
    (opts : List (Option LockOptions)) (attempt : Nat → LockAttempt) (now : Nat)
    (hpos : 0 < (effectiveOptions opts).maxRetries) :
    (withLock ctx key fn opts attempt now).Guarded (effectiveOptions opts) := by
  unfold withLock
  dsimp only
  have hok := acquireLoop_ok (effectiveOptions opts) ctx attempt
    (effectiveOptions opts).maxRetries.toNat 0 now none
  have hheld := hok.held (.inr (by omega))
  generalize acquireLoop (effectiveOptions opts) ctx attempt
    (effectiveOptions opts).maxRetries.toNat 0 now none = r at hok hheld
  unfold runLocked
  split
  next e hexit => exact .refused hok (by simp [hheld, hexit])
  next e hexit => exact .refused hok (by simp [hheld, hexit])
  next hexit => exact .entered hok (hheld.mpr hexit)

theorem withLock_unlocked (ctx : CancelContext) (key : String) (fn : LockOutcome)
    (opts : List (Option LockOptions)) (attempt : Nat → LockAttempt) (now : Nat)
    (hpos : (effectiveOptions opts).maxRetries ≤ 0) :
    withLock ctx key fn opts attempt now = ⟨[.fn, .unlock], fn⟩ := by
  unfold withLock
  dsimp only
  rw [Int.toNat_of_nonpos hpos]
  rfl

/-- For every attempt pattern and every cancellation, `WithLock` runs its critical section only
under the lock exactly when the options in force allow an attempt. -/
theorem withLock_guarded_iff (ctx : CancelContext) (key : String) (fn : LockOutcome)
    (opts : List (Option LockOptions)) (attempt : Nat → LockAttempt) (now : Nat) :
    (withLock ctx key fn opts attempt now).Guarded (effectiveOptions opts) ↔
      0 < (effectiveOptions opts).maxRetries := by
  constructor
  · intro h
    apply Int.not_le.mp
    intro hpos
    rw [withLock_unlocked ctx key fn opts attempt now hpos] at h
    exact absurd (h.fn_locked [] [.unlock] rfl) (by simp)
  · exact withLock_guarded_of_pos ctx key fn opts attempt now

/-- Options that only set the expiry: the lock belongs to somebody else, and `fn` runs. -/
theorem withLock_expiry_only : let opt : LockOptions := ⟨10 * 10 ^ 9, 0, 0⟩
    let taken : Nat → LockAttempt := fun _ => ⟨some "lock already taken", 1, 0, false⟩
    withLock ⟨none⟩ "partition:1:owner" (.returned none) [some opt] taken 0 =
        ⟨[.fn, .unlock], .returned none⟩ ∧
      ¬ (withLock ⟨none⟩ "partition:1:owner" (.returned none) [some opt] taken 0).Guarded opt := by
  refine ⟨rfl, fun h => ?_⟩
  exact absurd (h.fn_locked [] [.unlock] rfl) (by simp)

end CexHertz
