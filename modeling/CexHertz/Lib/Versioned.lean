import Mathlib.Logic.Function.Basic

/-!
# Versioned key-value store

Every write stamps the written key with a new index, and a compare-and-set succeeds only at the
index that was read. `Seen`: as long as the key's index is the one a reader saw, so is the value.
-/

namespace CexHertz.Versioned

open Function

structure Store (κ ν : Type) where
  pair : κ → Option (ν × Nat)
  index : Nat
  stamped : ∀ k v i, pair k = some (v, i) → 0 < i ∧ i ≤ index

variable {κ ν : Type} [DecidableEq κ]

def Store.empty : Store κ ν := ⟨fun _ => none, 0, nofun⟩

def version : Option (ν × Nat) → Nat
  | none => 0
  | some (_, i) => i

def Store.put (s : Store κ ν) (k : κ) (v : ν) : Store κ ν where
  pair := update s.pair k (some (v, s.index + 1))
  index := s.index + 1
  stamped := by
    intro k' v' i h
    by_cases hk : k' = k
    · subst hk
      rw [update_self] at h
      cases h
      omega
    · rw [update_of_ne hk] at h
      have := s.stamped k' v' i h
      omega

def Store.cas (s : Store κ ν) (k : κ) (v : ν) (i : Nat) : Store κ ν × Bool :=
  if version (s.pair k) = i then (s.put k v, true) else (s, false)

variable {s : Store κ ν} {k k' : κ} {v : ν} {read : Option (ν × Nat)}

@[simp] theorem Store.put_pair_self : (s.put k v).pair k = some (v, s.index + 1) :=
  update_self ..

theorem Store.put_pair_of_ne (h : k' ≠ k) : (s.put k v).pair k' = s.pair k' :=
  update_of_ne h ..

-- Versions come from one counter, so a later write has a larger one.
omit [DecidableEq κ] in
theorem Store.version_le (s : Store κ ν) (k : κ) : version (s.pair k) ≤ s.index := by
  cases h : s.pair k with
  | none => exact Nat.zero_le _
  | some p => exact (s.stamped k p.1 p.2 h).2

structure Seen (s : Store κ ν) (k : κ) (read : Option (ν × Nat)) : Prop where
  version_le : version read ≤ s.index
  unchanged : version (s.pair k) = version read → s.pair k = read

omit [DecidableEq κ] in
theorem seen_self (s : Store κ ν) (k : κ) : Seen s k (s.pair k) :=
  ⟨s.version_le k, fun _ => rfl⟩

theorem Seen.put (h : Seen s k read) (k' : κ) (v : ν) : Seen (s.put k' v) k read where
  version_le := Nat.le_succ_of_le h.version_le
  unchanged := by
    intro hversion
    by_cases hk : k = k'
    · subst hk
      have hle := h.version_le
      rw [Store.put_pair_self] at hversion
      change s.index + 1 = version read at hversion
      omega
    · rw [Store.put_pair_of_ne hk] at hversion ⊢
      exact h.unchanged hversion

end CexHertz.Versioned
