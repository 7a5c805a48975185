import Mathlib.Algebra.Order.Ring.Int

/-!
# Machine integers

Arithmetic on `int64` and the conversions between `int64` and `uint64`, over `Int` and `Nat`.
-/

namespace CexHertz

def wrapInt64 (n : Int) : Int := Int.bmod n (2 ^ 64)

@[irreducible] def int64 (n : Nat) : Int := wrapInt64 n

@[irreducible] def uint64 (i : Int) : Nat := (i % 2 ^ 64).toNat

theorem int64_of_small {n : Nat} (h : n < 2 ^ 63) : int64 n = n := by
  unfold int64 wrapInt64
  rw [Int.bmod_def]
  split <;> omega

theorem uint64_int64 {n : Nat} (h : n < 2 ^ 64) : uint64 (int64 n) = n := by
  unfold uint64 int64 wrapInt64
  rw [Int.bmod_def]
  split <;> omega

-- Wrapping in between does not matter modulo 2^64.
theorem wrapInt64_wrapInt64_add (a b : Int) : wrapInt64 (wrapInt64 a + b) = wrapInt64 (a + b) :=
  Int.bmod_add_bmod

theorem wrapInt64_add_wrapInt64 (a b : Int) : wrapInt64 (a + wrapInt64 b) = wrapInt64 (a + b) :=
  Int.add_bmod_bmod

theorem wrapInt64_eq_self_iff {n : Int} (hpos : 0 ≤ n) : wrapInt64 n = n ↔ n < 2 ^ 63 := by
  unfold wrapInt64
  rw [Int.bmod_def]
  split <;> omega

end CexHertz
