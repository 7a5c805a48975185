import Mathlib.Data.Rat.Floor
import Mathlib.Algebra.Order.Field.Basic
import Mathlib.Algebra.Order.Ring.Abs
import Mathlib.Tactic.Linarith
import Mathlib.Tactic.NormNum
import Mathlib.Tactic.Ring
import Mathlib.Tactic.Positivity
import Mathlib.Tactic.FieldSimp
import Mathlib.Tactic.GCongr

/-!
# Binary64 arithmetic

IEEE 754 binary64 values as rationals, rounded to nearest even. `nearest` rounds to the 53-bit grid
of a number's binade; `round` adds the overflow. No operation here observes the sign of a zero.
Powers of two are natural numbers, so closed terms evaluate in the kernel.
-/

namespace CexHertz.Binary64

def pow2 (e : Int) : ℚ :=
  if 0 ≤ e then ((2 ^ e.toNat : Nat) : ℚ) else 1 / ((2 ^ (-e).toNat : Nat) : ℚ)

def roundHalfEven (q : ℚ) : Int :=
  let f := q.floor
  let r := q - f
  if r < 1 / 2 then f
  else if 1 / 2 < r then f + 1
  else if f % 2 = 0 then f else f + 1

def binade (q : ℚ) : Int :=
  let e : Int := (Nat.log2 q.num.natAbs : Int) - (Nat.log2 q.den : Int)
  if pow2 e ≤ |q| then e else e - 1

def ulp (q : ℚ) : ℚ := pow2 (max (binade q - 52) (-1074))

def nearest (q : ℚ) : ℚ := roundHalfEven (q / ulp q) * ulp q

inductive F64 where
  | nan
  | inf (negative : Bool)
  | finite (q : ℚ)
  deriving DecidableEq

def round (q : ℚ) : F64 :=
  if pow2 1024 ≤ |nearest q| then .inf (decide (q < 0)) else .finite (nearest q)

def ofInt (n : Int) : F64 := round n

def F64.mulPos (x : F64) (c : ℚ) : F64 :=
  match x with
  | .nan => .nan
  | .inf s => .inf s
  | .finite q => round (q * c)

def F64.divPos (x : F64) (c : ℚ) : F64 :=
  match x with
  | .nan => .nan
  | .inf s => .inf s
  | .finite q => round (q / c)

def F64.add : F64 → F64 → F64
  | .nan, _ | _, .nan => .nan
  | .inf s, .inf s' => if s = s' then .inf s else .nan
  | .inf s, .finite _ | .finite _, .inf s => .inf s
  | .finite p, .finite q => round (p + q)

def F64.lt : F64 → F64 → Bool
  | .nan, _ | _, .nan => false
  | .inf s, .inf s' => s && !s'
  | .inf s, .finite _ => s
  | .finite _, .inf s => !s
  | .finite p, .finite q => p < q

/-! ## Powers of two -/

theorem pow2_pos (e : Int) : 0 < pow2 e := by
  unfold pow2
  split <;> positivity

theorem pow2_natCast (n : Nat) : pow2 n = 2 ^ n := by
  unfold pow2
  rw [if_pos (Int.natCast_nonneg n), Int.toNat_natCast]
  push_cast
  rfl

theorem pow2_neg_natCast (n : Nat) : pow2 (-(n : Int)) = 1 / 2 ^ n := by
  unfold pow2
  split
  next h =>
    have hn : n = 0 := by omega
    subst hn
    norm_num
  next =>
    rw [neg_neg, Int.toNat_natCast]
    push_cast
    rfl

/-! ## Rounding -/

theorem roundHalfEven_intCast (n : Int) : roundHalfEven n = n := by
  unfold roundHalfEven
  have hf : (n : ℚ).floor = n := Rat.floor_intCast n
  simp only [hf, sub_self]
  norm_num

theorem roundHalfEven_le (q : ℚ) : (roundHalfEven q : ℚ) ≤ q + 1 := by
  have hle : ((q.floor : Int) : ℚ) ≤ q := Rat.floor_le q
  unfold roundHalfEven
  dsimp only
  split_ifs <;> push_cast <;> linarith

theorem le_roundHalfEven (q : ℚ) : q - 1 ≤ roundHalfEven q := by
  have hlt : q < ((q.floor : Int) : ℚ) + 1 := by
    have := Rat.lt_floor_add_one q
    exact_mod_cast this
  unfold roundHalfEven
  dsimp only
  split_ifs <;> push_cast <;> linarith

theorem roundHalfEven_nonneg {q : ℚ} (h : 0 ≤ q) : 0 ≤ roundHalfEven q := by
  have hfloor : 0 ≤ q.floor := Int.floor_nonneg.mpr h
  unfold roundHalfEven
  dsimp only
  split
  · exact hfloor
  · split
    · omega
    · split <;> omega

theorem nearest_of_grid {q : ℚ} {m : Int} (h : q = m * ulp q) : nearest q = q := by
  have hpos : ulp q ≠ 0 := ne_of_gt (pow2_pos _)
  have hdiv : q / ulp q = m := by
    rwa [div_eq_iff hpos]
  unfold nearest
  rw [hdiv, roundHalfEven_intCast]
  exact h.symm

-- Mathlib's order lemmas are stated for `zpow`; the definition stays executable.
theorem pow2_eq_zpow (e : Int) : pow2 e = (2 : ℚ) ^ e := by
  rcases Int.eq_nat_or_neg e with ⟨n, rfl | rfl⟩
  · rw [pow2_natCast, zpow_natCast]
  · rw [pow2_neg_natCast, zpow_neg, zpow_natCast, one_div]

theorem pow2_mono {a b : Int} (h : a ≤ b) : pow2 a ≤ pow2 b := by
  rw [pow2_eq_zpow, pow2_eq_zpow]
  exact zpow_le_zpow_right₀ (by norm_num) h

theorem pow2_binade_le {q : ℚ} (hq : q ≠ 0) : pow2 (binade q) ≤ |q| := by
  unfold binade
  dsimp only
  split_ifs with h
  · exact h
  · have hnum : q.num.natAbs ≠ 0 := Int.natAbs_ne_zero.mpr (Rat.num_ne_zero.mpr hq)
    have hlo : ((2 ^ Nat.log2 q.num.natAbs : Nat) : ℚ) ≤ q.num.natAbs := by
      exact_mod_cast Nat.log2_self_le hnum
    have hhi : (q.den : ℚ) ≤ ((2 ^ (Nat.log2 q.den + 1) : Nat) : ℚ) := by
      exact_mod_cast Nat.lt_log2_self.le
    have hden : (0 : ℚ) < q.den := by exact_mod_cast q.den_pos
    have habs : |q| = q.num.natAbs / q.den := by
      conv_lhs => rw [← Rat.num_div_den q]
      rw [abs_div, Nat.abs_cast, Nat.cast_natAbs, Int.cast_abs]
    rw [habs, le_div_iff₀ hden, pow2_eq_zpow]
    calc (2 : ℚ) ^ ((Nat.log2 q.num.natAbs : Int) - Nat.log2 q.den - 1) * q.den
        ≤ 2 ^ ((Nat.log2 q.num.natAbs : Int) - Nat.log2 q.den - 1) *
            ((2 ^ (Nat.log2 q.den + 1) : Nat) : ℚ) :=
          mul_le_mul_of_nonneg_left hhi (zpow_nonneg (by norm_num) _)
      _ = ((2 ^ Nat.log2 q.num.natAbs : Nat) : ℚ) := by
          push_cast
          rw [← zpow_natCast, ← zpow_natCast, ← zpow_add₀ (by norm_num)]
          congr 1
          push_cast
          ring
      _ ≤ q.num.natAbs := hlo

-- Coarse, but enough to see that a rounded value stays far from overflow.
theorem ulp_le (q : ℚ) : ulp q ≤ |q| + 1 := by
  unfold ulp
  have hone : pow2 (-1074) ≤ 1 := by
    rw [show (1 : ℚ) = pow2 0 by rw [pow2_eq_zpow, zpow_zero]]
    exact pow2_mono (by norm_num)
  rcases eq_or_ne q 0 with rfl | hq
  · have hb : binade 0 = -1 := by decide +kernel
    rw [hb, abs_zero, zero_add, show (1 : ℚ) = pow2 0 by rw [pow2_eq_zpow, zpow_zero]]
    exact pow2_mono (by norm_num)
  · have habs : 0 ≤ |q| := abs_nonneg q
    rcases max_cases (binade q - 52) (-1074) with ⟨h, -⟩ | ⟨h, -⟩ <;> rw [h]
    · have := pow2_mono (show binade q - 52 ≤ binade q by omega)
      linarith [pow2_binade_le hq]
    · linarith

theorem abs_nearest_le (q : ℚ) : |nearest q| ≤ 2 * |q| + 1 := by
  have hpos : 0 < ulp q := pow2_pos _
  have hround : |(roundHalfEven (q / ulp q) : ℚ)| ≤ |q / ulp q| + 1 := by
    rw [abs_le]
    have hhi := roundHalfEven_le (q / ulp q)
    have hlo := le_roundHalfEven (q / ulp q)
    have := abs_le.mp (le_refl |q / ulp q|)
    constructor <;> linarith [this.1, this.2]
  calc |nearest q| = |(roundHalfEven (q / ulp q) : ℚ)| * ulp q := by
        rw [nearest, abs_mul, abs_of_pos hpos]
    _ ≤ (|q / ulp q| + 1) * ulp q := by gcongr
    _ = |q| + ulp q := by
        rw [abs_div, abs_of_pos hpos]
        field_simp
    _ ≤ 2 * |q| + 1 := by linarith [ulp_le q]

theorem round_finite {q : ℚ} (h : |q| < 2 ^ 100) : round q = .finite (nearest q) := by
  unfold round
  rw [if_neg]
  have hle := abs_nearest_le q
  have hpow : (2 : ℚ) ^ 102 ≤ pow2 1024 := by
    rw [← pow2_natCast]
    exact pow2_mono (by norm_num)
  rw [not_le]
  refine lt_of_lt_of_le ?_ hpow
  calc |nearest q| ≤ 2 * |q| + 1 := hle
    _ < 2 ^ 102 := by norm_num at h ⊢; linarith

/-! ## Integers -/

theorem binade_intCast {n : Int} (hn : n ≠ 0) : binade n = Nat.log2 n.natAbs := by
  unfold binade
  have habs : n.natAbs ≠ 0 := Int.natAbs_ne_zero.mpr hn
  have hlog : Nat.log2 1 = 0 := rfl
  simp only [Rat.num_intCast, Rat.den_intCast, hlog, Nat.cast_zero, sub_zero]
  rw [if_pos]
  rw [pow2_natCast, ← Int.cast_abs, Int.abs_eq_natAbs]
  exact_mod_cast Nat.log2_self_le habs

theorem nearest_intCast {n : Int} (h : |n| ≤ 2 ^ 53) : nearest n = n := by
  rcases eq_or_ne n 0 with rfl | hn
  · decide +kernel
  have hnat : n.natAbs ≤ 2 ^ 53 := by
    have := abs_le.mp h
    omega
  have habs : n.natAbs ≠ 0 := Int.natAbs_ne_zero.mpr hn
  by_cases htop : n.natAbs = 2 ^ 53
  · -- the grid above `2 ^ 53` has spacing two
    have hu : ulp n = 2 := by
      unfold ulp
      rw [binade_intCast hn, htop, Nat.log2_two_pow]
      decide +kernel
    refine nearest_of_grid (m := n / 2) ?_
    rw [hu]
    have hdiv : n / 2 * 2 = n := by omega
    exact_mod_cast hdiv.symm
  · have hlog : Nat.log2 n.natAbs ≤ 52 := by
      have := (Nat.log2_lt habs).mpr (show n.natAbs < 2 ^ 53 by omega)
      omega
    have hexp : max ((Nat.log2 n.natAbs : Int) - 52) (-1074) =
        -((52 - Nat.log2 n.natAbs : Nat) : Int) := by omega
    have hu : ulp n = 1 / 2 ^ (52 - Nat.log2 n.natAbs) := by
      unfold ulp
      rw [binade_intCast hn, hexp, pow2_neg_natCast]
    refine nearest_of_grid (m := n * 2 ^ (52 - Nat.log2 n.natAbs)) ?_
    rw [hu]
    push_cast
    field_simp

end CexHertz.Binary64
