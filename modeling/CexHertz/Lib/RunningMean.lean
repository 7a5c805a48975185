import Mathlib.Algebra.BigOperators.Group.List.Basic
import Mathlib.Tactic.Linarith

/-!
# Running averages in whole units

A volume and the average price paid for it. A buy makes the weighted average, rounded down; a sell
leaves it alone until nothing is left. The average stays between the prices paid, and every buy
after the first loses less than one unit: the losses add up.
-/

namespace CexHertz.RunningMean

open List

structure Mean where
  volume : Int
  average : Int
  deriving DecidableEq

namespace Mean

def empty : Mean := ⟨0, 0⟩

def buy (m : Mean) (q p : Int) : Mean where
  volume := m.volume + q
  average := (m.volume * m.average + q * p) / (m.volume + q)

def sell (m : Mean) (q : Int) : Mean where
  volume := m.volume - q
  average := if m.volume - q = 0 then 0 else m.average

def buyAll (m : Mean) (buys : List (Int × Int)) : Mean :=
  buys.foldl (fun m buy => m.buy buy.1 buy.2) m

variable {m : Mean} {q p : Int}

@[simp] theorem buy_volume (m : Mean) (q p : Int) : (m.buy q p).volume = m.volume + q := rfl

@[simp] theorem sell_volume (m : Mean) (q : Int) : (m.sell q).volume = m.volume - q := rfl

theorem buy_of_volume_zero (hvolume : m.volume = 0) (hq : 0 < q) : m.buy q p = ⟨q, p⟩ := by
  unfold buy
  rw [hvolume, Int.zero_mul, Int.zero_add, Int.zero_add, Int.mul_ediv_cancel_left p (by omega)]

/-! ## Between the prices -/

-- The average of nothing has no say, so it is bounded only if there is something.
theorem le_average_buy {lo : Int} (hvolume : 0 ≤ m.volume) (hq : 0 < q)
    (hold : 0 < m.volume → lo ≤ m.average) (hp : lo ≤ p) : lo ≤ (m.buy q p).average := by
  show lo ≤ (m.volume * m.average + q * p) / (m.volume + q)
  rw [Int.le_ediv_iff_mul_le (by omega)]
  have hbought : q * lo ≤ q * p := Int.mul_le_mul_of_nonneg_left hp (by omega)
  have hheld : m.volume * lo ≤ m.volume * m.average := by
    rcases hvolume.eq_or_lt with hzero | hpos
    · rw [← hzero, Int.zero_mul, Int.zero_mul]
    · exact Int.mul_le_mul_of_nonneg_left (hold hpos) hvolume
  linarith

theorem average_buy_le {hi : Int} (hvolume : 0 ≤ m.volume) (hq : 0 < q)
    (hold : 0 < m.volume → m.average ≤ hi) (hp : p ≤ hi) : (m.buy q p).average ≤ hi := by
  show (m.volume * m.average + q * p) / (m.volume + q) ≤ hi
  apply Int.ediv_le_of_le_mul (by omega)
  have hbought : q * p ≤ q * hi := Int.mul_le_mul_of_nonneg_left hp (by omega)
  have hheld : m.volume * m.average ≤ m.volume * hi := by
    rcases hvolume.eq_or_lt with hzero | hpos
    · rw [← hzero, Int.zero_mul, Int.zero_mul]
    · exact Int.mul_le_mul_of_nonneg_left (hold hpos) hvolume
  linarith

/-! ## What rounding loses -/

theorem volume_mul_average_buy (m : Mean) (q p : Int) : (m.buy q p).volume * (m.buy q p).average =
      m.volume * m.average + q * p - (m.volume * m.average + q * p) % (m.volume + q) := by
  have h := Int.mul_ediv_add_emod (m.volume * m.average + q * p) (m.volume + q)
  show (m.volume + q) * ((m.volume * m.average + q * p) / (m.volume + q)) = _
  omega

def paid (buys : List (Int × Int)) : Int := (buys.map fun buy => buy.1 * buy.2).sum

def bought (buys : List (Int × Int)) : Int := (buys.map Prod.fst).sum

theorem paid_cons (buy : Int × Int) (buys : List (Int × Int)) :
    paid (buy :: buys) = buy.1 * buy.2 + paid buys := sum_cons

theorem bought_cons (buy : Int × Int) (buys : List (Int × Int)) :
    bought (buy :: buys) = buy.1 + bought buys := sum_cons

theorem bought_nonneg {buys : List (Int × Int)} (h : ∀ buy ∈ buys, 0 < buy.1) :
    0 ≤ bought buys := by
  induction buys with
  | nil => exact Int.le_refl 0
  | cons buy buys ih =>
    have hfirst := h buy mem_cons_self
    have hrest := ih fun b hb => h b (.tail _ hb)
    rw [bought_cons]
    omega

theorem buyAll_cons (m : Mean) (buy : Int × Int) (buys : List (Int × Int)) :
    m.buyAll (buy :: buys) = (m.buy buy.1 buy.2).buyAll buys := rfl

theorem buyAll_volume (m : Mean) (buys : List (Int × Int)) :
    (m.buyAll buys).volume = m.volume + bought buys := by
  induction buys generalizing m with
  | nil => exact (Int.add_zero _).symm
  | cons buy buys ih =>
    rw [buyAll_cons, ih, bought_cons, buy_volume]
    omega

theorem buyAll_loss (hvolume : 0 ≤ m.volume) {buys : List (Int × Int)}
    (hbuys : ∀ buy ∈ buys, 0 < buy.1) :
    let after := m.buyAll buys
    after.volume * after.average ≤ m.volume * m.average + paid buys ∧
      m.volume * m.average + paid buys ≤
        after.volume * after.average + buys.length * (after.volume - 1) := by
  induction buys generalizing m with
  | nil =>
    show m.volume * m.average ≤ m.volume * m.average + 0 ∧ _ + (0 : Int) ≤
      m.volume * m.average + ((0 : Nat) : Int) * (m.volume - 1)
    constructor
    · omega
    · rw [Int.natCast_zero, Int.zero_mul]
  | cons buy buys ih =>
    have hq : 0 < buy.1 := hbuys buy mem_cons_self
    have hrest : ∀ b ∈ buys, 0 < b.1 := fun b hb => hbuys b (.tail _ hb)
    obtain ⟨hlow, hhigh⟩ := ih (m := m.buy buy.1 buy.2) (by rw [buy_volume]; omega) hrest
    have hstep := volume_mul_average_buy m buy.1 buy.2
    have hnonneg := Int.emod_nonneg (m.volume * m.average + buy.1 * buy.2)
      (show m.volume + buy.1 ≠ 0 by omega)
    have hlt := Int.emod_lt_of_pos (m.volume * m.average + buy.1 * buy.2)
      (show 0 < m.volume + buy.1 by omega)
    -- the volume only grows, so the last one bounds what this buy loses
    have hgrows : m.volume + buy.1 ≤ ((m.buy buy.1 buy.2).buyAll buys).volume := by
      have hmore := bought_nonneg hrest
      rw [buyAll_volume, buy_volume]
      omega
    dsimp only
    rw [buyAll_cons, paid_cons, length_cons, Int.natCast_succ, Int.add_mul]
    constructor <;> omega

theorem buyAll_empty_loss {buys : List (Int × Int)} (hne : buys ≠ [])
    (hbuys : ∀ buy ∈ buys, 0 < buy.1) :
    let after := empty.buyAll buys
    after.volume * after.average ≤ paid buys ∧
      paid buys ≤ after.volume * after.average + (buys.length - 1) * (after.volume - 1) := by
  obtain ⟨buy, rest, rfl⟩ := exists_cons_of_ne_nil hne
  have hq : 0 < buy.1 := hbuys buy mem_cons_self
  have hfirst : empty.buyAll (buy :: rest) = Mean.buyAll ⟨buy.1, buy.2⟩ rest := by
    rw [buyAll_cons, buy_of_volume_zero rfl hq]
  have hloss := buyAll_loss (m := ⟨buy.1, buy.2⟩) (by show 0 ≤ buy.1; omega)
    fun b hb => hbuys b (.tail _ hb)
  rwa [hfirst, paid_cons, length_cons, Int.natCast_succ, Int.add_sub_cancel]

end Mean

end CexHertz.RunningMean
