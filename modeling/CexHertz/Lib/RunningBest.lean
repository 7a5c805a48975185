import Mathlib.Order.Lattice
import Mathlib.Data.List.Basic

/-!
# The best entry so far

A loop that keeps an entry until a better one comes.  Where better means having a larger key, it
ends with an entry of the largest key; the smallest key is the largest one of the dual order.
-/

namespace CexHertz.RunningBest

open List

variable {α γ κ κ' : Type*}

def best (better : α → α → Bool) (a : α) (l : List α) : α :=
  l.foldl (fun m x => if better x m then x else m) a

variable {better : α → α → Bool} {a b : α} {l : List α}

theorem best_mem : best better a l ∈ a :: l := by
  induction l generalizing a with
  | nil => exact mem_singleton_self a
  | cons x l ih =>
    have hmem : best better (if better x a then x else a) l ∈
        (if better x a then x else a) :: l := ih
    rcases mem_cons.mp hmem with heq | hmem
    · show best better (if better x a then x else a) l ∈ a :: x :: l
      rw [heq]
      split
      · exact .tail _ mem_cons_self
      · exact mem_cons_self
    · exact .tail _ (.tail _ hmem)

theorem best_map {better' : γ → γ → Bool} {f : α → γ}
    (h : ∀ x y, better x y = better' (f x) (f y)) :
    best better' (f a) (l.map f) = f (best better a l) := by
  unfold best
  rw [foldl_map]
  refine foldl_hom f fun m x => ?_
  rw [h]
  split <;> rfl

section

variable [LinearOrder κ]

theorem key_le_best (key : α → κ)
    (h : ∀ x ∈ a :: l, ∀ y ∈ a :: l, better x y = true ↔ key y < key x) :
    ∀ x ∈ a :: l, key x ≤ key (best better a l) := by
  induction l generalizing a with
  | nil =>
    intro x hx
    rw [mem_singleton.mp hx]
    exact le_refl _
  | cons x l ih =>
    -- of the first two entries the one that is kept has the larger key
    have hfirst : ∃ m ∈ a :: x :: l, (if better x a then x else a) = m ∧ key a ≤ key m ∧
        key x ≤ key m := by
      have hbetter := h x (by simp) a (by simp)
      split
      next hlt => exact ⟨x, by simp, rfl, (hbetter.mp hlt).le, le_refl _⟩
      next hnot => exact ⟨a, by simp, rfl, le_refl _, not_lt.mp fun hlt => hnot (hbetter.mpr hlt)⟩
    obtain ⟨m, hm, heq, ha, hx⟩ := hfirst
    have hrest : ∀ y ∈ m :: l, key y ≤ key (best better m l) := by
      have hsub : ∀ y ∈ m :: l, y ∈ a :: x :: l := by
        intro y hy
        rcases mem_cons.mp hy with rfl | hy
        · exact hm
        · exact .tail _ (.tail _ hy)
      exact ih fun y hy z hz => h y (hsub y hy) z (hsub z hz)
    have hbest : best better a (x :: l) = best better m l := congrArg (best better · l) heq
    rw [hbest]
    intro y hy
    rcases mem_cons.mp hy with rfl | hy
    · exact ha.trans (hrest m mem_cons_self)
    · rcases mem_cons.mp hy with rfl | hy
      · exact hx.trans (hrest m mem_cons_self)
      · exact hrest y (.tail _ hy)

/-- The best entries by two keys look the same by the first one exactly when whatever is best by the
second one is best by the first. -/
theorem best_keys_eq_iff [LinearOrder κ'] (key : α → κ) (key' : α → κ') (ha : a ∈ l)
    (hbest : ∀ x ∈ l, key x ≤ key a) (hb : b ∈ l) (hbest' : ∀ x ∈ l, key' x ≤ key' b)
    (hcongr : ∀ x ∈ l, ∀ y ∈ l, key' x = key' y → key x = key y) :
    key a = key b ↔ ∀ c ∈ l, (∀ x ∈ l, key' x ≤ key' c) → ∀ x ∈ l, key x ≤ key c := by
  constructor
  · intro heq c hc hmax x hx
    have hsame : key c = key b :=
      hcongr c hc b hb (le_antisymm (hbest' c hc) (hmax b hb))
    rw [hsame, ← heq]
    exact hbest x hx
  · intro h
    exact le_antisymm (h b hb hbest' a ha) (hbest b hb)

end

end CexHertz.RunningBest
