import Mathlib.Data.List.Nodup
import Mathlib.Order.MinMax

/-!
# Lists in ascending order of a key

A log written in the order of its numbers can be cut by position or by number. The two meet in the
rank of an entry, the number of entries before it.
-/

namespace CexHertz.Ranked

open List

variable {α : Type*} (key : α → Nat)

def rank (l : List α) (a : α) : Nat := l.countP fun b => decide (key b < key a)

def largest (l : List α) : Nat := (l.map key).foldr max 0

variable {key} {l : List α}

theorem le_largest_iff {n : Nat} : n ≤ largest key l ↔ n = 0 ∨ ∃ a ∈ l, n ≤ key a := by
  induction l with
  | nil => simp [largest]
  | cons x l ih =>
    show n ≤ max (key x) (largest key l) ↔ _
    rw [le_max_iff, ih]
    simp only [mem_cons, exists_eq_or_imp]
    exact or_left_comm

theorem key_le_largest {a : α} (ha : a ∈ l) : key a ≤ largest key l :=
  le_largest_iff.mpr (.inr ⟨a, ha, Nat.le_refl _⟩)

theorem exists_key_eq_largest (key : α → Nat) (hne : l ≠ []) : ∃ a ∈ l, key a = largest key l := by
  rcases le_largest_iff.mp (Nat.le_refl (largest key l)) with hzero | ⟨a, ha, hle⟩
  · obtain ⟨a, ha⟩ := exists_mem_of_ne_nil l hne
    have hle : key a ≤ largest key l := key_le_largest ha
    exact ⟨a, ha, by omega⟩
  · exact ⟨a, ha, Nat.le_antisymm (key_le_largest ha) hle⟩

theorem max?_eq_largest : (l.map fun a => (key a : Int)).max?.getD 0 = largest key l := by
  by_cases hne : l = []
  · subst hne
    rfl
  · have hsome : (l.map fun a => (key a : Int)).max? = some (largest key l : Int) := by
      rw [List.max?_eq_some_iff]
      constructor
      · obtain ⟨a, ha, hkey⟩ := exists_key_eq_largest key hne
        exact mem_map.mpr ⟨a, ha, congrArg Int.ofNat hkey⟩
      · intro n hn
        obtain ⟨a, ha, rfl⟩ := mem_map.mp hn
        exact Int.ofNat_le.mpr (key_le_largest ha)
    rw [hsome, Option.getD_some]

theorem largest_eq_iff_of_subset {l' : List α} (hsub : l' ⊆ l) :
    largest key l = largest key l' ↔ ∀ a ∈ l, key a = 0 ∨ ∃ b ∈ l', key a ≤ key b := by
  have hle : largest key l' ≤ largest key l := by
    rcases le_largest_iff.mp (Nat.le_refl (largest key l')) with hzero | ⟨a, ha, h⟩
    · omega
    · exact h.trans (key_le_largest (hsub ha))
  constructor
  · intro heq a ha
    exact le_largest_iff.mp (heq ▸ key_le_largest ha)
  · intro hall
    refine Nat.le_antisymm ?_ hle
    rcases le_largest_iff.mp (Nat.le_refl (largest key l)) with hzero | ⟨a, ha, h⟩
    · omega
    · exact h.trans (le_largest_iff.mpr (hall a ha))

theorem largest_eq_getLast (h : (l.map key).Pairwise (· < ·)) :
    largest key l = (l.getLast?.map key).getD 0 := by
  induction l with
  | nil => rfl
  | cons x l ih =>
    rw [map_cons, pairwise_cons] at h
    show max (key x) (largest key l) = _
    rw [ih h.2]
    cases hlast : l.getLast? with
    | none =>
      rw [List.getLast?_eq_none_iff.mp hlast]
      simp
    | some y =>
      have hmem : y ∈ l := mem_of_getLast? hlast
      have hlt : key x < key y := h.1 _ (mem_map_of_mem hmem)
      rw [List.getLast?_cons, hlast]
      show max (key x) (key y) = key y
      exact max_eq_right hlt.le

theorem take_eq_filter_rank (h : (l.map key).Pairwise (· < ·)) (n : Nat) :
    l.take n = l.filter fun a => decide (rank key l a < n) := by
  induction l generalizing n with
  | nil => simp
  | cons x l ih =>
    rw [map_cons, pairwise_cons] at h
    have hfirst : rank key (x :: l) x = 0 := by
      refine countP_eq_zero.mpr fun b hb => ?_
      rw [decide_eq_true_eq]
      rcases mem_cons.mp hb with rfl | hb
      · exact Nat.lt_irrefl _
      · exact Nat.lt_asymm (h.1 _ (mem_map_of_mem hb))
    have hrest : ∀ a ∈ l, rank key (x :: l) a = rank key l a + 1 := by
      intro a ha
      refine countP_cons_of_pos ?_
      exact decide_eq_true (h.1 _ (mem_map_of_mem ha))
    cases n with
    | zero => simp
    | succ n =>
      rw [take_succ_cons, filter_cons_of_pos (by simp [hfirst]), ih h.2]
      congr 1
      refine filter_congr fun a ha => decide_eq_decide.mpr ?_
      rw [hrest a ha]
      omega

theorem eq_of_key_eq (h : (l.map key).Pairwise (· < ·)) {a b : α} (ha : a ∈ l) (hb : b ∈ l)
    (heq : key a = key b) : a = b := by
  have hnodup : (l.map key).Nodup := h.imp fun hlt => Nat.ne_of_lt hlt
  exact inj_on_of_nodup_map hnodup ha hb heq

/-- Two selections from an ascending list, read through a map that keeps the key, are the same
exactly if they select the same entries. -/
theorem map_filter_eq_iff {β : Type*} {f : α → β} {g : β → Nat} {p q : α → Bool}
    (h : (l.map key).Pairwise (· < ·)) (hkey : ∀ a ∈ l, g (f a) = key a) :
    (l.filter p).map f = (l.filter q).map f ↔ ∀ a ∈ l, p a = q a := by
  constructor
  · intro heq
    have hmem : ∀ {p q : α → Bool}, (l.filter p).map f = (l.filter q).map f →
        ∀ a ∈ l, p a = true → q a = true := by
      intro p q heq a ha hp
      have hfa : f a ∈ (l.filter q).map f := by
        rw [← heq]
        exact mem_map_of_mem (mem_filter.mpr ⟨ha, hp⟩)
      obtain ⟨b, hb, hfb⟩ := mem_map.mp hfa
      obtain ⟨hbl, hqb⟩ := mem_filter.mp hb
      have hsame : key b = key a := by rw [← hkey b hbl, hfb, hkey a ha]
      rwa [eq_of_key_eq h hbl ha hsame] at hqb
    intro a ha
    exact Bool.eq_iff_iff.mpr ⟨hmem heq a ha, hmem heq.symm a ha⟩
  · intro hall
    rw [filter_congr hall]

end CexHertz.Ranked
