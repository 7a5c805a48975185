import Mathlib.Data.List.Count

/-!
# Batches from the head of a queue

A worker takes the first `b` entries of a sorted queue, and those it accepts leave. While fewer than
`b` rejected entries can stand before an entry, every batch takes it or accepts another one; with
`b` of them strictly before it, no batch takes it.
-/

namespace CexHertz.HeadOfLine

open List

variable {α : Type*} {r : α → α → Prop} {queue : List α} {b : Nat} {x : α} {blocks : α → Bool}

theorem exists_accepted_before {ok : α → Bool} (hsorted : queue.Pairwise r) (hx : x ∈ queue)
    (hnot : x ∉ queue.take b)
    (hblocks : ∀ y ∈ queue.take b, r y x → ok y = false → blocks y = true)
    (hroom : queue.countP blocks < b) : ∃ y ∈ queue.take b, ok y = true := by
  by_contra hnone
  have hdrop : x ∈ queue.drop b := by
    rw [← take_append_drop b queue, mem_append] at hx
    exact hx.resolve_left hnot
  have hall : (queue.take b).countP blocks = (queue.take b).length := by
    rw [countP_eq_length]
    intro y hy
    rw [← take_append_drop b queue] at hsorted
    refine hblocks y hy ((pairwise_append.mp hsorted).2.2 y hy x hdrop) ?_
    exact Bool.eq_false_iff.mpr fun hok => hnone ⟨y, hy, hok⟩
  have hlength : b < queue.length := by
    have := length_pos_of_mem hdrop
    rw [length_drop] at this
    omega
  have hle := (take_sublist b queue).countP_le (p := blocks)
  rw [hall, length_take] at hle
  omega

theorem not_mem_take_of_blocked (hsorted : queue.Pairwise r)
    (hfirst : ∀ y, blocks y = true → ¬ r x y) (hself : blocks x = false)
    (hblocked : b ≤ queue.countP blocks) : x ∉ queue.take b := by
  intro hx
  have hdrop : (queue.drop b).countP blocks = 0 := by
    rw [countP_eq_zero]
    intro y hy hblocks
    rw [← take_append_drop b queue] at hsorted
    exact hfirst y hblocks ((pairwise_append.mp hsorted).2.2 x hx y hy)
  have hlt := countP_lt_length_iff.mpr ⟨x, hx, hself⟩
  rw [← take_append_drop b queue, countP_append, hdrop] at hblocked
  rw [length_take] at hlt
  omega

end CexHertz.HeadOfLine
