import Mathlib.Data.Set.Insert

/-!
# Placements kept in two directions

Items are placed at places, and a placement is kept twice: each place lists its items, each item has
routes to places. The moves below change both directions; the two go on agreeing if the place that
is filled lists no item but those moved to it.
-/

namespace CexHertz.Placement

variable {σ π : Type*} {listed routed away : σ → π → Prop} {old new : π}
variable {items : Set σ} {s : σ}

def Synced (listed routed away : σ → π → Prop) : Prop :=
  ∀ s p, listed s p ↔ routed s p ∧ ¬ away s p

def Placed (listed : σ → π → Prop) (s : σ) : Prop := ∃ p, listed s p

def ListsOnly (listed : σ → π → Prop) (p : π) (items : Set σ) : Prop := ∀ s, listed s p → s ∈ items

/-! ## Moves -/

def leave (items : Set σ) (old : π) (listed : σ → π → Prop) : σ → π → Prop :=
  fun s p => listed s p ∧ ¬ (p = old ∧ s ∈ items)

def fill (items : Set σ) (new : π) (listed : σ → π → Prop) : σ → π → Prop :=
  fun s p => (p = new ∧ s ∈ items) ∨ (p ≠ new ∧ listed s p)

def withdraw (items : Set σ) (new : π) (listed : σ → π → Prop) : σ → π → Prop :=
  fun s p => listed s p ∧ (p = new ∨ s ∉ items)

def reroute (item : σ) (old new : π) (routed : σ → π → Prop) : σ → π → Prop :=
  fun s p => (s = item ∧ p = new) ∨ (routed s p ∧ ¬ (s = item ∧ p = old))

def gather (items : Set σ) (new : π) (routed : σ → π → Prop) : σ → π → Prop :=
  fun s p => (s ∈ items ∧ p = new) ∨ (s ∉ items ∧ routed s p)

/-! ## The directions stay in agreement -/

theorem Synced.leave (h : Synced listed routed fun _ _ => False) (items : Set σ) (old : π) :
    Synced (leave items old listed) routed fun s p => p = old ∧ s ∈ items := by
  intro s p
  rw [Placement.leave, h s p]
  simp only [not_false_eq_true, and_true]

theorem Synced.arrive {item : σ} {rest : Set σ}
    (h : Synced listed routed fun s p => p = old ∧ s ∈ items) (hitems : items = insert item rest)
    (hne : new ≠ old) (honly : ListsOnly listed new {item}) :
    Synced (fill {item} new listed) (reroute item old new routed)
      fun s p => p = old ∧ s ∈ rest := by
  intro s p
  have hs : listed s p ↔ routed s p ∧ ¬ (p = old ∧ s ∈ items) := h s p
  rw [hitems, Set.mem_insert_iff] at hs
  unfold fill reroute
  rw [Set.mem_singleton_iff]
  rcases eq_or_ne p new with rfl | hp
  · have hfound : routed s p → s = item := fun hrouted =>
      honly s (hs.mpr ⟨hrouted, fun hout => hne hout.1⟩)
    constructor
    · rintro (⟨-, rfl⟩ | ⟨habs, -⟩)
      · exact ⟨.inl ⟨rfl, rfl⟩, fun hout => hne hout.1⟩
      · exact absurd rfl habs
    · rintro ⟨⟨rfl, -⟩ | ⟨hrouted, -⟩, -⟩
      · exact .inl ⟨rfl, rfl⟩
      · exact .inl ⟨rfl, hfound hrouted⟩
  · constructor
    · rintro (⟨habs, -⟩ | ⟨-, hlisted⟩)
      · exact absurd habs hp
      · obtain ⟨hrouted, hout⟩ := hs.mp hlisted
        refine ⟨.inr ⟨hrouted, ?_⟩, fun hrest => hout ⟨hrest.1, .inr hrest.2⟩⟩
        rintro ⟨hitem, hpold⟩
        exact hout ⟨hpold, .inl hitem⟩
    · rintro ⟨⟨-, habs⟩ | ⟨hrouted, hmoved⟩, hrest⟩
      · exact absurd habs hp
      · refine .inr ⟨hp, hs.mpr ⟨hrouted, ?_⟩⟩
        rintro ⟨hpold, rfl | hin⟩
        · exact hmoved ⟨rfl, hpold⟩
        · exact hrest ⟨hpold, hin⟩

theorem Synced.gather (h : Synced listed routed fun _ _ => False)
    (honly : ListsOnly listed new items) :
    Synced (withdraw items new (fill items new listed)) (gather items new routed)
      fun _ _ => False := by
  intro s p
  have hs : listed s p ↔ routed s p := by simpa using h s p
  unfold withdraw fill Placement.gather
  simp only [not_false_eq_true, and_true]
  rcases eq_or_ne p new with rfl | hp
  · constructor
    · rintro ⟨⟨-, hin⟩ | ⟨habs, -⟩, -⟩
      · exact .inl ⟨hin, rfl⟩
      · exact absurd rfl habs
    · rintro (⟨hin, -⟩ | ⟨-, hrouted⟩)
      · exact ⟨.inl ⟨rfl, hin⟩, .inl rfl⟩
      · exact ⟨.inl ⟨rfl, honly s (hs.mpr hrouted)⟩, .inl rfl⟩
  · simp [hp, hs, and_comm]

/-! ## No item is lost -/

theorem Placed.leave (h : Placed listed s) (items : Set σ) (old : π) :
    Placed (leave items old listed) s ∨ s ∈ items := by
  by_cases hs : s ∈ items
  · exact .inr hs
  · obtain ⟨p, hp⟩ := h
    exact .inl ⟨p, hp, fun hout => hs hout.2⟩

theorem Placed.fill (h : Placed listed s) (honly : ListsOnly listed new items) :
    Placed (fill items new listed) s := by
  obtain ⟨p, hp⟩ := h
  rcases eq_or_ne p new with rfl | hne
  · exact ⟨p, .inl ⟨rfl, honly s hp⟩⟩
  · exact ⟨p, .inr ⟨hne, hp⟩⟩

theorem placed_fill_of_mem (h : s ∈ items) :
    Placed (fill items new listed) s := ⟨new, .inl ⟨rfl, h⟩⟩

theorem Placed.gather (h : Placed listed s) (honly : ListsOnly listed new items) :
    Placed (withdraw items new (Placement.fill items new listed)) s := by
  by_cases hs : s ∈ items
  · exact ⟨new, .inl ⟨rfl, hs⟩, .inl rfl⟩
  · obtain ⟨p, hp⟩ := h.fill honly
    exact ⟨p, hp, .inr hs⟩

end CexHertz.Placement
