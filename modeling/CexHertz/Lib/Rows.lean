import Mathlib.Logic.Function.Basic
import Mathlib.Data.List.Basic

/-!
# Rows by primary key and what a transaction sees of them

Committed rows are a partial function of their primary key. A transaction sees them under its own
writes (`view`), and committing makes the view the rows. Two rows may have the same `key`; `Owns`
describes transactions that keep to a set of keys, and `Owns.rebase` says that they do not notice
what others commit elsewhere.
-/

namespace CexHertz.Rows

open List Function

variable {α β κ : Type*} (key : α → κ)

def view (rows : Nat → Option α) : List (Nat × α) → Nat → Option α
  | [] => rows
  | (id, a) :: writes => update (view rows writes) id (some a)

def first [DecidableEq κ] (k : κ) (rows : Nat → Option α) : Nat → Option (Nat × α)
  | 0 => none
  | n + 1 => (first k rows n).or ((rows n).bind fun a => if key a = k then some (n, a) else none)

def cell [DecidableEq κ] (column : α → β) (zero : β) (k : κ) (rows : Nat → Option α) (n : Nat) :
    β :=
  ((first key k rows n).map fun found => column found.2).getD zero

def Below (rows : Nat → Option α) (n : Nat) : Prop := ∀ i a, rows i = some a → i < n

def Unique (rows : Nat → Option α) : Prop :=
  ∀ i j a b, rows i = some a → rows j = some b → key a = key b → i = j

def Agree (k : κ) (rows rows' : Nat → Option α) : Prop :=
  ∀ i a, key a = k → (rows i = some a ↔ rows' i = some a)

/-- The row at the place has the key of `new`, or the place is free and no row has it. -/
def Fits (rows : Nat → Option α) (id : Nat) (new : α) : Prop :=
  (∃ old, rows id = some old ∧ key old = key new) ∨
    (rows id = none ∧ ∀ i a, rows i = some a → key a ≠ key new)

variable {key} {k : κ} {rows rows' : Nat → Option α} {writes : List (Nat × α)} {n n' id : Nat}

/-! ## Queries -/

section

variable [DecidableEq κ]

theorem first_eq_some {i : Nat} {a : α} (h : first key k rows n = some (i, a)) :
    rows i = some a ∧ key a = k := by
  induction n with
  | zero => cases h
  | succ n ih =>
    rw [first, Option.or_eq_some_iff] at h
    rcases h with h | ⟨-, h⟩
    · exact ih h
    · obtain ⟨b, hb, hfound⟩ := Option.bind_eq_some_iff.mp h
      split at hfound
      next hkey =>
        cases hfound
        exact ⟨hb, hkey⟩
      · cases hfound

theorem first_eq_none (h : first key k rows n = none) {i : Nat} {a : α} (hi : i < n)
    (ha : rows i = some a) : key a ≠ k := by
  induction n with
  | zero => omega
  | succ n ih =>
    rw [first, Option.or_eq_none_iff] at h
    rcases Nat.lt_succ_iff_lt_or_eq.mp hi with hlt | rfl
    · exact ih h.1 hlt
    · intro hkey
      rw [ha, Option.bind_some, if_pos hkey] at h
      cases h.2

-- Without a second row with its key, a row is the one that is found.
theorem first_of_row (hunique : Unique key rows) (hbelow : Below rows n) {i : Nat} {a : α}
    (h : rows i = some a) (hkey : key a = k) : first key k rows n = some (i, a) := by
  cases hfirst : first key k rows n with
  | none => exact absurd hkey (first_eq_none hfirst (hbelow i a h) h)
  | some found =>
    obtain ⟨hrow, hk⟩ := first_eq_some hfirst
    have hi : found.1 = i := hunique _ _ _ _ hrow h (hk.trans hkey.symm)
    rw [hi, h] at hrow
    rw [← hi, Option.some.inj hrow]

theorem cell_of_row (hunique : Unique key rows) (hbelow : Below rows n) {i : Nat} {a : α}
    (h : rows i = some a) (hkey : key a = k) (column : α → β) (zero : β) :
    cell key column zero k rows n = column a := by
  unfold cell
  rw [first_of_row hunique hbelow h hkey]
  rfl

theorem cell_of_none (h : ∀ i a, rows i = some a → key a ≠ k) (column : α → β) (zero : β) :
    cell key column zero k rows n = zero := by
  unfold cell
  cases hfirst : first key k rows n with
  | none => rfl
  | some found =>
    obtain ⟨hrow, hk⟩ := first_eq_some hfirst
    exact absurd hk (h _ _ hrow)

theorem cell_eq (hunique : Unique key rows) (hbelow : Below rows n) (hunique' : Unique key rows')
    (hbelow' : Below rows' n') {column : α → β} {zero : β}
    (h : ∀ i a, rows i = some a → key a = k →
      ∃ b, rows' i = some b ∧ key b = k ∧ column b = column a)
    (h' : ∀ i b, rows' i = some b → key b = k → ∃ a, rows i = some a ∧ key a = k) :
    cell key column zero k rows' n' = cell key column zero k rows n := by
  cases hfirst : first key k rows n with
  | some found =>
    obtain ⟨hrow, hk⟩ := first_eq_some hfirst
    obtain ⟨b, hb, hkb, hcolumn⟩ := h _ _ hrow hk
    rw [cell_of_row hunique hbelow hrow hk, cell_of_row hunique' hbelow' hb hkb, hcolumn]
  | none =>
    have hnone : ∀ i a, rows i = some a → key a ≠ k :=
      fun i a ha => first_eq_none hfirst (hbelow i a ha) ha
    rw [cell_of_none hnone, cell_of_none]
    intro i b hb hkb
    obtain ⟨a, ha, hka⟩ := h' i b hb hkb
    exact hnone i a ha hka

theorem Agree.cell (h : Agree key k rows rows') (hunique : Unique key rows)
    (hbelow : Below rows n) (hunique' : Unique key rows') (hbelow' : Below rows' n')
    (column : α → β) (zero : β) :
    cell key column zero k rows' n' = cell key column zero k rows n :=
  cell_eq hunique hbelow hunique' hbelow'
    (fun i a ha hk => ⟨a, (h i a hk).mp ha, hk, rfl⟩)
    (fun i b hb hk => ⟨b, (h i b hk).mpr hb, hk⟩)

end

theorem Below.mono (h : Below rows n) (hle : n ≤ n') : Below rows n' :=
  fun i a ha => Nat.lt_of_lt_of_le (h i a ha) hle

/-! ## Writing one row -/

section

variable {new : α}

theorem Fits.unique (h : Fits key rows id new) (hunique : Unique key rows) :
    Unique key (update rows id (some new)) := by
  -- the written row is the only one with its key
  have hself : ∀ j b, j ≠ id → rows j = some b → key b ≠ key new := by
    intro j b hj hb hkey
    rcases h with ⟨old, hold, hk⟩ | ⟨-, hnone⟩
    · exact hj (hunique j id b old hb hold (hkey.trans hk.symm))
    · exact hnone j b hb hkey
  intro i j a b ha hb hkey
  rw [update_apply] at ha hb
  split at ha <;> split at hb
  next hi hj => exact hi.trans hj.symm
  next hi hj =>
    cases ha
    exact absurd hkey.symm (hself j b hj hb)
  next hi hj =>
    cases hb
    exact absurd hkey (hself i a hi ha)
  next => exact hunique i j a b ha hb hkey

theorem Fits.agree (h : Fits key rows id new) (hk : k ≠ key new) :
    Agree key k rows (update rows id (some new)) := by
  intro i a hka
  rw [update_apply]
  split
  next hi =>
    subst hi
    constructor
    · intro ha
      rcases h with ⟨old, hold, hkey⟩ | ⟨hnone, -⟩
      · rw [hold] at ha
        cases ha
        exact absurd (hka.symm.trans hkey) hk
      · rw [hnone] at ha
        cases ha
    · intro ha
      cases ha
      exact absurd hka.symm hk
  next => exact Iff.rfl

end

/-! ## Views -/

theorem view_of_not_mem (h : id ∉ writes.map Prod.fst) : view rows writes id = rows id := by
  induction writes with
  | nil => rfl
  | cons w writes ih =>
    rw [map_cons, mem_cons, not_or] at h
    rw [view, update_of_ne h.1, ih h.2]

theorem view_of_mem (h : id ∈ writes.map Prod.fst) :
    ∃ a, (id, a) ∈ writes ∧ ∀ rows, view rows writes id = some a := by
  induction writes with
  | nil => cases h
  | cons w writes ih =>
    by_cases hid : id = w.1
    · subst hid
      exact ⟨w.2, mem_cons_self, fun rows => by rw [view, update_self]⟩
    · obtain ⟨a, hmem, hview⟩ := ih ((mem_cons.mp h).resolve_left hid)
      refine ⟨a, .tail _ hmem, fun rows => ?_⟩
      rw [view, update_of_ne hid, hview]

theorem view_cases {a : α} (h : view rows writes id = some a) :
    (id, a) ∈ writes ∨ (id ∉ writes.map Prod.fst ∧ rows id = some a) := by
  by_cases hid : id ∈ writes.map Prod.fst
  · obtain ⟨b, hmem, hview⟩ := view_of_mem hid
    rw [hview] at h
    cases h
    exact .inl hmem
  · rw [view_of_not_mem hid] at h
    exact .inr ⟨hid, h⟩

theorem Below.view (h : Below rows n) (hwrites : ∀ w ∈ writes, w.1 < n) :
    Below (view rows writes) n := by
  intro i a ha
  rcases view_cases ha with hmem | ⟨-, hrow⟩
  · exact hwrites _ hmem
  · exact h i a hrow

/-! ## Transactions that keep to their keys -/

structure Owns (key : α → κ) (owned : κ → Prop) (rows : Nat → Option α)
    (writes : List (Nat × α)) : Prop where
  unique : Unique key (view rows writes)
  writes_owned : ∀ w ∈ writes, owned (key w.2)
  same_key : ∀ w ∈ writes, ∀ old, rows w.1 = some old → key old = key w.2

section

variable {owned owned' : κ → Prop}

theorem Owns.mono (h : Owns key owned rows writes) (hle : ∀ k, owned k → owned' k) :
    Owns key owned' rows writes :=
  ⟨h.unique, fun w hw => hle _ (h.writes_owned w hw), h.same_key⟩

theorem Owns.nil (hunique : Unique key rows) : Owns key owned rows [] :=
  ⟨hunique, nofun, nofun⟩

theorem Owns.agree (h : Owns key owned rows writes) (hk : ¬ owned k) :
    Agree key k rows (view rows writes) := by
  intro i a hka
  constructor
  · intro ha
    rw [view_of_not_mem, ha]
    intro hmem
    obtain ⟨w, hw, rfl⟩ := mem_map.mp hmem
    have hkey := h.same_key w hw a ha
    exact hk (hka ▸ hkey ▸ h.writes_owned w hw)
  · intro ha
    rcases view_cases ha with hmem | ⟨-, hrow⟩
    · exact absurd (hka ▸ h.writes_owned _ hmem) hk
    · exact hrow

theorem Owns.write (h : Owns key owned rows writes) {new : α}
    (hfits : Fits key (view rows writes) id new) (hnew : owned (key new)) :
    Owns key owned rows ((id, new) :: writes) where
  unique := hfits.unique h.unique
  writes_owned := forall_mem_cons.mpr ⟨hnew, h.writes_owned⟩
  same_key := by
    refine forall_mem_cons.mpr ⟨fun old hold => ?_, h.same_key⟩
    by_cases hid : id ∈ writes.map Prod.fst
    · obtain ⟨a, hmem, hview⟩ := view_of_mem hid
      rcases hfits with ⟨seen, hseen, hkey⟩ | ⟨hnone, -⟩
      · rw [hview] at hseen
        cases hseen
        exact (h.same_key _ hmem old hold).trans hkey
      · rw [hview] at hnone
        cases hnone
    · rcases hfits with ⟨seen, hseen, hkey⟩ | ⟨hnone, -⟩
      · rw [view_of_not_mem hid, hold] at hseen
        cases hseen
        exact hkey
      · rw [view_of_not_mem hid, hold] at hnone
        cases hnone

/-- Other rows are committed: if the rows with owned keys stay and the new places stay free, the
transaction goes on as if nothing had happened. -/
theorem Owns.rebase (h : Owns key owned rows writes) (hunique : Unique key rows')
    (hagree : ∀ k, owned k → Agree key k rows rows')
    (hfree : ∀ w ∈ writes, rows w.1 = none → rows' w.1 = none) :
    Owns key owned rows' writes ∧
      ∀ k, owned k → Agree key k (view rows writes) (view rows' writes) := by
  have hview : ∀ k, owned k → Agree key k (view rows writes) (view rows' writes) := by
    intro k hk i a hka
    by_cases hid : i ∈ writes.map Prod.fst
    · obtain ⟨b, -, hb⟩ := view_of_mem hid
      rw [hb, hb]
    · rw [view_of_not_mem hid, view_of_not_mem hid]
      exact hagree k hk i a hka
  refine ⟨⟨?_, h.writes_owned, ?_⟩, hview⟩
  · intro i j a b ha hb hkey
    by_cases hk : owned (key a)
    · exact h.unique i j a b ((hview _ hk i a rfl).mpr ha) ((hview _ hk j b hkey.symm).mpr hb) hkey
    · -- neither row was written here
      rcases view_cases ha with hmem | ⟨-, ha⟩
      · exact absurd (h.writes_owned _ hmem) hk
      · rcases view_cases hb with hmem | ⟨-, hb⟩
        · exact absurd (hkey ▸ h.writes_owned _ hmem) hk
        · exact hunique i j a b ha hb hkey
  · intro w hw old hold
    cases hrow : rows w.1 with
    | none =>
      rw [hfree w hw hrow] at hold
      cases hold
    | some a =>
      have hkey := h.same_key w hw a hrow
      have hstays := (hagree _ (h.writes_owned w hw) w.1 a hkey).mp hrow
      rw [hstays] at hold
      cases hold
      exact hkey

end

end CexHertz.Rows
