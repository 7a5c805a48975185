import Mathlib.Algebra.Order.BigOperators.Group.List
import Mathlib.Algebra.Order.Ring.Int
import Mathlib.Data.List.Nodup

/-!
# Keyed rows

A table is a list of rows; a row's place is its primary key. `first` is the query for the first row
with a key, `Put` what writing one row under its key does.
-/

namespace CexHertz.Table

open List Option

variable {α β κ : Type*} [DecidableEq κ] (key : α → κ)

def first (k : κ) : List α → Option (Nat × α)
  | [] => none
  | a :: rows =>
    if key a = k then some (0, a) else (first k rows).map fun found => (found.1 + 1, found.2)

def row (k : κ) (rows : List α) : Option α := (first key k rows).map Prod.snd

def cell (column : α → β) (zero : β) (k : κ) (rows : List α) : β :=
  ((row key k rows).map column).getD zero

def Unique (rows : List α) : Prop := (rows.map key).Nodup

/-- The row `new` takes the place of the first row with its key, or is added at the end. -/
inductive Put (new : α) : List α → List α → Prop
  | replace {pre post : List α} {old : α} (hpre : ∀ a ∈ pre, key a ≠ key new)
      (hold : key old = key new) : Put new (pre ++ old :: post) (pre ++ new :: post)
  | append {rows : List α} (hrows : ∀ a ∈ rows, key a ≠ key new) : Put new rows (rows ++ [new])

variable {key} {k : κ} {rows rows' : List α} {new : α}

/-! ## Queries -/

@[simp] theorem row_nil : row key k [] = none := rfl

@[simp] theorem row_cons (a : α) (rows : List α) :
    row key k (a :: rows) = if key a = k then some a else row key k rows := by
  unfold row
  rw [first]
  split
  · rfl
  · rw [Option.map_map]
    rfl

theorem row_append (rows rows' : List α) :
    row key k (rows ++ rows') = (row key k rows).or (row key k rows') := by
  induction rows with
  | nil => rfl
  | cons a rows ih =>
    rw [cons_append, row_cons, row_cons, ih]
    split <;> rfl

theorem row_map {f : β → α} {key' : β → κ} (hkey : ∀ b, key (f b) = key' b)
    (bs : List β) : row key k (bs.map f) = (bs.find? fun b => key' b = k).map f := by
  induction bs with
  | nil => rfl
  | cons b bs ih =>
    rw [map_cons, row_cons, ih, hkey, List.find?_cons]
    by_cases h : key' b = k <;> simp [h]

theorem row_eq_none : row key k rows = none ↔ ∀ a ∈ rows, key a ≠ k := by
  induction rows with
  | nil => simp
  | cons a rows ih =>
    rw [row_cons, forall_mem_cons]
    split
    next h => simp [h]
    next h => rw [ih]; simp [h]

theorem row_eq_some {a : α} (h : row key k rows = some a) : a ∈ rows ∧ key a = k := by
  induction rows with
  | nil => cases h
  | cons b rows ih =>
    rw [row_cons] at h
    split at h
    next hb =>
      cases h
      exact ⟨mem_cons_self, hb⟩
    next =>
      obtain ⟨hmem, hkey⟩ := ih h
      exact ⟨.tail _ hmem, hkey⟩

theorem Unique.row_of_mem (h : Unique key rows) {a : α} (ha : a ∈ rows) :
    row key (key a) rows = some a := by
  induction rows with
  | nil => cases ha
  | cons b rows ih =>
    have hnodup := nodup_cons.mp h
    rw [row_cons]
    rcases mem_cons.mp ha with rfl | hmem
    · exact if_pos rfl
    · rw [if_neg, ih hnodup.2 hmem]
      intro hkey
      exact hnodup.1 (hkey ▸ mem_map_of_mem hmem)

-- The place that the query returns is the place that a write by primary key changes.
theorem first_eq_some {i : Nat} {a : α} (h : first key k rows = some (i, a)) :
    ∃ pre post, rows = pre ++ a :: post ∧ pre.length = i ∧ key a = k ∧ ∀ b ∈ pre, key b ≠ k := by
  induction rows generalizing i with
  | nil => cases h
  | cons b rows ih =>
    rw [first] at h
    split at h
    next hb =>
      cases h
      exact ⟨[], rows, rfl, rfl, hb, fun b hb => nomatch hb⟩
    next hb =>
      obtain ⟨⟨j, c⟩, hfirst, heq⟩ := map_eq_some_iff.mp h
      cases heq
      obtain ⟨pre, post, rfl, rfl, hkey, hpre⟩ := ih hfirst
      exact ⟨b :: pre, post, rfl, rfl, hkey, forall_mem_cons.mpr ⟨hb, hpre⟩⟩

theorem first_eq_none (h : first key k rows = none) : ∀ a ∈ rows, key a ≠ k :=
  row_eq_none.mp (by rw [row, h]; rfl)

/-! ## Writes -/

theorem put_set {i : Nat} {old : α} (h : first key k rows = some (i, old)) (hk : key new = k) :
    Put key new rows (rows.set i new) := by
  obtain ⟨pre, post, rfl, rfl, hkey, hpre⟩ := first_eq_some h
  subst hk
  rw [set_append_right _ _ (Nat.le_refl _), Nat.sub_self, set_cons_zero]
  exact .replace hpre hkey

-- Creating a row after the query found none.
theorem put_append (h : first key k rows = none) (hk : key new = k) :
    Put key new rows (rows ++ [new]) := by
  subst hk
  exact .append (first_eq_none h)

theorem Put.row_self (h : Put key new rows rows') : row key (key new) rows' = some new := by
  cases h with
  | replace hpre hold => rw [row_append, row_eq_none.mpr hpre, row_cons, if_pos rfl, none_or]
  | append hrows => rw [row_append, row_eq_none.mpr hrows, row_cons, if_pos rfl, none_or]

theorem Put.row_other (h : Put key new rows rows') (hk : k ≠ key new) :
    row key k rows' = row key k rows := by
  cases h with
  | replace hpre hold =>
    rw [row_append, row_append, row_cons, row_cons, hold, if_neg hk.symm, if_neg hk.symm]
  | append hrows =>
    rw [row_append, row_cons, if_neg hk.symm, row_nil, or_none]

omit [DecidableEq κ] in
theorem Put.mem (h : Put key new rows rows') {a : α} (ha : a ∈ rows') : a = new ∨ a ∈ rows := by
  cases h with
  | replace hpre hold =>
    rcases mem_append.mp ha with hmem | hmem
    · exact .inr (mem_append_left _ hmem)
    · rcases mem_cons.mp hmem with rfl | hmem
      · exact .inl rfl
      · exact .inr (mem_append_right _ (.tail _ hmem))
  | append hrows =>
    rcases mem_append.mp ha with hmem | hmem
    · exact .inr hmem
    · exact .inl (mem_singleton.mp hmem)

-- No key gets lost.
omit [DecidableEq κ] in
theorem Put.exists_mem (h : Put key new rows rows') {a : α} (ha : a ∈ rows) :
    ∃ b ∈ rows', key b = key a := by
  cases h with
  | replace hpre hold =>
    rcases mem_append.mp ha with hmem | hmem
    · exact ⟨a, mem_append_left _ hmem, rfl⟩
    · rcases mem_cons.mp hmem with rfl | hmem
      · exact ⟨new, mem_append_right _ mem_cons_self, hold.symm⟩
      · exact ⟨a, mem_append_right _ (.tail _ hmem), rfl⟩
  | append hrows => exact ⟨a, mem_append_left _ ha, rfl⟩

omit [DecidableEq κ] in
theorem Put.unique (h : Put key new rows rows') (hrows : Unique key rows) : Unique key rows' := by
  cases h with
  | replace hpre hold =>
    unfold Unique at hrows ⊢
    rw [map_append, map_cons] at hrows ⊢
    rwa [← hold]
  | append hne =>
    unfold Unique
    rw [map_append, map_singleton]
    refine nodup_append.mpr ⟨hrows, nodup_singleton _, ?_⟩
    intro a ha b hb
    obtain ⟨row, hrow, rfl⟩ := mem_map.mp ha
    rw [mem_singleton.mp hb]
    exact hne row hrow

/-! ## Inserts that leave a conflicting row alone -/

variable (key) in
def insertNew (rows : List α) (new : α) : List α :=
  match row key (key new) rows with
  | some _ => rows
  | none => rows ++ [new]

theorem row_insertNew :
    row key k (insertNew key rows new) = (row key k rows).or (row key k [new]) := by
  unfold insertNew
  split
  next old hold =>
    rw [row_cons, row_nil]
    split
    next hk => rw [← hk, hold, some_or]
    next => rw [or_none]
  next => exact row_append _ _

theorem Unique.insertNew (h : Unique key rows) : Unique key (insertNew key rows new) := by
  unfold Table.insertNew
  split
  next => exact h
  next hnone => exact (Put.append (row_eq_none.mp hnone)).unique h

theorem row_foldl_insertNew (news : List α) :
    row key k (news.foldl (Table.insertNew key) rows) = (row key k rows).or (row key k news) := by
  induction news generalizing rows with
  | nil => rw [foldl_nil, row_nil, or_none]
  | cons new news ih =>
    rw [foldl_cons, ih, row_insertNew, Option.or_assoc, ← row_append]
    rfl

theorem Unique.foldl_insertNew (h : Unique key rows) (news : List α) :
    Unique key (news.foldl (Table.insertNew key) rows) := by
  induction news generalizing rows with
  | nil => exact h
  | cons new news ih => exact ih h.insertNew

theorem Unique.filter_eq (h : Unique key rows) {a : α} (ha : row key k rows = some a) :
    rows.filter (fun b => key b = k) = [a] := by
  induction rows with
  | nil => cases ha
  | cons b rows ih =>
    have hnodup := nodup_cons.mp h
    rw [row_cons] at ha
    by_cases hb : key b = k
    · rw [if_pos hb] at ha
      cases ha
      rw [filter_cons_of_pos (by simpa using hb), filter_eq_nil_iff.mpr]
      intro c hc hk
      apply hnodup.1
      rw [hb, ← of_decide_eq_true hk]
      exact mem_map_of_mem hc
    · rw [if_neg hb] at ha
      rw [filter_cons_of_neg (by simpa using hb)]
      exact ih hnodup.2 ha

/-! ## Sums of a column -/

theorem Put.sum_map (h : Put key new rows rows') (f : α → Int) :
    (rows'.map f).sum = (rows.map f).sum - cell key f 0 (key new) rows + f new := by
  unfold cell
  cases h with
  | replace hpre hold =>
    rw [row_append, row_eq_none.mpr hpre, row_cons, if_pos hold, none_or]
    simp only [map_append, map_cons, sum_append, sum_cons, map_some, getD_some]
    omega
  | append hrows =>
    rw [row_eq_none.mpr hrows]
    simp only [map_append, map_cons, map_nil, sum_append, sum_cons, sum_nil, map_none, getD_none]
    omega

theorem cell_cons (f : α → β) (zero : β) (a : α) (rows : List α) :
    cell key f zero k (a :: rows) = if key a = k then f a else cell key f zero k rows := by
  unfold cell
  rw [row_cons]
  split <;> rfl

-- One holder has at most what all holders have together.
theorem cell_le_sum {f : α → Int} (hf : ∀ a ∈ rows, 0 ≤ f a) (k : κ) :
    cell key f 0 k rows ≤ (rows.map f).sum := by
  induction rows with
  | nil => exact Int.le_refl 0
  | cons a rows ih =>
    have hf' : ∀ b ∈ rows, 0 ≤ f b := fun b hb => hf b (.tail _ hb)
    have hrest := ih hf'
    have hsum := sum_nonneg (forall_mem_map.mpr hf')
    have ha := hf a mem_cons_self
    rw [cell_cons, map_cons, sum_cons]
    split <;> omega

theorem cell_add_cell_le_sum {f : α → Int} (hf : ∀ a ∈ rows, 0 ≤ f a) {k₁ k₂ : κ}
    (hne : k₁ ≠ k₂) : cell key f 0 k₁ rows + cell key f 0 k₂ rows ≤ (rows.map f).sum := by
  induction rows with
  | nil => exact Int.le_refl 0
  | cons a rows ih =>
    have hf' : ∀ b ∈ rows, 0 ≤ f b := fun b hb => hf b (.tail _ hb)
    have hrest := ih hf'
    have h₁ : cell key f 0 k₁ rows ≤ (rows.map f).sum := cell_le_sum hf' k₁
    have h₂ : cell key f 0 k₂ rows ≤ (rows.map f).sum := cell_le_sum hf' k₂
    have ha := hf a mem_cons_self
    rw [cell_cons, cell_cons, map_cons, sum_cons]
    by_cases hk₁ : key a = k₁
    · rw [if_pos hk₁, if_neg (fun hk₂ => hne (hk₁.symm.trans hk₂))]
      omega
    · rw [if_neg hk₁]
      split <;> omega

end CexHertz.Table
