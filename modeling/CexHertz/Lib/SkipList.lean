import Mathlib.Order.Defs.Unbundled
import Mathlib.Data.List.Pairwise

/-!
# Ordered maps

The contract of an ordered map with `Front`, `Get`, `Set`, `Remove` and `Len`, over an arbitrary
strict total order on the keys. Its value is the list of its elements in ascending order, which
`sortedList` is made of.
-/

namespace CexHertz

open List

/-! ## Ascending association lists -/

namespace Assoc

variable {κ ν : Type}

def Ascending (before : κ → κ → Prop) (l : List (κ × ν)) : Prop :=
  l.Pairwise fun a b => before a.1 b.1

def get [DecidableEq κ] (k : κ) : List (κ × ν) → Option ν
  | [] => none
  | (k', v) :: rest => if k = k' then some v else get k rest

def remove [DecidableEq κ] (k : κ) : List (κ × ν) → List (κ × ν)
  | [] => []
  | (k', v) :: rest => if k = k' then rest else (k', v) :: remove k rest

/-- Replace the value at `k`, or put a new element where the order wants it. -/
def set [DecidableEq κ] (before : κ → κ → Prop) [DecidableRel before] (k : κ) (v : ν) :
    List (κ × ν) → List (κ × ν)
  | [] => [(k, v)]
  | (k', v') :: rest =>
    if k = k' then (k, v) :: rest
    else if before k k' then (k, v) :: (k', v') :: rest
    else (k', v') :: set before k v rest

variable {before : κ → κ → Prop} {k : κ} {v : ν} {l : List (κ × ν)}

theorem Ascending.not_before_head [IsStrictTotalOrder κ before] {x : κ × ν}
    (h : Ascending before ((k, v) :: l)) (hx : x ∈ l) : x.1 ≠ k := by
  have hlt : before k x.1 := (pairwise_cons.mp h).1 x hx
  intro heq
  rw [heq] at hlt
  exact irrefl k hlt

section

variable [DecidableEq κ]

theorem remove_head (v : ν) (rest : List (κ × ν)) : remove k ((k, v) :: rest) = rest := by
  rw [remove, if_pos rfl]

theorem mem_of_mem_remove {x : κ × ν} (h : x ∈ remove k l) : x ∈ l := by
  induction l with
  | nil => exact h
  | cons hd tl ih =>
    rw [remove] at h
    split at h
    next => exact .tail _ h
    next =>
      rcases mem_cons.mp h with rfl | h
      · exact mem_cons_self
      · exact .tail _ (ih h)

theorem Ascending.remove (h : Ascending before l) : Ascending before (remove k l) := by
  induction l with
  | nil => exact h
  | cons hd tl ih =>
    obtain ⟨hhd, htl⟩ := pairwise_cons.mp h
    rw [Assoc.remove]
    split
    next => exact htl
    next => exact pairwise_cons.mpr ⟨fun x hx => hhd x (mem_of_mem_remove hx), ih htl⟩

-- Lookup ignores the order of the keys; only insertion uses it.
theorem get_eq_none_iff : get k l = none ↔ ∀ x ∈ l, x.1 ≠ k := by
  induction l with
  | nil => simp [get]
  | cons hd tl ih =>
    rw [get]
    split
    next heq => simp [heq]
    next hne => simp [ih, Ne.symm hne]

theorem mem_of_get (h : get k l = some v) : (k, v) ∈ l := by
  induction l with
  | nil => simp [get] at h
  | cons hd tl ih =>
    rw [get] at h
    split at h
    next heq =>
      cases h
      rw [heq]
      exact mem_cons_self
    next => exact .tail _ (ih h)

-- The operations look at keys, so they commute with any change of the values.
theorem get_map {ν' : Type} (f : ν → ν') (k : κ) (l : List (κ × ν)) :
    get k (l.map fun x => (x.1, f x.2)) = (get k l).map f := by
  induction l with
  | nil => rfl
  | cons x rest ih =>
    rw [map_cons, get, get]
    split
    · rfl
    · exact ih

variable [DecidableRel before]

-- The matching loop writes to the first key only.
theorem set_head (v v' : ν) (rest : List (κ × ν)) :
    set before k v ((k, v') :: rest) = (k, v) :: rest := by
  rw [set, if_pos rfl]

theorem set_map {ν' : Type} (f : ν → ν') (k : κ) (v : ν) (l : List (κ × ν)) :
    (set before k v l).map (fun x => (x.1, f x.2)) =
      set before k (f v) (l.map fun x => (x.1, f x.2)) := by
  induction l with
  | nil => rfl
  | cons x rest ih =>
    rw [map_cons, set, set]
    split
    · rfl
    · split
      · rfl
      · rw [map_cons, ih]

theorem eq_or_mem_of_mem_set {x : κ × ν} (h : x ∈ set before k v l) : x = (k, v) ∨ x ∈ l := by
  induction l with
  | nil => simpa [set] using h
  | cons hd tl ih =>
    rw [set] at h
    split at h
    next =>
      rcases mem_cons.mp h with rfl | h
      · exact .inl rfl
      · exact .inr (.tail _ h)
    next =>
      split at h
      next =>
        rcases mem_cons.mp h with rfl | h
        · exact .inl rfl
        · exact .inr h
      next =>
        rcases mem_cons.mp h with rfl | h
        · exact .inr mem_cons_self
        · exact (ih h).imp_right (mem_cons_of_mem _)

theorem Ascending.set [IsStrictTotalOrder κ before] (h : Ascending before l) :
    Ascending before (set before k v l) := by
  induction l with
  | nil => exact pairwise_singleton _ _
  | cons hd tl ih =>
    obtain ⟨hhd, htl⟩ := pairwise_cons.mp h
    rw [Assoc.set]
    split
    next heq =>
      subst heq
      exact pairwise_cons.mpr ⟨hhd, htl⟩
    next hne =>
      split
      next hlt =>
        refine pairwise_cons.mpr ⟨fun x hx => ?_, h⟩
        rcases mem_cons.mp hx with rfl | hx
        · exact hlt
        · exact IsTrans.trans _ _ _ hlt (hhd x hx)
      next hnlt =>
        refine pairwise_cons.mpr ⟨fun x hx => ?_, ih htl⟩
        rcases eq_or_mem_of_mem_set hx with rfl | hx
        · rcases trichotomous (r := before) k hd.1 with hlt | heq | hgt
          · exact absurd hlt hnlt
          · exact absurd heq hne
          · exact hgt
        · exact hhd x hx

end

end Assoc

/-! ## The contract -/

/-- An implementation of an ordered map keeping its elements in ascending order of `before`. -/
structure SkipList (κ ν : Type) (before : κ → κ → Prop) [DecidableEq κ] [DecidableRel before] where
  Carrier : Type
  /-- The elements from `Front()` on, following `Next()`. -/
  elements : Carrier → List (κ × ν)
  new : Carrier
  len : Carrier → Nat
  front : Carrier → Option (κ × ν)
  get : Carrier → κ → Option ν
  set : Carrier → κ → ν → Carrier
  remove : Carrier → κ → Carrier
  ascending : ∀ s, Assoc.Ascending before (elements s)
  elements_new : elements new = []
  len_eq : ∀ s, len s = (elements s).length
  front_eq : ∀ s, front s = (elements s).head?
  get_eq : ∀ s k, get s k = Assoc.get k (elements s)
  elements_set : ∀ s k v, elements (set s k v) = Assoc.set before k v (elements s)
  elements_remove : ∀ s k, elements (remove s k) = Assoc.remove k (elements s)

def SkipList.sortedList (κ ν : Type) (before : κ → κ → Prop) [DecidableEq κ] [DecidableRel before]
    [IsStrictTotalOrder κ before] : SkipList κ ν before where
  Carrier := { l : List (κ × ν) // Assoc.Ascending before l }
  elements := Subtype.val
  new := ⟨[], List.Pairwise.nil⟩
  len := fun s => s.val.length
  front := fun s => s.val.head?
  get := fun s k => Assoc.get k s.val
  set := fun s k v => ⟨Assoc.set before k v s.val, s.property.set⟩
  remove := fun s k => ⟨Assoc.remove k s.val, s.property.remove⟩
  ascending := Subtype.property
  elements_new := rfl
  len_eq := fun _ => rfl
  front_eq := fun _ => rfl
  get_eq := fun _ _ => rfl
  elements_set := fun _ _ _ => rfl
  elements_remove := fun _ _ => rfl

end CexHertz
