import Mathlib.Data.List.AList
import Mathlib.Data.List.Sort

/-!
# A map in the order of its keys

The entries of an `AList` stand in the order in which a loop over the map comes upon them. To get
rid of that order, the keys are sorted and the map is asked for each.
-/

namespace CexHertz.KeyOrder

open List

variable {κ ν β : Type*} [LinearOrder κ]

def entries (m : AList fun _ : κ => ν) : List (κ × ν) :=
  (m.keys.insertionSort (· ≤ ·)).filterMap fun k => (m.lookup k).map fun v => (k, v)

variable {m m' : AList fun _ : κ => ν} {k : κ} {v : ν}

theorem mem_entries : (k, v) ∈ entries m ↔ m.lookup k = some v := by
  unfold entries
  rw [mem_filterMap]
  constructor
  · rintro ⟨k', -, h⟩
    obtain ⟨v', hv', heq⟩ := Option.map_eq_some_iff.mp h
    cases heq
    exact hv'
  · intro h
    refine ⟨k, ?_, by rw [h]; rfl⟩
    rw [mem_insertionSort, ← AList.mem_keys, ← AList.lookup_isSome, h]
    rfl

variable (f : ν → β)

theorem keys_perm (h : ∀ k, (m.lookup k).map f = (m'.lookup k).map f) : m.keys.Perm m'.keys := by
  rw [perm_ext_iff_of_nodup m.keys_nodup m'.keys_nodup]
  intro k
  rw [← AList.mem_keys, ← AList.mem_keys, ← AList.lookup_isSome, ← AList.lookup_isSome]
  have hk := congrArg Option.isSome (h k)
  rw [Option.isSome_map, Option.isSome_map] at hk
  rw [hk]

theorem entries_map_eq_iff :
    ((entries m).map fun e => (e.1, f e.2)) = ((entries m').map fun e => (e.1, f e.2)) ↔
      ∀ k, (m.lookup k).map f = (m'.lookup k).map f := by
  constructor
  · intro h k
    apply Option.ext
    intro y
    have hmem : ∀ m : AList fun _ : κ => ν,
        (m.lookup k).map f = some y ↔ (k, y) ∈ (entries m).map fun e => (e.1, f e.2) := by
      intro m
      rw [Option.map_eq_some_iff, mem_map]
      constructor
      · rintro ⟨v, hv, rfl⟩
        exact ⟨(k, v), mem_entries.mpr hv, rfl⟩
      · rintro ⟨⟨k', v⟩, he, heq⟩
        cases heq
        exact ⟨v, mem_entries.mp he, rfl⟩
    rw [hmem, hmem, h]
  · intro h
    have hsorted : m.keys.insertionSort (· ≤ ·) = m'.keys.insertionSort (· ≤ ·) :=
      List.Perm.eq_of_pairwise' (pairwise_insertionSort _ _) (pairwise_insertionSort _ _)
        (((perm_insertionSort _ _).trans (keys_perm f h)).trans
          (perm_insertionSort _ _).symm)
    unfold entries
    rw [map_filterMap, map_filterMap, hsorted]
    apply filterMap_congr
    intro k _
    rw [Option.map_map, Option.map_map]
    have hk := congrArg (Option.map fun y => (k, y)) (h k)
    rw [Option.map_map, Option.map_map] at hk
    exact hk

theorem map_eq_map_iff_of {α γ δ : Type*} {g : α → γ} {h : α → δ} {l l' : List α}
    (hiff : ∀ a ∈ l, ∀ b ∈ l', g a = g b ↔ h a = h b) :
    l.map g = l'.map g ↔ l.map h = l'.map h := by
  induction l generalizing l' with
  | nil =>
    cases l' with
    | nil => exact iff_of_true rfl rfl
    | cons b l' => exact iff_of_false (fun h => by cases h) fun h => by cases h
  | cons a l ih =>
    cases l' with
    | nil => exact iff_of_false (fun h => by cases h) fun h => by cases h
    | cons b l' =>
      rw [map_cons, map_cons, map_cons, map_cons, List.cons.injEq,
        List.cons.injEq, hiff a mem_cons_self b mem_cons_self,
        ih fun a ha b hb => hiff a (.tail _ ha) b (.tail _ hb)]

theorem entries_values_eq_iff {γ : Type*} {g : ν → γ} {key : ν → κ}
    (hkey : ∀ k v, m.lookup k = some v → key v = k)
    (hkey' : ∀ k v, m'.lookup k = some v → key v = k) (hg : ∀ v v', g v = g v' ↔ f v = f v')
    (hf : ∀ v v', f v = f v' → key v = key v') :
    ((entries m).map fun e => g e.2) = ((entries m').map fun e => g e.2) ↔
      ∀ k, (m.lookup k).map f = (m'.lookup k).map f := by
  rw [← entries_map_eq_iff]
  apply map_eq_map_iff_of
  rintro ⟨k, v⟩ hv ⟨k', v'⟩ hv'
  have hk := hkey k v (mem_entries.mp hv)
  have hk' := hkey' k' v' (mem_entries.mp hv')
  rw [hg, Prod.mk.injEq]
  constructor
  · intro heq
    exact ⟨by rw [← hk, ← hk', hf v v' heq], heq⟩
  · exact fun h => h.2

end CexHertz.KeyOrder
