import CexHertz.Lib.Placement
import Mathlib.Data.List.AList

/-!
# The partition table

Which partitions serve which symbols, kept in both directions; the routing of requests reads both.
-/

namespace CexHertz

/-! ## Maps with every value replaced -/

section

variable {κ ν : Type} [DecidableEq κ] (f : ν → ν)

def mapValues (m : AList fun _ : κ => ν) : AList fun _ : κ => ν :=
  ⟨m.entries.map (.map id fun _ => f), .map₂ (fun _ => f) m.entries m.nodupKeys⟩

theorem lookup_mapValues (k : κ) (m : AList fun _ : κ => ν) :
    (mapValues f m).lookup k = (m.lookup k).map f :=
  List.dlookup_map₂ k

end

/-! ## The table -/

structure Partition where
  partitionID : String
  symbols : List String
  workers : List String
deriving DecidableEq, Repr

structure PartitionTable where
  symbolToPartition : String → List String
  partitions : AList fun _ : String => Partition

namespace PartitionTable

variable (pt : PartitionTable)

def symbolsOf (pid : String) : List String := ((pt.partitions.lookup pid).map (·.symbols)).getD []

def Listed (symbol pid : String) : Prop := symbol ∈ pt.symbolsOf pid

def Routed (symbol pid : String) : Prop := pid ∈ pt.symbolToPartition symbol

def Serves (symbol : String) : Prop := ∃ pid, symbol ∈ pt.symbolsOf pid

def KeyedByID : Prop := ∀ pid p, pt.partitions.lookup pid = some p → p.partitionID = pid

structure Coherent : Prop where
  keyedByID : pt.KeyedByID
  mem_symbols_iff : ∀ symbol pid, symbol ∈ pt.symbolsOf pid ↔ pid ∈ pt.symbolToPartition symbol

variable {pt}

theorem serves_iff_entries {symbol : String} :
    pt.Serves symbol ↔ ∃ entry ∈ pt.partitions.entries, symbol ∈ entry.2.symbols := by
  unfold Serves symbolsOf
  constructor
  · rintro ⟨pid, hmem⟩
    cases hp : pt.partitions.lookup pid with
    | none => simp [hp] at hmem
    | some p => exact ⟨⟨pid, p⟩, List.of_mem_dlookup hp, by simpa [hp] using hmem⟩
  · rintro ⟨⟨pid, p⟩, hentry, hmem⟩
    have hp : pt.partitions.lookup pid = some p := List.mem_dlookup pt.partitions.nodupKeys hentry
    exact ⟨pid, by simpa [hp] using hmem⟩

theorem coherent_iff_synced :
    pt.Coherent ↔ pt.KeyedByID ∧ Placement.Synced pt.Listed pt.Routed fun _ _ => False := by
  constructor
  · rintro ⟨hids, hmem⟩
    exact ⟨hids, fun symbol pid => (hmem symbol pid).trans (by simp [Routed])⟩
  · rintro ⟨hids, hsynced⟩
    exact ⟨hids, fun symbol pid => (hsynced symbol pid).trans (by simp [Routed])⟩

/-! ## Storing a partition -/

def putPartition (pt : PartitionTable) (pid : String) (p : Partition) : PartitionTable :=
  { pt with partitions := pt.partitions.insert pid p }

theorem symbolsOf_putPartition (pid pid' : String) (p : Partition) :
    (pt.putPartition pid p).symbolsOf pid' =
      if pid' = pid then p.symbols else pt.symbolsOf pid' := by
  unfold symbolsOf putPartition
  split
  next heq => rw [heq, AList.lookup_insert]; rfl
  next hne => rw [AList.lookup_insert_ne hne]

theorem KeyedByID.putPartition (h : pt.KeyedByID) {p : Partition} {pid : String}
    (hp : p.partitionID = pid) : (pt.putPartition pid p).KeyedByID := by
  intro pid' p' hlookup
  unfold PartitionTable.putPartition at hlookup
  rcases eq_or_ne pid' pid with rfl | hne
  · rw [AList.lookup_insert] at hlookup
    cases hlookup
    exact hp
  · rw [AList.lookup_insert_ne hne] at hlookup
    exact h pid' p' hlookup

theorem listed_putPartition (pid : String) (p : Partition) :
    (pt.putPartition pid p).Listed = Placement.fill {s | s ∈ p.symbols} pid pt.Listed := by
  funext symbol pid'
  rw [Listed, symbolsOf_putPartition, Placement.fill, Listed]
  split
  next heq => simp [heq]
  next hne => simp [hne]

/-! ## A table given by its partitions -/

def ofPartitions (partitions : AList fun _ : String => Partition) : PartitionTable where
  symbolToPartition := fun symbol =>
    partitions.keys.filter fun pid =>
      symbol ∈ ((partitions.lookup pid).map (·.symbols)).getD []
  partitions := partitions

theorem coherent_ofPartitions {partitions : AList fun _ : String => Partition}
    (h : ∀ entry ∈ partitions.entries, entry.2.partitionID = entry.1) :
    (ofPartitions partitions).Coherent where
  keyedByID := fun pid p hlookup => h ⟨pid, p⟩ (List.of_mem_dlookup hlookup)
  mem_symbols_iff := fun symbol pid => by
    change symbol ∈ ((partitions.lookup pid).map (·.symbols)).getD [] ↔
      pid ∈ partitions.keys.filter _
    rw [List.mem_filter, decide_eq_true_iff]
    refine ⟨fun hmem => ⟨?_, hmem⟩, And.right⟩
    -- a symbol is found only in a partition that exists
    cases hp : partitions.lookup pid with
    | none => simp [hp] at hmem
    | some p =>
      rw [← AList.mem_keys, ← AList.lookup_isSome, hp]
      rfl

end PartitionTable

end CexHertz
