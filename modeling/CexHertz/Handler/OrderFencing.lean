import CexHertz.Service.OwnershipEpochManager

/-!
# Fencing off an old owner

`order_fencing.go`: an order that comes with an epoch is refused unless that epoch is the one in
Redis.
-/

namespace CexHertz

open EpochSystem

structure OrderProcessingContext where
  symbol : String
  partitionID : String
  currentEpoch : Int64
  processingNodeID : String
  isFenced : Bool
  errorMsg : String

def verifyOrderOwnershipFencing (hash : OwnershipHash) (now : Nat) (fault : Option String)
    (symbol partitionID : String) (cachedEpoch : Int64) (nodeID : String) :
    OrderProcessingContext × Option String :=
  let result : OrderProcessingContext :=
    { symbol := symbol, partitionID := partitionID, currentEpoch := 0, processingNodeID := nodeID,
      isFenced := false, errorMsg := "" }
  match getEpoch hash now fault with
  | .error err => ({ result with errorMsg := "failed to get epoch: " ++ err }, some err)
  | .ok currentEpoch =>
    if 0 < cachedEpoch ∧ cachedEpoch ≠ currentEpoch then
      ({ result with
          currentEpoch := currentEpoch
          isFenced := true
          errorMsg := "ownership epoch mismatch: expected " ++ toString cachedEpoch.toInt ++
            ", got " ++ toString currentEpoch.toInt ++ " (partition may have migrated)" }, none)
    else ({ result with currentEpoch := currentEpoch }, none)

/-- Neither check lets the epoch pass, whoever asks, unless Redis cannot be asked. -/
def EpochSystem.Fences (s : EpochSystem) (epoch : Int64) : Prop :=
  (∀ fault symbol partitionID nodeID,
    (verifyOrderOwnershipFencing s.hash s.now fault symbol partitionID epoch nodeID).2 = none →
    (verifyOrderOwnershipFencing s.hash s.now fault symbol partitionID epoch nodeID).1.isFenced =
      true) ∧
  ∀ fault isValid currentEpoch,
    verifyOwnershipFencing s.hash s.now epoch fault = .ok (isValid, currentEpoch) → isValid = false

theorem EpochSystem.fences_of_ne {s : EpochSystem} {epoch : Int64} (hpos : 0 < epoch)
    (hne : ∀ fault e, getEpoch s.hash s.now fault = .ok e → epoch ≠ e) : s.Fences epoch := by
  constructor
  · intro fault symbol partitionID nodeID herr
    unfold verifyOrderOwnershipFencing at herr ⊢
    cases he : getEpoch s.hash s.now fault with
    | error err =>
      rw [he] at herr
      cases herr
    | ok e =>
      dsimp only
      rw [if_pos ⟨hpos, hne fault e he⟩]
  · intro fault isValid currentEpoch hok
    unfold verifyOwnershipFencing at hok
    cases he : getEpoch s.hash s.now fault with
    | error err =>
      rw [he] at hok
      cases hok
    | ok e =>
      rw [he] at hok
      cases hok
      exact decide_eq_false fun heq => hne fault _ he heq.symm

/-- In every run in which the hash does not expire from under the updates and no epoch is read
between the writes of epoch and owner: an epoch read under an owner is fenced off as soon as another
owner is recorded, and no two owners were given the same epoch. -/
theorem stale_owner_fenced {s : EpochSystem}
    (hrun : Run.Reaches step EpochSystem.Steady newEpochSystem s) :
    (∀ r ∈ s.reads, 0 < r.epoch → r.superseded = true → s.Fences r.epoch) ∧
      (s.periods.map Prod.fst).Nodup := by
  have hok : EpochOk s := hrun.invariant EpochOk.new fun _ _ _ hs hallowed hstep =>
    hs.step hallowed hstep
  refine ⟨fun r hr hpos hsuperseded => ?_, hok.periods_nodup⟩
  apply fences_of_ne hpos
  rintro fault e he rfl
  have hold := (hok.reads r hr).2 hsuperseded
  have hzero := Int64.lt_iff_toInt_lt.mp hpos
  rw [Int64.toInt_zero] at hzero
  rcases hok.getEpoch_cases he with hnone | hlast <;> omega

/-! ## Two owners -/

def updateTo (newOwner : String) : List EpochAction :=
  [.updateOwnershipEpoch newOwner, .advance 0, .advance 0, .advance 0, .advance 0, .advance 0]

/-- `A` reads its epoch, the partition goes to `B` and back to `A`, which reads another epoch. -/
theorem migrated_back_fenced : ∃ s, Run.Reaches step EpochSystem.Steady newEpochSystem s ∧
      s.reads = [⟨1, some "A", true⟩, ⟨3, some "A", false⟩] ∧
      (∀ r ∈ s.reads, 0 < r.epoch → r.superseded = true → s.Fences r.epoch) ∧
      (s.periods.map Prod.fst).Nodup := by
  refine Run.exists_reaches
    (updateTo "A" ++ [.getEpoch] ++ updateTo "B" ++ [.wait 3600] ++ updateTo "A" ++ [.getEpoch])
    (P := fun s => s.reads = [⟨1, some "A", true⟩, ⟨3, some "A", false⟩]) (by decide +kernel)
    fun _ hreach htest => ?_
  exact ⟨htest, stale_owner_fenced hreach⟩

-- A check that lets an epoch pass.
theorem EpochSystem.not_fences {s : EpochSystem} {epoch : Int64}
    (h : getEpoch s.hash s.now none = .ok epoch) : ¬ s.Fences epoch := by
  rintro ⟨-, hvalid⟩
  have := hvalid none true epoch (by unfold verifyOwnershipFencing; rw [h]; simp)
  cases this

instance (hash : OwnershipHash) (now : Nat) (epoch : Int64) :
    Decidable (getEpoch hash now none = .ok epoch) :=
  match getEpoch hash now none with
  | .error _ => isFalse nofun
  | .ok e => if h : e = epoch then isTrue (by rw [h]) else isFalse fun heq => h (by cases heq; rfl)

/-- A day after `A` was recorded the hash is gone; `B` is given the epoch that `A` still holds. -/
theorem epoch_given_twice_after_expiry : ∃ s, Run.Reaches step (fun _ _ => True) newEpochSystem s ∧
      s.periods = [(1, "A"), (1, "B")] ∧ s.reads = [⟨1, some "A", true⟩] ∧ ¬ s.Fences 1 := by
  refine Run.exists_reaches (updateTo "A" ++ [.getEpoch, .wait 86400] ++ updateTo "B")
    (P := fun s => s.periods = [(1, "A"), (1, "B")] ∧ s.reads = [⟨1, some "A", true⟩] ∧
      getEpoch s.hash s.now none = .ok 1) (by decide +kernel)
    fun _ _ ⟨hperiods, hreads, hepoch⟩ => ?_
  exact ⟨hperiods, hreads, not_fences hepoch⟩

end CexHertz
