import CexHertz.Lib.Expiring
import CexHertz.Lib.Run

/-!
# Ownership epochs

`ownership_epoch_manager.go`. The epoch and the owner of a partition are fields of one hash in
Redis, which goes away a day after the last change. A lock keeps updates apart, but reads come
between any two commands. As long as an update finds the hash the one before it has left, the epochs
count up from one.
-/

namespace CexHertz

open Expiring List Hash

inductive FieldText where
  | number (n : Int64)
  | name (s : String)
  deriving DecidableEq

abbrev OwnershipHash := Hash FieldText

def epochLifetime : Nat := 24 * 3600

structure OwnershipEpochInfo where
  epoch : Int64
  owner : String
  updatedAt : Int64

def getEpoch (hash : OwnershipHash) (now : Nat) (fault : Option String) : Except String Int64 :=
  match fault with
  | some err => .error ("failed to get epoch: " ++ err)
  | none =>
    match hash.hGet now "epoch" with
    | none => .ok 0
    | some (.number epoch) => .ok epoch
    | some (.name _) => .error "invalid epoch value: expected integer"

def numberField (field : Option FieldText) : Int64 :=
  match field with
  | some (.number n) => n
  | _ => 0

def nameField (field : Option FieldText) : String :=
  match field with
  | some (.name s) => s
  | _ => ""

def getOwnershipInfo (hash : OwnershipHash) (now : Nat) : Option OwnershipEpochInfo :=
  let data := hash.hGetAll now
  if data.entries = [] then none
  else
    some
      { epoch := numberField (data.lookup "epoch")
        owner := nameField (data.lookup "owner")
        updatedAt := numberField (data.lookup "updated_at") }

def verifyOwnershipFencing (hash : OwnershipHash) (now : Nat) (eventEpoch : Int64)
    (fault : Option String) : Except String (Bool × Int64) :=
  match getEpoch hash now fault with
  | .error err => .error ("failed to verify fencing: " ++ err)
  | .ok currentEpoch => .ok (currentEpoch = eventEpoch, currentEpoch)

/-! ## Updates and reads -/

inductive OwnershipCommand where
  | getInfo
  | setEpoch (newEpoch : Int64)
  | setOwner
  | setUpdatedAt (clock : Int64)
  | setLifetime
  deriving DecidableEq

structure OwnershipUpdate where
  newOwner : String
  next : OwnershipCommand
  deriving DecidableEq

/-- An epoch that a node has read, the owner that was last recorded then, and whether another one
has been recorded since. -/
structure EpochRead where
  epoch : Int64
  owner : Option String
  superseded : Bool
  deriving DecidableEq

/-- One partition.  `update` is the call that holds the lock.  The owner that was last recorded, the
epochs given to owners and the epochs read by nodes are history. -/
structure EpochSystem where
  now : Nat
  hash : OwnershipHash
  update : Option OwnershipUpdate
  lastOwner : Option String
  periods : List (Int64 × String)
  reads : List EpochRead

def newEpochSystem : EpochSystem := ⟨0, .empty, none, none, [], []⟩

inductive EpochAction where
  | wait (seconds : Nat)
  | updateOwnershipEpoch (newOwner : String)
  | advance (clock : Int64)
  | getEpoch

def EpochRead.supersede (newOwner : String) (r : EpochRead) : EpochRead :=
  if r.owner.any (· ≠ newOwner) then { r with superseded := true } else r

namespace EpochSystem

variable (s : EpochSystem)

def advance (clock : Int64) (u : OwnershipUpdate) : EpochSystem :=
  match u.next with
  | .getInfo =>
    match getOwnershipInfo s.hash s.now with
    | none => { s with update := some { u with next := .setEpoch (0 + 1) } }
    | some info =>
      -- an owner that stays keeps its epoch, and nothing is written
      if info.owner = u.newOwner then { s with update := none }
      else { s with update := some { u with next := .setEpoch (info.epoch + 1) } }
  | .setEpoch newEpoch =>
    { s with
      hash := s.hash.hSet s.now "epoch" (.number newEpoch)
      periods := s.periods ++ [(newEpoch, u.newOwner)]
      update := some { u with next := .setOwner } }
  | .setOwner =>
    { s with
      hash := s.hash.hSet s.now "owner" (.name u.newOwner)
      lastOwner := some u.newOwner
      reads := s.reads.map (EpochRead.supersede u.newOwner)
      update := some { u with next := .setUpdatedAt clock } }
  | .setUpdatedAt updatedAt =>
    { s with
      hash := s.hash.hSet s.now "updated_at" (.number updatedAt)
      update := some { u with next := .setLifetime } }
  | .setLifetime => { s with hash := s.hash.expire s.now epochLifetime, update := none }

def step : EpochAction → Option EpochSystem
  | .wait seconds => some { s with now := s.now + seconds }
  | .updateOwnershipEpoch newOwner =>
    match s.update with
    | none => some { s with update := some ⟨newOwner, .getInfo⟩ }
    | some _ => none
  | .advance clock => s.update.map (s.advance clock)
  | .getEpoch =>
    match CexHertz.getEpoch s.hash s.now none with
    | .error _ => some s
    | .ok epoch => some { s with reads := s.reads ++ [⟨epoch, s.lastOwner, false⟩] }

/-- The commands of an update find the hash alive once an epoch has been given, the epoch is not the
greatest one there is, and an epoch is not read between the writes of the epoch and of the owner. -/
def Steady : EpochAction → Prop
  | .advance _ => (s.periods = [] ∨ ¬ s.hash.expired s.now) ∧
      numberField (s.hash.hGet s.now "epoch") < Int64.maxValue
  | .getEpoch => ∀ u ∈ s.update, u.next ≠ .setOwner
  | _ => True

instance (action : EpochAction) : Decidable (s.Steady action) := by
  cases action <;> unfold Steady <;> infer_instance

end EpochSystem

/-! ## Epochs count up -/

structure EpochOk (s : EpochSystem) : Prop where
  untouched : s.periods = [] → s.hash.fields = ∅
  stored : s.periods ≠ [] → ∃ e : Int64, s.hash.fields.lookup "epoch" = some (.number e) ∧
    e.toInt = s.periods.length
  counted : ∀ (k : Nat) (p : Int64 × String), s.periods[k]? = some p → p.1.toInt = k + 1
  reads : ∀ r ∈ s.reads, r.epoch.toInt ≤ s.periods.length ∧
    (r.superseded = true → r.epoch.toInt < s.periods.length)
  next : ∀ u ∈ s.update, ∀ e, u.next = .setEpoch e → e.toInt = s.periods.length + 1
  recording : ∀ u ∈ s.update, u.next ≠ .getInfo → (∀ e, u.next ≠ .setEpoch e) → s.periods ≠ []
  overtaken : ∀ u ∈ s.update, u.next = .setOwner → ∀ r ∈ s.reads, r.epoch.toInt < s.periods.length

theorem int64_succ {e : Int64} (h : e < Int64.maxValue) : (e + 1).toInt = e.toInt + 1 := by
  have hlt := Int64.lt_iff_toInt_lt.mp h
  have hmax : Int64.maxValue.toInt = 2 ^ 63 - 1 := by decide
  have hone : (1 : Int64).toInt = 1 := by decide
  have hge := Int64.le_toInt e
  rw [Int64.toInt_add, hone]
  apply Int.bmod_eq_of_le <;> omega

namespace EpochOk

variable {s : EpochSystem}

theorem new : EpochOk newEpochSystem where
  untouched := fun _ => rfl
  stored := fun h => absurd rfl h
  counted := fun _ _ hk => by cases hk
  reads := fun _ hr => by cases hr
  next := fun _ hu => by cases hu
  recording := fun _ hu => by cases hu
  overtaken := fun _ hu => by cases hu

variable (h : EpochOk s)

include h

-- What the hash holds is the last epoch that was given, zero before the first.
theorem lookup_epoch : (numberField (s.hash.fields.lookup "epoch")).toInt = s.periods.length := by
  by_cases hne : s.periods = []
  · rw [h.untouched hne, hne]
    rfl
  · obtain ⟨e, he, hcount⟩ := h.stored hne
    rwa [he]

theorem getEpoch_cases {fault : Option String} {e : Int64}
    (he : CexHertz.getEpoch s.hash s.now fault = .ok e) :
    e.toInt = 0 ∨ e.toInt = s.periods.length := by
  cases fault with
  | some err => cases he
  | none =>
    unfold CexHertz.getEpoch at he
    dsimp only at he
    have hlookup := h.lookup_epoch
    rcases hGet_cases s.hash s.now "epoch" with hnone | hraw
    · rw [hnone] at he
      cases he
      exact .inl rfl
    · rw [hraw] at he
      split at he
      next =>
        cases he
        exact .inl rfl
      next epoch hepoch =>
        cases he
        rw [hepoch] at hlookup
        exact .inr hlookup
      next => cases he

theorem hGet_epoch (hlive : s.periods = [] ∨ ¬ s.hash.expired s.now) :
    (numberField (s.hash.hGet s.now "epoch")).toInt = s.periods.length := by
  unfold hGet hGetAll
  rcases hlive with hnew | hlive
  · rw [left_of_empty (h.untouched hnew), hnew]
    rfl
  · rw [left_of_live hlive]
    exact h.lookup_epoch

theorem setUpdate {update : Option OwnershipUpdate}
    (hnext : ∀ u ∈ update, u.next = .getInfo ∨
      ∃ e, u.next = .setEpoch e ∧ e.toInt = s.periods.length + 1) :
    EpochOk { s with update := update } := by
  refine ⟨h.untouched, h.stored, h.counted, h.reads, fun u hu e he => ?_, fun u hu hget hset => ?_,
    fun u hu howner => ?_⟩
  · rcases hnext u hu with hget | ⟨e', he', hcount⟩
    · rw [hget] at he
      cases he
    · rw [he'] at he
      cases he
      exact hcount
  · rcases hnext u hu with hget' | ⟨e, he, -⟩
    · exact absurd hget' hget
    · exact absurd he (hset e)
  · rcases hnext u hu with hget | ⟨e, he, -⟩
    · rw [hget] at howner
      cases howner
    · rw [he] at howner
      cases howner

theorem getInfo (hlive : s.periods = [] ∨ ¬ s.hash.expired s.now)
    (hmax : numberField (s.hash.hGet s.now "epoch") < Int64.maxValue) (clock : Int64)
    (newOwner : String) : EpochOk (s.advance clock ⟨newOwner, .getInfo⟩) := by
  have hcount := h.hGet_epoch hlive
  have hsucc := int64_succ hmax
  unfold EpochSystem.advance getOwnershipInfo
  by_cases hempty : (s.hash.hGetAll s.now).entries = []
  · rw [if_pos hempty]
    -- nothing was there, so nothing has been given
    have hnone : s.hash.hGet s.now "epoch" = none := by
      unfold hGet
      rw [AList.lookup_eq_none]
      show "epoch" ∉ (s.hash.hGetAll s.now).entries.keys
      rw [hempty]
      exact not_mem_nil
    rw [hnone] at hcount
    apply h.setUpdate
    rintro u ⟨⟩
    refine .inr ⟨_, rfl, ?_⟩
    show (1 : Int64).toInt = s.periods.length + 1
    rw [← hcount]
    rfl
  · rw [if_neg hempty]
    dsimp only
    split
    · apply h.setUpdate
      intro u hu
      cases hu
    · apply h.setUpdate
      rintro u ⟨⟩
      refine .inr ⟨_, rfl, ?_⟩
      show (numberField (s.hash.hGet s.now "epoch") + 1).toInt = s.periods.length + 1
      rw [hsucc, hcount]

theorem setEpoch {newEpoch : Int64}
    (hnew : newEpoch.toInt = s.periods.length + 1) (clock : Int64) (newOwner : String) :
    EpochOk (s.advance clock ⟨newOwner, .setEpoch newEpoch⟩) := by
  have hlength : (s.periods ++ [(newEpoch, newOwner)]).length = s.periods.length + 1 :=
    length_append
  have hne : s.periods ++ [(newEpoch, newOwner)] ≠ [] := by simp
  have hold : ∀ r ∈ s.reads, r.epoch.toInt < (s.periods ++ [(newEpoch, newOwner)]).length := by
    intro r hr
    have := (h.reads r hr).1
    omega
  have hstored : newEpoch.toInt = ((s.periods ++ [(newEpoch, newOwner)]).length : Int) := by
    omega
  refine ⟨fun hnil => absurd hnil hne, fun _ => ⟨newEpoch, lookup_hSet, hstored⟩,
    fun k p hk => ?_, fun r hr => ⟨Int.le_of_lt (hold r hr), fun _ => hold r hr⟩, ?_,
    fun _ _ _ _ => hne, ?_⟩
  · rcases Run.getElem?_concat_cases hk with hk | ⟨rfl, rfl⟩
    · exact h.counted k p hk
    · exact hnew
  · rintro u ⟨⟩ e he
    cases he
  · rintro u ⟨⟩ -
    exact hold

theorem keep (hne : s.periods ≠ []) {hash : OwnershipHash}
    (hhash : hash.fields.lookup "epoch" = s.hash.fields.lookup "epoch") {reads : List EpochRead}
    (hreads : ∀ r ∈ reads, r.epoch.toInt ≤ s.periods.length ∧
      (r.superseded = true → r.epoch.toInt < s.periods.length))
    {update : Option OwnershipUpdate} (hupdate : ∀ u ∈ update, u.next ≠ .setOwner ∧
      ∀ e, u.next ≠ .setEpoch e) (lastOwner : Option String) :
    EpochOk
      { s with hash := hash, lastOwner := lastOwner, reads := reads, update := update } := by
  refine ⟨fun hnil => absurd hnil hne, fun _ => ?_, h.counted, hreads,
    fun u hu e he => absurd he ((hupdate u hu).2 e), fun _ _ _ _ => hne,
    fun u hu howner => absurd howner (hupdate u hu).1⟩
  obtain ⟨e, he, hcount⟩ := h.stored hne
  exact ⟨e, hhash.trans he, hcount⟩

theorem setOwner (hne : s.periods ≠ []) (hlive : ¬ s.hash.expired s.now)
    (hovertaken : ∀ r ∈ s.reads, r.epoch.toInt < s.periods.length) (clock : Int64)
    (newOwner : String) : EpochOk (s.advance clock ⟨newOwner, .setOwner⟩) := by
  refine h.keep hne (lookup_hSet_of_ne (by decide) hlive) (fun r hr => ?_) ?_ _
  · obtain ⟨old, hold, rfl⟩ := mem_map.mp hr
    have hepoch : (old.supersede newOwner).epoch = old.epoch := by
      unfold EpochRead.supersede
      split <;> rfl
    rw [hepoch]
    have hlt := hovertaken old hold
    exact ⟨Int.le_of_lt hlt, fun _ => hlt⟩
  · rintro u ⟨⟩
    exact ⟨nofun, nofun⟩

theorem advance {u : OwnershipUpdate} (hu : u ∈ s.update) {clock : Int64}
    (hsteady : s.Steady (.advance clock)) : EpochOk (s.advance clock u) := by
  obtain ⟨newOwner, next⟩ := u
  have hrecording := h.recording _ hu
  have hlive : s.periods ≠ [] → ¬ s.hash.expired s.now := hsteady.1.resolve_left
  cases next with
  | getInfo => exact h.getInfo hsteady.1 hsteady.2 clock newOwner
  | setEpoch newEpoch => exact h.setEpoch (h.next _ hu newEpoch rfl) clock newOwner
  | setOwner =>
    have hne := hrecording nofun nofun
    exact h.setOwner hne (hlive hne) (h.overtaken _ hu rfl) clock newOwner
  | setUpdatedAt updatedAt =>
    have hne := hrecording nofun nofun
    refine h.keep hne (lookup_hSet_of_ne (by decide) (hlive hne)) h.reads ?_ _
    rintro u ⟨⟩
    exact ⟨nofun, nofun⟩
  | setLifetime =>
    have hne := hrecording nofun nofun
    refine h.keep hne ?_ h.reads (fun u hu => by cases hu) _
    rw [expire_fields (hlive hne)]

theorem step {action : EpochAction} {s' : EpochSystem}
    (hsteady : s.Steady action) (hstep : s.step action = some s') : EpochOk s' := by
  cases action with
  | wait seconds =>
    cases hstep
    exact ⟨h.untouched, h.stored, h.counted, h.reads, h.next, h.recording, h.overtaken⟩
  | updateOwnershipEpoch newOwner =>
    dsimp only [EpochSystem.step] at hstep
    split at hstep
    · cases hstep
      apply h.setUpdate
      rintro u ⟨⟩
      exact .inl rfl
    · cases hstep
  | advance clock =>
    obtain ⟨u, hu, rfl⟩ := Option.map_eq_some_iff.mp hstep
    exact h.advance hu hsteady
  | getEpoch =>
    dsimp only [EpochSystem.step] at hstep
    split at hstep
    next =>
      cases hstep
      exact h
    next epoch hepoch =>
      cases hstep
      have hread := h.getEpoch_cases hepoch
      refine ⟨h.untouched, h.stored, h.counted, ?_, h.next, h.recording,
        fun u hu howner => absurd howner (hsteady u hu)⟩
      show ∀ r ∈ s.reads ++ [⟨epoch, s.lastOwner, false⟩], _
      rw [forall_mem_append, forall_mem_singleton]
      exact ⟨h.reads, by dsimp only; omega, fun hsuperseded => by cases hsuperseded⟩

theorem periods_nodup : (s.periods.map Prod.fst).Nodup := by
  rw [nodup_iff_getElem?_ne_getElem?]
  intro i j hij hj heq
  rw [length_map] at hj
  have hi : i < s.periods.length := by omega
  rw [List.getElem?_map, List.getElem?_map, List.getElem?_eq_getElem hi,
    List.getElem?_eq_getElem hj] at heq
  have hfirst := h.counted i _ (List.getElem?_eq_getElem hi)
  have hsecond := h.counted j _ (List.getElem?_eq_getElem hj)
  rw [Option.some.inj heq, hsecond] at hfirst
  omega

end EpochOk

end CexHertz
