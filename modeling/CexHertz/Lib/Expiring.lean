import Mathlib.Data.List.AList

/-!
# Hashes with a lifetime

A hash of a key-value server: fields and, once a lifetime has been set, the time at which they go
away. Every command looks at what is left at its time.
-/

namespace CexHertz.Expiring

structure Hash (ν : Type) where
  fields : AList fun _ : String => ν
  deadline : Option Nat

namespace Hash

variable {ν : Type} (h : Hash ν) (now : Nat)

def empty : Hash ν := ⟨∅, none⟩

def expired : Prop := ∃ d ∈ h.deadline, d ≤ now

instance : Decidable (h.expired now) :=
  inferInstanceAs (Decidable (∃ d ∈ h.deadline, d ≤ now))

def left : Hash ν := if h.expired now then empty else h

def hGetAll : AList fun _ : String => ν := (h.left now).fields

def hGet (field : String) : Option ν := (h.hGetAll now).lookup field

def hSet (field : String) (value : ν) : Hash ν :=
  { h.left now with fields := (h.left now).fields.insert field value }

def expire (lifetime : Nat) : Hash ν :=
  if (h.left now).fields.entries = [] then h.left now
  else { h.left now with deadline := some (now + lifetime) }

variable {h now} {field : String} {value : ν}

theorem left_of_live (hlive : ¬ h.expired now) : h.left now = h := if_neg hlive

theorem hGet_cases (h : Hash ν) (now : Nat) (field : String) :
    h.hGet now field = none ∨ h.hGet now field = h.fields.lookup field := by
  unfold hGet hGetAll left
  split
  · exact .inl rfl
  · exact .inr rfl

-- What was never set is not there, expired or not.
theorem left_of_empty (hfields : h.fields = ∅) : (h.left now).fields = ∅ := by
  unfold left
  split
  · rfl
  · exact hfields

@[simp] theorem lookup_hSet : (h.hSet now field value).fields.lookup field = some value :=
  AList.lookup_insert _

theorem lookup_hSet_of_ne {other : String} (hne : other ≠ field) (hlive : ¬ h.expired now) :
    (h.hSet now field value).fields.lookup other = h.fields.lookup other := by
  unfold hSet
  rw [left_of_live hlive]
  exact AList.lookup_insert_ne hne

theorem expire_fields (hlive : ¬ h.expired now) (lifetime : Nat) :
    (h.expire now lifetime).fields = h.fields := by
  unfold expire
  rw [left_of_live hlive]
  split <;> rfl

end Hash

end CexHertz.Expiring
