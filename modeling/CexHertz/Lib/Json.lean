import Mathlib.Algebra.Group.Nat.Defs
import Mathlib.Algebra.Ring.Int.Defs

/-!
# JSON values and struct decoding

JSON texts are a type with a printer and a parser that agree (`Encoding`). A struct is decoded
member by member: keys match up to case, unknown keys are ignored, missing keys leave zero values,
and a member of the wrong type is an error.
-/

namespace CexHertz

inductive Json where
  | null
  | bool (b : Bool)
  /-- A number written as an integer. -/
  | int (n : Int)
  /-- Any other number, by its literal. -/
  | real (literal : String)
  | str (s : String)
  | arr (elements : List Json)
  | obj (members : List (String × Json))

namespace Json

structure Encoding (τ : Type) where
  print : Json → τ
  parse : τ → Option Json
  parse_print : ∀ j, parse (print j) = some j

def Encoding.value : Encoding Json := ⟨id, some, fun _ => rfl⟩

/-- The two characters beyond ASCII that have an ASCII letter in their case fold. -/
def foldChar (c : Char) : Char := if c = 'ſ' then 's' else if c = '\u212a' then 'k' else c.toLower

/-- Equality up to case, for names in ASCII. -/
def foldEq (key name : String) : Bool :=
  key.toList.map foldChar = name.toList.map foldChar

def field (name : String) : List (String × Json) → Option Json
  | [] => none
  | (key, value) :: rest =>
    match field name rest with
    | some later => some later
    | none => if foldEq key name then some value else none

/-- The members a struct is decoded from; `null` sets nothing. -/
def structMembers : Json → Option (List (String × Json))
  | null => some []
  | obj members => some members
  | _ => none

def toUint64 : Option Json → Option Nat
  | none => some 0
  | some null => some 0
  | some (int n) => if 0 ≤ n ∧ n < 2 ^ 64 then some n.toNat else none
  | some _ => none

def toInt64 : Option Json → Option Int
  | none => some 0
  | some null => some 0
  | some (int n) => if -2 ^ 63 ≤ n ∧ n < 2 ^ 63 then some n else none
  | some _ => none

def toStr : Option Json → Option String
  | none => some ""
  | some null => some ""
  | some (str s) => some s
  | some _ => none

theorem toUint64_int {n : Nat} (h : n < 2 ^ 64) : toUint64 (some (int n)) = some n := by
  rw [toUint64, if_pos ⟨Int.natCast_nonneg n, by omega⟩, Int.toNat_natCast]

theorem toInt64_int {n : Int} (h : -2 ^ 63 ≤ n ∧ n < 2 ^ 63) : toInt64 (some (int n)) = some n := by
  rw [toInt64, if_pos h]

end Json

end CexHertz
