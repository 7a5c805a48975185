import CexHertz.Lib.DelimitedRecords
import CexHertz.Lib.Json

/-!
# JSON texts

A reader for JSON texts, and rules for when it reads back what was written: strings put between
quotes as they are, printed integers, and arrays and objects of these.
-/

namespace CexHertz.Json

open List

def isSpace (c : Char) : Bool := c = ' ' || c = '\t' || c = '\n' || c = '\r'

def skipSpace (cs : List Char) : List Char := cs.dropWhile isSpace

def hexDigit (c : Char) : Option Nat :=
  if c.isDigit then some (c.toNat - 48)
  else if 'a' ≤ c ∧ c ≤ 'f' then some (c.toNat - 87)
  else if 'A' ≤ c ∧ c ≤ 'F' then some (c.toNat - 55)
  else none

def unescape : Char → Option Char
  | '"' => some '"'
  | '\\' => some '\\'
  | '/' => some '/'
  | 'b' => some '\x08'
  | 'f' => some '\x0c'
  | 'n' => some '\n'
  | 'r' => some '\r'
  | 't' => some '\t'
  | _ => none

/-- The rest of a string literal: its characters, with `\u` escapes as UTF-16 units. -/
def readUnits : List Char → Option (List Nat × List Char)
  | [] => none
  | '"' :: rest => some ([], rest)
  | '\\' :: 'u' :: a :: b :: c :: d :: rest => do
    let unit ← [a, b, c, d].foldlM (fun n c => (hexDigit c).map (16 * n + ·)) 0
    let (units, rest) ← readUnits rest
    return (unit :: units, rest)
  | '\\' :: c :: rest => do
    let char ← unescape c
    let (units, rest) ← readUnits rest
    return (char.toNat :: units, rest)
  | c :: rest =>
    if c.toNat < 32 then none else (readUnits rest).map fun p => (c.toNat :: p.1, p.2)

def isSurrogate (u : Nat) : Bool := 0xD800 ≤ u && u < 0xE000

def joinUnits : List Nat → List Char
  | [] => []
  | [u] => [if isSurrogate u then '�' else Char.ofNat u]
  | u :: v :: rest =>
    if isSurrogate u then
      if u < 0xDC00 ∧ 0xDC00 ≤ v ∧ v < 0xE000 then
        Char.ofNat (0x10000 + (u - 0xD800) * 0x400 + (v - 0xDC00)) :: joinUnits rest
      else '�' :: joinUnits (v :: rest)
    else Char.ofNat u :: joinUnits (v :: rest)

def readString (cs : List Char) : Option (String × List Char) :=
  (readUnits cs).map fun p => (String.ofList (joinUnits p.1), p.2)

def readNat (cs : List Char) : Option (Nat × List Char) :=
  let digits := cs.takeWhile Char.isDigit
  let n := Nat.ofDigitChars 10 digits 0
  if Nat.toDigits 10 n = digits then some (n, cs.dropWhile Char.isDigit) else none

def skipDigits (cs : List Char) : Option (List Char) :=
  if (cs.head?.map Char.isDigit).getD false then some (cs.dropWhile Char.isDigit) else none

def skipFraction : List Char → Option (List Char)
  | '.' :: rest => skipDigits rest
  | cs => some cs

def skipExponent : List Char → Option (List Char)
  | 'e' :: '+' :: rest | 'e' :: '-' :: rest | 'E' :: '+' :: rest | 'E' :: '-' :: rest
  | 'e' :: rest | 'E' :: rest => skipDigits rest
  | cs => some cs

def readInt : List Char → Option (Int × List Char)
  | '-' :: rest => (readNat rest).map fun p => (-(p.1 : Int), p.2)
  | cs => (readNat cs).map fun p => ((p.1 : Int), p.2)

def readNumber (cs : List Char) : Option (Json × List Char) := do
  let (n, whole) ← readInt cs
  let rest ← (skipFraction whole).bind skipExponent
  return (if rest.length = whole.length then .int n
    else .real (String.ofList (cs.take (cs.length - rest.length))), rest)

def readItems {α : Type} (item : List Char → Option (α × List Char)) (close : Char) :
    Nat → List Char → Option (List α × List Char)
  | 0, _ => none
  | fuel + 1, cs => do
    let (a, rest) ← item cs
    match skipSpace rest with
    | [] => none
    | c :: rest =>
      if c = close then some ([a], rest)
      else if c = ',' then (readItems item close fuel rest).map fun p => (a :: p.1, p.2)
      else none

def readMember (value : List Char → Option (Json × List Char)) (cs : List Char) :
    Option ((String × Json) × List Char) :=
  match skipSpace cs with
  | '"' :: rest => do
    let (key, rest) ← readString rest
    match skipSpace rest with
    | ':' :: rest => (value rest).map fun p => ((key, p.1), p.2)
    | _ => none
  | _ => none

def readList {α : Type} (item : List Char → Option (α × List Char)) (close : Char)
    (cs : List Char) : Option (List α × List Char) :=
  match skipSpace cs with
  | [] => none
  | c :: rest => if c = close then some ([], rest) else readItems item close cs.length (c :: rest)

def readValue : Nat → List Char → Option (Json × List Char)
  | 0, _ => none
  | depth + 1, cs =>
    match skipSpace cs with
    | '"' :: rest => (readString rest).map fun p => (.str p.1, p.2)
    | '[' :: rest => (readList (readValue depth) ']' rest).map fun p => (.arr p.1, p.2)
    | '\x7b' :: rest =>
      (readList (readMember (readValue depth)) '\x7d' rest).map fun p => (.obj p.1, p.2)
    | 'n' :: 'u' :: 'l' :: 'l' :: rest => some (.null, rest)
    | 't' :: 'r' :: 'u' :: 'e' :: rest => some (.bool true, rest)
    | 'f' :: 'a' :: 'l' :: 's' :: 'e' :: rest => some (.bool false, rest)
    | cs => readNumber cs

/-- A text with one value, in which at most ten thousand brackets are open at a time. -/
def parse (text : String) : Option Json :=
  match readValue 10001 text.toList with
  | some (value, rest) => if skipSpace rest = [] then some value else none
  | none => none

/-! ## What is read back -/

/-- A text that stands for itself between quotes. -/
def PlainText (s : String) : Prop := ∀ c ∈ s.toList, c ≠ '"' ∧ c ≠ '\\' ∧ 32 ≤ c.toNat

instance (s : String) : Decidable (PlainText s) := decidableBAll _ _

/-- Every string of a value, its keys included, stands for itself. -/
inductive Plain : Json → Prop
  | null : Plain .null
  | bool (b : Bool) : Plain (.bool b)
  | int (n : Int) : Plain (.int n)
  | real (literal : String) : Plain (.real literal)
  | str {s : String} (h : PlainText s) : Plain (.str s)
  | arr {elements : List Json} (h : ∀ j ∈ elements, Plain j) : Plain (.arr elements)
  | obj {members : List (String × Json)} (hkeys : ∀ m ∈ members, PlainText m.1)
    (hvalues : ∀ m ∈ members, Plain m.2) : Plain (.obj members)

@[simp]
theorem plain_int (n : Int) : Plain (.int n) := .int n

@[simp]
theorem plain_str_iff {s : String} : Plain (.str s) ↔ PlainText s :=
  ⟨fun h => by cases h; assumption, .str⟩

@[simp]
theorem plain_arr_iff {elements : List Json} : Plain (.arr elements) ↔ ∀ j ∈ elements, Plain j :=
  ⟨fun h => by cases h; assumption, .arr⟩

@[simp]
theorem plain_obj_iff {members : List (String × Json)} :
    Plain (.obj members) ↔ ∀ m ∈ members, PlainText m.1 ∧ Plain m.2 := by
  constructor
  · rintro ⟨⟩ m hm
    exact ⟨by solve_by_elim, by solve_by_elim⟩
  · intro h
    exact .obj (fun m hm => (h m hm).1) fun m hm => (h m hm).2

def quoted (s : String) : List Char := '"' :: (s.toList ++ ['"'])

def itemsText (close : Char) : List (List Char) → List Char
  | [] => [close]
  | [text] => text ++ [close]
  | text :: next :: rest => text ++ ',' :: itemsText close (next :: rest)

def objText (members : List (String × List Char × Json)) : List Char :=
  '\x7b' :: itemsText '\x7d' (members.map fun m => quoted m.1 ++ ':' :: m.2.1)

section

variable {rest : List Char} {n : Int}

theorem readUnits_plain {cs : List Char} (h : ∀ c ∈ cs, c ≠ '"' ∧ c ≠ '\\' ∧ 32 ≤ c.toNat) :
    readUnits (cs ++ '"' :: rest) = some (cs.map Char.toNat, rest) := by
  induction cs with
  | nil => rfl
  | cons c cs ih =>
    rw [forall_mem_cons] at h
    obtain ⟨⟨hquote, hescape, hprint⟩, hcs⟩ := h
    rw [cons_append, readUnits.eq_def]
    split
    next heq => cases heq
    next heq => exact absurd (List.cons.inj heq).1 hquote
    next heq => exact absurd (List.cons.inj heq).1 hescape
    next heq => exact absurd (List.cons.inj heq).1 hescape
    next heq =>
      cases heq
      rw [if_neg (Nat.not_lt.mpr hprint), ih hcs]
      rfl

theorem joinUnits_map (cs : List Char) : joinUnits (cs.map Char.toNat) = cs := by
  have hchar : ∀ c : Char, isSurrogate c.toNat = false := by
    intro c
    have hvalid : c.toNat < 0xD800 ∨ 0xDFFF < c.toNat ∧ c.toNat < 0x110000 := c.valid
    simp only [isSurrogate, Bool.and_eq_false_iff, decide_eq_false_iff_not]
    omega
  induction cs with
  | nil => rfl
  | cons c cs ih =>
    cases cs with
    | nil => simp [joinUnits, hchar]
    | cons d cs =>
      rw [map_cons] at ih ⊢
      rw [map_cons, joinUnits, hchar, if_neg Bool.false_ne_true, ih, Char.ofNat_toNat]

/-- Between quotes nothing is read that is longer than what was written, up to the first quote. -/
theorem idxOf_readUnits {text : List Char} {units : List Nat}
    (h : readUnits text = some (units, rest)) :
    units.idxOf 34 ≤ text.idxOf '"' ∧ (units.idxOf 34 = text.idxOf '"' → ∃ cs tail,
      text = cs ++ '"' :: tail ∧ ∀ c ∈ cs, c ≠ '"' ∧ c ≠ '\\' ∧ 32 ≤ c.toNat) := by
  fun_induction readUnits text generalizing units rest with
  | case1 => cases h
  | case2 tail =>
    cases h
    exact ⟨Nat.le_refl _, fun _ => ⟨[], tail, rfl, nofun⟩⟩
  | case3 a b c d text ih =>
    -- four hexadecimal digits are no quotes, so the text is six characters ahead
    simp only [Option.bind_eq_bind, Option.bind_eq_some_iff, foldlM_cons,
      Option.map_eq_some_iff] at h
    obtain ⟨unit, ⟨_, ⟨_, ha, -⟩, _, ⟨_, hb, -⟩, _, ⟨_, hc, -⟩, _, ⟨_, hd, -⟩, -⟩, p, hread,
      heq⟩ := h
    cases heq
    have hquote : ∀ {e n}, hexDigit e = some n → e ≠ '"' := by
      rintro e n he rfl
      cases he
    have hle := (ih hread).1
    simp only [idxOf_cons, beq_false_of_ne (hquote ha), beq_false_of_ne (hquote hb),
      beq_false_of_ne (hquote hc), beq_false_of_ne (hquote hd)]
    cases unit == 34 <;> simp
    omega
  | case4 c text _ ih =>
    simp only [Option.bind_eq_bind, Option.bind_eq_some_iff] at h
    obtain ⟨char, hchar, p, hread, heq⟩ := h
    cases heq
    have hle := (ih hread).1
    by_cases hquote : c = '"'
    · subst hquote
      cases hchar
      simp
    · simp only [idxOf_cons, beq_false_of_ne hquote]
      cases char.toNat == 34 <;> simp
      omega
  | case5 => cases h
  | case6 c text hquote _ hescape hprint ih =>
    obtain ⟨p, hread, heq⟩ := Option.map_eq_some_iff.mp h
    cases heq
    have hunit : c.toNat ≠ 34 := fun heq => hquote (Char.toNat_inj.mp heq)
    have hbackslash : c ≠ '\\' := by
      rintro rfl
      cases text with
      | nil => cases hread
      | cons d text => exact hescape d text rfl rfl
    simp only [idxOf_cons, beq_false_of_ne hquote, beq_false_of_ne hunit, cond_false,
      Nat.add_le_add_iff_right, Nat.add_right_cancel_iff]
    refine ⟨(ih hread).1, fun heq => ?_⟩
    obtain ⟨cs, tail, rfl, hcs⟩ := (ih hread).2 heq
    have hc : c ≠ '"' ∧ c ≠ '\\' ∧ 32 ≤ c.toNat := ⟨hquote, hbackslash, Nat.not_lt.mp hprint⟩
    exact ⟨c :: cs, tail, rfl, forall_mem_cons.mpr ⟨hc, hcs⟩⟩

theorem idxOf_cons_le {u : Nat} {units : List Nat} {c : Char} {cs : List Char}
    (h : u = 34 → c = '"') (hle : cs.idxOf '"' ≤ units.idxOf 34) :
    (c :: cs).idxOf '"' ≤ (u :: units).idxOf 34 := by
  by_cases hu : u = 34
  · simp [h hu]
  · simp only [idxOf_cons, beq_false_of_ne hu]
    cases c == '"' <;> simp
    omega

theorem idxOf_joinUnits (units : List Nat) : (joinUnits units).idxOf '"' ≤ units.idxOf 34 := by
  have hofNat : ∀ u, u = 34 → Char.ofNat u = '"' := by
    rintro u rfl
    rfl
  have hsurrogate : ∀ u, isSurrogate u = true → u ≠ 34 := by
    rintro u hu rfl
    cases hu
  fun_induction joinUnits units with
  | case1 => exact Nat.le_refl _
  | case2 u =>
    refine idxOf_cons_le (fun hu => ?_) (Nat.le_refl _)
    rw [hu]
    rfl
  | case3 u v rest hu hpair ih =>
    have hv : v ≠ 34 := by omega
    simp only [idxOf_cons, beq_false_of_ne (hsurrogate u hu), beq_false_of_ne hv]
    cases Char.ofNat _ == '"' <;> simp
    omega
  | case4 u v rest hu _ ih => exact idxOf_cons_le (fun h => absurd h (hsurrogate u hu)) ih
  | case5 u v rest hu ih => exact idxOf_cons_le (hofNat u) ih

theorem plainText_of_readString {s : String} {rest' : List Char}
    (h : readString (s.toList ++ '"' :: rest) = some (s, rest')) : PlainText s := by
  obtain ⟨p, hread, heq⟩ := Option.map_eq_some_iff.mp h
  have hjoin : joinUnits p.1 = s.toList := by
    rw [← (Prod.mk.inj heq).1, String.toList_ofList]
  have hindex : (s.toList ++ '"' :: rest).idxOf '"' = s.toList.idxOf '"' := by
    rw [idxOf_append]
    split
    next => rfl
    next hmem => rw [idxOf_eq_length hmem, idxOf_cons_self, Nat.zero_add]
  have hle := idxOf_joinUnits p.1
  obtain ⟨hunits, hplain⟩ := idxOf_readUnits hread
  rw [hindex] at hunits hplain
  rw [hjoin] at hle
  -- the text is plain up to its first quote, and that is what was read
  obtain ⟨cs, tail, htext, hcs⟩ := hplain (Nat.le_antisymm hunits hle)
  rw [htext, readUnits_plain hcs] at hread
  cases hread
  rw [joinUnits_map] at hjoin
  rwa [PlainText, ← hjoin]

theorem readString_iff {s : String} {rest' : List Char} :
    readString (s.toList ++ '"' :: rest) = some (s, rest') ↔ PlainText s ∧ rest' = rest := by
  have hread : PlainText s → readString (s.toList ++ '"' :: rest) = some (s, rest) := by
    intro h
    rw [readString, readUnits_plain h, Option.map_some, joinUnits_map, String.ofList_toList]
  constructor
  · intro h
    have hplain := plainText_of_readString h
    rw [hread hplain] at h
    cases h
    exact ⟨hplain, rfl⟩
  · rintro ⟨h, rfl⟩
    exact hread h

def Ends (rest : List Char) : Prop := ∀ c ∈ rest.head?, c = ',' ∨ c = ']' ∨ c = '\x7d'

theorem readNat_toDigits (hrest : Ends rest) (n : Nat) :
    readNat (Nat.toDigits 10 n ++ rest) = some (n, rest) := by
  have hdigits : ∀ c ∈ Nat.toDigits 10 n, c.isDigit = true :=
    fun c hc => Nat.isDigit_of_mem_toDigits (by decide) (by decide) hc
  have hstop : rest.takeWhile Char.isDigit = [] ∧ rest.dropWhile Char.isDigit = rest := by
    cases rest with
    | nil => exact ⟨rfl, rfl⟩
    | cons c rest =>
      have hc : c.isDigit = false := by
        rcases hrest c rfl with rfl | rfl | rfl <;> rfl
      exact ⟨takeWhile_cons_of_neg (by simp [hc]), dropWhile_cons_of_neg (by simp [hc])⟩
  unfold readNat
  rw [takeWhile_append_of_pos hdigits, dropWhile_append_of_pos hdigits, hstop.1, hstop.2,
    append_nil]
  dsimp only
  rw [Nat.ofDigitChars_ten_toDigits, if_pos rfl]

theorem readInt_toString (hrest : Ends rest) (n : Int) :
    readInt ((toString n).toList ++ rest) = some (n, rest) := by
  by_cases hn : 0 ≤ n
  · rw [Delimited.toList_toString_of_nonneg hn, readInt.eq_def]
    split
    next cs heq =>
      cases hdigits : Nat.toDigits 10 n.natAbs with
      | nil => exact absurd hdigits Nat.toDigits_ne_nil
      | cons d digits =>
        rw [hdigits] at heq
        cases heq
        exact absurd (hdigits ▸ mem_cons_self) (Delimited.minus_not_mem_toDigits _)
    next =>
      rw [readNat_toDigits hrest, Option.map_some, Int.natAbs_of_nonneg hn]
  · rw [Delimited.toList_toString_of_neg (Int.not_le.mp hn), cons_append, readInt,
      readNat_toDigits hrest, Option.map_some, Int.ofNat_natAbs_of_nonpos (by omega), Int.neg_neg]

theorem readNumber_toString (hrest : Ends rest) (n : Int) :
    readNumber ((toString n).toList ++ rest) = some (.int n, rest) := by
  have hdone : (skipFraction rest).bind skipExponent = some rest := by
    cases rest with
    | nil => rfl
    | cons c rest => rcases hrest c rfl with rfl | rfl | rfl <;> rfl
  unfold readNumber
  rw [readInt_toString hrest]
  simp [hdone]

theorem toString_head (n : Int) :
    ∃ c cs, (toString n).toList = c :: cs ∧ ∀ d : Char, d.isDigit = false → d ≠ '-' → c ≠ d := by
  cases htext : (toString n).toList with
  | nil =>
    have hread := @readInt_toString [] nofun n
    rw [htext] at hread
    cases hread
  | cons c cs =>
    refine ⟨c, cs, rfl, ?_⟩
    rintro d hdigit hminus rfl
    exact Delimited.not_mem_toString hdigit hminus n (htext ▸ mem_cons_self)

theorem isSpace_of_ne {c : Char} (h : ∀ d : Char, d.isDigit = false → d ≠ '-' → c ≠ d) :
    isSpace c = false := by
  simp [isSpace, h ' ' rfl (by decide), h '\t' rfl (by decide), h '\n' rfl (by decide),
    h '\r' rfl (by decide)]

theorem skipSpace_cons {c : Char} (h : isSpace c = false) (cs : List Char) :
    skipSpace (c :: cs) = c :: cs :=
  dropWhile_cons_of_neg (by simp [h])

theorem readValue_toString (hrest : Ends rest) (n : Int) (fuel : Nat) :
    readValue (fuel + 1) ((toString n).toList ++ rest) = some (.int n, rest) := by
  have hnumber := readNumber_toString hrest n
  obtain ⟨c, cs, htext, hne⟩ := toString_head n
  rw [htext, cons_append] at hnumber ⊢
  rw [readValue, skipSpace_cons (isSpace_of_ne hne)]
  -- the first character of a number leads to none of the other cases
  split
  case h_7 => exact hnumber
  all_goals
    next heq => exact absurd (List.cons.inj heq).1 (hne _ rfl (by decide))

theorem length_le_itemsText (close : Char) (texts : List (List Char)) :
    texts.length ≤ (itemsText close texts).length := by
  induction texts with
  | nil => exact Nat.zero_le _
  | cons text texts ih =>
    cases texts with
    | nil => simp [itemsText]
    | cons next texts =>
      simp only [itemsText, length_append, length_cons] at ih ⊢
      omega

/-- From `text` the item reads `a` exactly when `a` has the property, and then all of it. -/
structure Denotes {α : Type} (P : α → Prop) (item : List Char → Option (α × List Char))
    (text : List Char) (a : α) : Prop where
  head : ∃ c cs, text = c :: cs ∧ isSpace c = false ∧ c ≠ ']' ∧ c ≠ '\x7d'
  read : ∀ rest rest', Ends rest → (item (text ++ rest) = some (a, rest') ↔ P a ∧ rest' = rest)

section

variable {α : Type} {P : α → Prop} {item : List Char → Option (α × List Char)} {close : Char}

theorem readItems_cons_iff {fuel : Nat} {cs : List Char} {a : α} {as : List α} :
    readItems item close (fuel + 1) cs = some (a :: as, rest) ↔
      ∃ mid, item cs = some (a, mid) ∧ match skipSpace mid with
        | [] => False
        | c :: mid => if c = close then as = [] ∧ rest = mid
          else c = ',' ∧ readItems item close fuel mid = some (as, rest) := by
  rw [readItems]
  cases item cs with
  | none => simp
  | some p =>
    obtain ⟨a', mid⟩ := p
    simp only [Option.bind_eq_bind, Option.bind_some, Option.some.injEq, Prod.mk.injEq, and_assoc,
      exists_and_left, exists_eq_left']
    cases skipSpace mid with
    | nil => simp
    | cons c mid =>
      dsimp only
      split_ifs with hclose hcomma
      · simp [eq_comm, and_assoc]
      · simp [hcomma, and_comm]
      · simp [hcomma]

section

variable (hclose : close = ']' ∨ close = '\x7d') {items : List (List Char × α)}
  (h : ∀ i ∈ items, Denotes P item i.1 i.2)

include hclose h

theorem readItems_itemsText (hne : items ≠ []) {fuel : Nat} (hfuel : items.length ≤ fuel)
    (rest rest' : List Char) :
    readItems item close fuel (itemsText close (items.map Prod.fst) ++ rest) =
        some (items.map Prod.snd, rest') ↔ (∀ i ∈ items, P i.2) ∧ rest' = rest := by
  have hcomma : ',' ≠ close := by rcases hclose with rfl | rfl <;> decide
  have hspace : isSpace close = false := by rcases hclose with rfl | rfl <;> rfl
  induction items generalizing fuel with
  | nil => exact absurd rfl hne
  | cons i items ih =>
    rw [forall_mem_cons] at h ⊢
    obtain ⟨fuel, rfl⟩ : ∃ n, fuel = n + 1 := ⟨fuel - 1, by rw [length_cons] at hfuel; omega⟩
    rw [map_cons, map_cons, readItems_cons_iff]
    cases items with
    | nil =>
      have hends : Ends (close :: rest) := by simp [Ends, hclose]
      simp [itemsText, h.1.read _ _ hends, skipSpace_cons hspace]
    | cons next items =>
      have hread := h.1.read (',' :: itemsText close ((next :: items).map Prod.fst) ++ rest)
      rw [length_cons, Nat.add_le_add_iff_right] at hfuel
      have hitems := ih h.2 (cons_ne_nil _ _) hfuel
      simp only [map_cons, cons_append] at hread hitems ⊢
      simp [itemsText, hread _ (by simp [Ends]), skipSpace_cons, hcomma, hitems, isSpace, and_assoc]

theorem readList_itemsText (rest rest' : List Char) :
    readList item close (itemsText close (items.map Prod.fst) ++ rest) =
        some (items.map Prod.snd, rest') ↔ (∀ i ∈ items, P i.2) ∧ rest' = rest := by
  unfold readList
  cases items with
  | nil =>
    have hspace : isSpace close = false := by rcases hclose with rfl | rfl <;> rfl
    simp [itemsText, skipSpace_cons hspace, eq_comm]
  | cons i items =>
    obtain ⟨c, cs, hhead, hspace, hopen⟩ := (h i mem_cons_self).head
    obtain ⟨cs', htext⟩ :
        ∃ cs', itemsText close ((i :: items).map Prod.fst) ++ rest = c :: cs' := by
      cases items <;> exact ⟨_, by rw [map_cons, List.map, itemsText, hhead]; rfl⟩
    have hfuel : (i :: items).length ≤ (c :: cs').length := by
      have hlen := length_le_itemsText close ((i :: items).map Prod.fst)
      rw [← htext, length_append]
      rw [length_map] at hlen
      omega
    have hread := readItems_itemsText hclose h (cons_ne_nil _ _) hfuel rest rest'
    rw [htext] at hread ⊢
    rw [skipSpace_cons hspace]
    have hne : c ≠ close := by rcases hclose with rfl | rfl <;> simp [hopen]
    dsimp only
    rwa [if_neg hne]

end

end

variable {depth : Nat}

theorem denotes_str (s : String) :
    Denotes Plain (readValue (depth + 1)) (quoted s) (.str s) where
  head := ⟨_, _, rfl, rfl, by decide, by decide⟩
  read := by
    intro rest rest' _
    rw [quoted, cons_append, append_assoc, singleton_append, readValue, skipSpace_cons rfl,
      plain_str_iff, ← readString_iff]
    simp [Option.map_eq_some_iff]

theorem denotes_int (n : Int) :
    Denotes Plain (readValue (depth + 1)) (toString n).toList (.int n) where
  head := by
    obtain ⟨c, cs, htext, hne⟩ := toString_head n
    exact ⟨c, cs, htext, isSpace_of_ne hne, hne _ rfl (by decide), hne _ rfl (by decide)⟩
  read := by
    intro rest rest' hrest
    rw [readValue_toString hrest]
    simp [eq_comm]

theorem denotes_arr {items : List (List Char × Json)}
    (h : ∀ i ∈ items, Denotes Plain (readValue depth) i.1 i.2) :
    Denotes Plain (readValue (depth + 1)) ('[' :: itemsText ']' (items.map Prod.fst))
      (.arr (items.map Prod.snd)) where
  head := ⟨_, _, rfl, rfl, by decide, by decide⟩
  read := by
    intro rest rest' _
    have hread := readList_itemsText (.inl rfl) h rest rest'
    rw [cons_append, readValue, skipSpace_cons rfl, plain_arr_iff, forall_mem_map, ← hread]
    simp [Option.map_eq_some_iff]

theorem denotes_member (key : String) {value : List Char → Option (Json × List Char)}
    {text : List Char} {j : Json} (h : Denotes Plain value text j) :
    Denotes (fun m => PlainText m.1 ∧ Plain m.2) (readMember value) (quoted key ++ ':' :: text)
      (key, j) where
  head := ⟨_, _, rfl, rfl, by decide, by decide⟩
  read := by
    intro rest rest' hrest
    rw [quoted, cons_append, cons_append, readMember, skipSpace_cons rfl, append_assoc,
      append_assoc, singleton_append, cons_append, and_assoc, ← h.read rest rest' hrest]
    simp only [Option.bind_eq_bind, Option.bind_eq_some_iff]
    constructor
    · rintro ⟨⟨key', mid⟩, hkey, hvalue⟩
      split at hvalue
      next tail htail =>
        obtain ⟨p, hread, heq⟩ := Option.map_eq_some_iff.mp hvalue
        cases heq
        obtain ⟨hplain, rfl⟩ := readString_iff.mp hkey
        cases htail
        exact ⟨hplain, hread⟩
      next => cases hvalue
    · rintro ⟨hplain, hvalue⟩
      refine ⟨_, readString_iff.mpr ⟨hplain, rfl⟩, ?_⟩
      simp [skipSpace_cons, isSpace, hvalue]

theorem denotes_obj {members : List (String × List Char × Json)}
    (h : ∀ m ∈ members, Denotes Plain (readValue depth) m.2.1 m.2.2) :
    Denotes Plain (readValue (depth + 1)) (objText members)
      (.obj (members.map fun m => (m.1, m.2.2))) where
  head := ⟨_, _, rfl, rfl, by decide, by decide⟩
  read := by
    intro rest rest' _
    have hitems : ∀ i ∈ members.map fun m => (quoted m.1 ++ ':' :: m.2.1, m.1, m.2.2),
        Denotes (fun m => PlainText m.1 ∧ Plain m.2) (readMember (readValue depth)) i.1 i.2 :=
      List.forall_mem_map.mpr fun m hm => denotes_member m.1 (h m hm)
    have hread := readList_itemsText (.inr rfl) hitems rest rest'
    rw [map_map, map_map, forall_mem_map] at hread
    rw [objText, cons_append, readValue, skipSpace_cons rfl, plain_obj_iff, forall_mem_map, ← hread]
    simp only [Option.map_eq_some_iff, Prod.exists, Prod.mk.injEq, Json.obj.injEq]
    simp
    rfl

/-- A text is read as the value it was written for exactly when the strings of that are plain. -/
theorem parse_iff_plain {text : String} {chars : List Char} {j : Json}
    (h : Denotes Plain (readValue 10001) chars j) (htext : text.toList = chars) :
    parse text = some j ↔ Plain j := by
  have hread := fun rest => h.read [] rest nofun
  rw [append_nil] at hread
  rw [parse, htext]
  constructor
  · intro hparse
    split at hparse
    next value rest hvalue =>
      split at hparse
      next =>
        cases hparse
        exact ((hread rest).mp hvalue).1
      next => cases hparse
    next => cases hparse
  · intro hplain
    rw [(hread []).mpr ⟨hplain, rfl⟩]
    rfl

end

end CexHertz.Json
