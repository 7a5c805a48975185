import CexHertz.Lib.Binary64
import CexHertz.Lib.MachineInt

/-!
# Reading and writing floating-point text

`strconv.ParseFloat`, `fmt.Sscanf("%f")` and `fmt.Sprintf("%.8f")` on characters. A text is read
into an exact rational and rounded once; the library's cap on exponents is kept, since it decides
the value of very long texts.
-/

namespace CexHertz.FloatText

open Binary64

def oneOf (chars : List Char) (c : Char) : Bool := chars.contains c

def isHexDigit (c : Char) : Bool := c.isDigit || ('a' ≤ c && c ≤ 'f') || ('A' ≤ c && c ≤ 'F')

def hexValue (c : Char) : Nat :=
  if c.isDigit then c.toNat - '0'.toNat
  else if 'a' ≤ c then c.toNat - 'a'.toNat + 10
  else c.toNat - 'A'.toNat + 10

/-! ## `strconv.ParseFloat` -/

inductive NumError where
  | errSyntax
  | errRange
  deriving DecidableEq, Repr

structure Mantissa where
  value : Nat
  fraction : Nat
  sawDot : Bool
  sawDigits : Bool
  deriving DecidableEq, Repr

def Mantissa.push (m : Mantissa) (base digit : Nat) : Mantissa :=
  { m with
    value := m.value * base + digit
    fraction := if m.sawDot then m.fraction + 1 else m.fraction
    sawDigits := true }

/-- The mantissa loop of `readFloat`; it stops at the first character that cannot belong to it. -/
def readMantissa (hex : Bool) (m : Mantissa) : List Char → Mantissa × List Char
  | [] => (m, [])
  | c :: rest =>
    if c = '_' then readMantissa hex m rest
    else if c = '.' then
      if m.sawDot then (m, c :: rest) else readMantissa hex { m with sawDot := true } rest
    else if c.isDigit || (hex && isHexDigit c) then
      readMantissa hex (m.push (if hex then 16 else 10) (hexValue c)) rest
    else (m, c :: rest)

def readExponentDigits (e : Nat) : List Char → Nat × List Char
  | [] => (e, [])
  | c :: rest =>
    if c = '_' then readExponentDigits e rest
    else if c.isDigit then
      readExponentDigits (if e < 10000 then e * 10 + hexValue c else e) rest
    else (e, c :: rest)

def readSign : List Char → Bool × List Char
  | '+' :: rest => (false, rest)
  | '-' :: rest => (true, rest)
  | cs => (false, cs)

def readExponent (cs : List Char) : Option (Int × List Char) :=
  let (negative, digits) := readSign cs
  match digits with
  | [] => none
  | c :: _ =>
    if c.isDigit then
      let (e, rest) := readExponentDigits 0 digits
      some (if negative then -(e : Int) else e, rest)
    else none

inductive Saw where
  | start
  | digit
  | underscore
  | other
  deriving DecidableEq

def underscoreScan (hex : Bool) (saw : Saw) : List Char → Bool
  | [] => saw ≠ .underscore
  | c :: rest =>
    if c.isDigit || (hex && isHexDigit c) then underscoreScan hex .digit rest
    else if c = '_' then
      if saw = .digit then underscoreScan hex .underscore rest else false
    else if saw = .underscore then false
    else underscoreScan hex .other rest

/-- `underscoreOK`: underscores only between digits, a base prefix counting as one. -/
def underscoreOK (cs : List Char) : Bool :=
  match (readSign cs).2 with
  | '0' :: c :: rest =>
    if oneOf ['x', 'X'] c then underscoreScan true .digit rest
    else if oneOf ['b', 'B', 'o', 'O'] c then underscoreScan false .digit rest
    else underscoreScan false .start ('0' :: c :: rest)
  | cs => underscoreScan false .start cs

def powQ (b : Nat) (e : Int) : ℚ :=
  if 0 ≤ e then ((b ^ e.toNat : Nat) : ℚ) else 1 / ((b ^ (-e).toNat : Nat) : ℚ)

def readPrefix : List Char → Bool × List Char
  | '0' :: x :: c :: rest =>
    if oneOf ['x', 'X'] x then (true, c :: rest) else (false, '0' :: x :: c :: rest)
  | cs => (false, cs)

def readTail (hex : Bool) : List Char → Option (Int × List Char)
  | [] => if hex then none else some (0, [])
  | c :: rest =>
    if oneOf (if hex then ['p', 'P'] else ['e', 'E']) c then readExponent rest
    else if hex then none else some (0, c :: rest)

/-- `readFloat` on a whole text: the exact value it denotes. -/
def readFloat (cs : List Char) : Option ℚ :=
  let (negative, body) := readSign cs
  let (hex, body) := readPrefix body
  let (m, rest) := readMantissa hex ⟨0, 0, false, false⟩ body
  match readTail hex rest with
  | some (e, []) =>
    if m.sawDigits && (!cs.contains '_' || underscoreOK cs) then
      let scale := if hex then powQ 2 (e - 4 * m.fraction) else powQ 10 (e - m.fraction)
      some (if negative then -(m.value * scale) else m.value * scale)
    else none
  | _ => none

/-- `special`: the texts of infinities and of NaN, in any case. -/
def special (cs : List Char) : Option F64 :=
  let (negative, body) := readSign cs
  let lowered := body.map Char.toLower
  if lowered = "inf".toList || lowered = "infinity".toList then some (.inf negative)
  else if cs.map Char.toLower = "nan".toList then some .nan
  else none

/-- `strconv.ParseFloat(s, 64)`: the value, and the error that comes with it. -/
def parseFloat (cs : List Char) : F64 × Option NumError :=
  match special cs with
  | some x => (x, none)
  | none =>
    match readFloat cs with
    | none => (.finite 0, some .errSyntax)
    | some q =>
      match Binary64.round q with
      | .finite r => (.finite r, none)
      | x => (x, some .errRange)

/-! ## `fmt.Sscanf` with `%f` -/

def isSpace (c : Char) : Bool :=
  let n := c.toNat
  (0x09 ≤ n && n ≤ 0x0d) || n = 0x20 || n = 0x85 || n = 0xa0 || n = 0x1680 ||
    (0x2000 ≤ n && n ≤ 0x200a) || (0x2028 ≤ n && n ≤ 0x2029) || n = 0x202f || n = 0x205f ||
    n = 0x3000

/-- `strings.TrimSpace`; `unicode.IsSpace` is the same table. -/
def trimSpace (cs : List Char) : List Char :=
  ((cs.dropWhile isSpace).reverse.dropWhile isSpace).reverse

/-- `SkipSpace`; a newline is an error for `Sscanf`. -/
def skipSpace : List Char → Option (List Char)
  | [] => some []
  | c :: rest =>
    if c = '\n' then none else if isSpace c then skipSpace rest else some (c :: rest)

structure Scan where
  taken : List Char
  rest : List Char

namespace Scan

def accept (ok : Char → Bool) (s : Scan) : Bool × Scan :=
  match s.rest with
  | [] => (false, s)
  | c :: rest => if ok c then (true, ⟨s.taken ++ [c], rest⟩) else (false, s)

def acceptEach : List (List Char) → Scan → Bool × Scan
  | [], s => (true, s)
  | ok :: oks, s =>
    match s.accept (oneOf ok) with
    | (true, s') => acceptEach oks s'
    | (false, s') => (false, s')

def acceptAll (ok : Char → Bool) (s : Scan) : Scan :=
  ⟨s.taken ++ s.rest.takeWhile ok, s.rest.dropWhile ok⟩

end Scan

def floatToken (input : List Char) : List Char :=
  let (nan, s) := Scan.acceptEach [['n', 'N'], ['a', 'A'], ['n', 'N']] ⟨[], input⟩
  if nan then s.taken
  else
    let (_, s) := s.accept (oneOf ['+', '-'])
    let (inf, s) := s.acceptEach [['i', 'I'], ['n', 'N'], ['f', 'F']]
    if inf then s.taken
    else
      let (hex, s) := s.acceptEach [['0'], ['x', 'X']]
      let digit := fun c => c = '_' || if hex then isHexDigit c else c.isDigit
      let s := s.acceptAll digit
      let (point, s) := s.accept (oneOf ['.'])
      let s := if point then s.acceptAll digit else s
      let (exponent, s) := s.accept (oneOf (if hex then ['p', 'P'] else ['e', 'E', 'p', 'P']))
      let s :=
        if exponent then
          (s.accept (oneOf ['+', '-'])).2.acceptAll fun c => c = '_' || c.isDigit
        else s
      s.taken

def atoi (cs : List Char) : Option Int :=
  let (negative, digits) := readSign cs
  if digits.isEmpty || !digits.all Char.isDigit then none
  else
    let n : Int := (Nat.ofDigitChars 10 digits 0 : Nat)
    let v := if negative then -n else n
    if -2 ^ 63 ≤ v ∧ v < 2 ^ 63 then some v else none

/-- A decimal with a binary exponent (`1.5p3`) goes through `math.Ldexp`, whose exponent arithmetic
wraps around in 64 bits. -/
def ldexp (x : F64) (m : Int) : F64 :=
  match x with
  | .nan => .nan
  | .inf s => .inf s
  | .finite q =>
    if q = 0 then .finite 0
    else
      let exp := wrapInt64 (m + binade q)
      if exp < -1075 then .finite 0
      else if exp > 1023 then .inf (decide (q < 0))
      else Binary64.round (q * pow2 m)

/-- `convertFloat`; an error leaves the scanned variable alone. -/
def convertFloat (token : List Char) : Option F64 :=
  if token.contains 'p' && !token.any (oneOf ['x', 'X']) then
    match parseFloat (token.takeWhile (· ≠ 'p')) with
    | (f, none) => (atoi ((token.dropWhile (· ≠ 'p')).drop 1)).map (ldexp f)
    | (_, some _) => none
  else
    match parseFloat token with
    | (f, none) => some f
    | (_, some _) => none

/-- `fmt.Sscanf(s, "%f", &x)`: the value stored in `x`, if any. -/
def sscanf (cs : List Char) : Option F64 :=
  match skipSpace cs with
  | none => none
  | some [] => none
  | some body => convertFloat (floatToken body)

/-! ## `fmt.Sprintf` with a fixed number of places -/

def padDigits (width n : Nat) : List Char :=
  let digits := Nat.toDigits 10 n
  List.replicate (width - digits.length) '0' ++ digits

/-- `fmt.Sprintf` of a finite `x` with the verb `%.8f`, for any number of places. -/
def formatFixed (places : Nat) (q : ℚ) : List Char :=
  let n := (roundHalfEven (|q| * (10 ^ places : Nat))).toNat
  (if q < 0 then ['-'] else []) ++ Nat.toDigits 10 (n / 10 ^ places) ++
    '.' :: padDigits places (n % 10 ^ places)

/-! ## Conversion to integers -/

def truncate (q : ℚ) : Int := if 0 ≤ q then q.floor else -(-q).floor

structure IntConversion where
  outOfRange : F64 → Int
  range : ∀ x, -2 ^ 63 ≤ outOfRange x ∧ outOfRange x < 2 ^ 63

def IntConversion.amd64 : IntConversion := ⟨fun _ => -2 ^ 63, fun _ => by decide⟩

def toInt64 (conv : IntConversion) (x : F64) : Int :=
  match x with
  | .finite q =>
    if -2 ^ 63 ≤ truncate q ∧ truncate q < 2 ^ 63 then truncate q else conv.outOfRange x
  | x => conv.outOfRange x

end CexHertz.FloatText
