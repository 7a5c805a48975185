import CexHertz.Lib.FloatText

/-!
# Reading back fixed-point text

A text written with a fixed number of places is well formed for `ParseFloat`, and denotes exactly
the multiple of `10 ^ -places` that was written.
-/

namespace CexHertz.FloatText

open Binary64 List

def isFixedChar (c : Char) : Bool := c.isDigit || c = '.'

theorem hexValue_of_isDigit {c : Char} (h : c.isDigit = true) : hexValue c = c.toNat - '0'.toNat :=
  if_pos h

-- A digit is none of the characters at which the reader changes its state.
theorem isDigit_ne {c d : Char} (hc : c.isDigit = true) (hd : d.isDigit = false) : c ≠ d := by
  rintro rfl
  rw [hc] at hd
  cases hd

/-- Reading digits: the value is the number they write, the places are counted after the point. -/
theorem readMantissa_digits {digits rest : List Char} (h : ∀ c ∈ digits, c.isDigit = true)
    (hne : digits ≠ []) (m : Mantissa) :
    readMantissa false m (digits ++ rest) = readMantissa false
        { value := Nat.ofDigitChars 10 digits m.value
          fraction := if m.sawDot then m.fraction + digits.length else m.fraction
          sawDot := m.sawDot
          sawDigits := true } rest := by
  induction digits generalizing m with
  | nil => exact absurd rfl hne
  | cons c digits ih =>
    have hc : c.isDigit = true := h c mem_cons_self
    have hrest : ∀ d ∈ digits, d.isDigit = true := fun d hd => h d (.tail _ hd)
    have hturn : readMantissa false m (c :: digits ++ rest) =
        readMantissa false (m.push 10 (hexValue c)) (digits ++ rest) := by
      rw [cons_append, readMantissa, if_neg (isDigit_ne hc (by decide)),
        if_neg (isDigit_ne hc (by decide)), if_pos (by rw [hc]; rfl)]
      rfl
    rw [hturn, hexValue_of_isDigit hc]
    by_cases hnil : digits = []
    · subst hnil
      simp only [Mantissa.push, nil_append, Nat.ofDigitChars_cons, Nat.ofDigitChars_nil,
        length_singleton, Nat.mul_comm]
    · rw [ih hrest hnil]
      simp only [Mantissa.push, Nat.ofDigitChars_cons, length_cons, Nat.mul_comm]
      congr 2
      split <;> omega

theorem padDigits_isDigit (width n : Nat) : ∀ c ∈ padDigits width n, c.isDigit = true := by
  intro c hc
  rcases mem_append.mp hc with hc | hc
  · rw [(mem_replicate.mp hc).2]
    decide
  · exact Nat.isDigit_of_mem_toDigits (by decide) (by decide) hc

-- Leading zeros do not change the value, only the scale of what was read before.
theorem ofDigitChars_padDigits (width n init : Nat) (hlen : (padDigits width n).length = width) :
    Nat.ofDigitChars 10 (padDigits width n) init = 10 ^ width * init + n := by
  rw [Nat.ofDigitChars_eq_ofDigitChars_zero, hlen]
  congr 1
  rw [padDigits, Nat.ofDigitChars_append, Nat.ofDigitChars_replicate_zero, Nat.mul_zero,
    Nat.ofDigitChars_ten_toDigits]

theorem length_padDigits {width n : Nat} (hpos : 0 < width) (h : n < 10 ^ width) :
    (padDigits width n).length = width := by
  have hlen : (Nat.toDigits 10 n).length ≤ width :=
    (Nat.length_toDigits_le_iff (by decide) hpos).mpr h
  rw [padDigits, length_append, length_replicate]
  omega

/-! ## The order of digits as characters -/

theorem lt_append_iff {l l' r r' : List Char} (hlen : l.length = l'.length) :
    l ++ r < l' ++ r' ↔ l < l' ∨ l = l' ∧ r < r' := by
  induction l generalizing l' with
  | nil =>
    rw [eq_nil_of_length_eq_zero hlen.symm]
    simp
  | cons c l ih =>
    cases l' with
    | nil => cases hlen
    | cons c' l' =>
      rw [cons_append, cons_append, cons_lt_cons_iff, cons_lt_cons_iff,
        ih (Nat.succ.inj hlen), List.cons.injEq]
      tauto

theorem toNat_of_isDigit {c : Char} (h : c.isDigit = true) : 48 ≤ c.toNat ∧ c.toNat ≤ 57 := by
  simpa [Char.isDigit, UInt32.le_iff_toNat_le] using h

theorem ofDigitChars_cons_zero (c : Char) (l : List Char) : Nat.ofDigitChars 10 (c :: l) 0 =
      10 ^ l.length * (c.toNat - 48) + Nat.ofDigitChars 10 l 0 := by
  rw [Nat.ofDigitChars_cons, Nat.ofDigitChars_eq_ofDigitChars_zero, Nat.mul_zero, Nat.zero_add]
  rfl

theorem ofDigitChars_lt {l : List Char} (hl : ∀ c ∈ l, c.isDigit = true) :
    Nat.ofDigitChars 10 l 0 < 10 ^ l.length := by
  induction l with
  | nil => decide
  | cons c l ih =>
    obtain ⟨hc, hl⟩ := forall_mem_cons.mp hl
    have hrest := ih hl
    have hdigit : c.toNat - 48 ≤ 9 := by
      have := toNat_of_isDigit hc
      omega
    have hmul := Nat.mul_le_mul_left (10 ^ l.length) hdigit
    rw [ofDigitChars_cons_zero, length_cons, Nat.pow_succ]
    omega

theorem mul_add_lt_mul_add_iff {b d d' r r' : Nat} (hr : r < b) (hr' : r' < b) :
    b * d + r < b * d' + r' ↔ d < d' ∨ d = d' ∧ r < r' := by
  have hweigh : ∀ d d' : Nat, d < d' → b * d + b ≤ b * d' := by
    intro d d' hlt
    exact Nat.mul_succ _ _ ▸ Nat.mul_le_mul_left _ hlt
  rcases Nat.lt_trichotomy d d' with hlt | rfl | hgt
  · have := hweigh d d' hlt
    exact iff_of_true (by omega) (.inl hlt)
  · omega
  · have := hweigh d' d hgt
    exact iff_of_false (by omega) (by omega)

theorem digits_lt_iff {l l' : List Char} (hl : ∀ c ∈ l, c.isDigit = true)
    (hl' : ∀ c ∈ l', c.isDigit = true) (hlen : l.length = l'.length) :
    l < l' ↔ Nat.ofDigitChars 10 l 0 < Nat.ofDigitChars 10 l' 0 := by
  induction l generalizing l' with
  | nil =>
    rw [eq_nil_of_length_eq_zero hlen.symm]
    simp
  | cons c l ih =>
    cases l' with
    | nil => cases hlen
    | cons c' l' =>
      obtain ⟨hc, hl⟩ := forall_mem_cons.mp hl
      obtain ⟨hc', hl'⟩ := forall_mem_cons.mp hl'
      have hlen : l.length = l'.length := Nat.succ.inj hlen
      have hdigit := toNat_of_isDigit hc
      have hdigit' := toNat_of_isDigit hc'
      have hvalue : Nat.ofDigitChars 10 l 0 < 10 ^ l'.length := hlen ▸ ofDigitChars_lt hl
      rw [cons_lt_cons_iff, ih hl hl' hlen, ofDigitChars_cons_zero, ofDigitChars_cons_zero,
        hlen, mul_add_lt_mul_add_iff hvalue (ofDigitChars_lt hl'),
        show c < c' ↔ c.toNat < c'.toNat from Iff.rfl, ← Char.toNat_inj]
      omega

/-! ## A sign, digits, a point, digits -/

section

variable {whole frac : List Char}

def fixedText (negative : Bool) (whole frac : List Char) : List Char :=
  (if negative then ['-'] else []) ++ (whole ++ '.' :: frac)

structure FixedDigits (whole frac : List Char) : Prop where
  whole_digits : ∀ c ∈ whole, c.isDigit = true
  whole_ne : whole ≠ []
  frac_digits : ∀ c ∈ frac, c.isDigit = true
  frac_ne : frac ≠ []

theorem FixedDigits.isFixedChar (h : FixedDigits whole frac) :
    ∀ c ∈ whole ++ '.' :: frac, isFixedChar c = true := by
  intro c hc
  unfold FloatText.isFixedChar
  rcases mem_append.mp hc with hc | hc
  · rw [h.whole_digits c hc, Bool.true_or]
  · rcases mem_cons.mp hc with rfl | hc
    · decide
    · rw [h.frac_digits c hc, Bool.true_or]

theorem FixedDigits.readSign (h : FixedDigits whole frac) (negative : Bool) :
    readSign (fixedText negative whole frac) = (negative, whole ++ '.' :: frac) := by
  cases negative with
  | true => rfl
  | false =>
    obtain ⟨c, rest, rfl⟩ := exists_cons_of_ne_nil h.whole_ne
    have hc : c.isDigit = true := h.whole_digits c mem_cons_self
    have hplus : c ≠ '+' := isDigit_ne hc (by decide)
    have hminus : c ≠ '-' := isDigit_ne hc (by decide)
    rw [FloatText.readSign]
    · rfl
    · intro rest' heq
      exact hplus (List.cons.inj heq).1
    · intro rest' heq
      exact hminus (List.cons.inj heq).1

-- No `x` among the characters, so no hexadecimal prefix.
theorem readPrefix_of_fixedChars {cs : List Char} (h : ∀ c ∈ cs, isFixedChar c = true) :
    readPrefix cs = (false, cs) := by
  unfold readPrefix
  split
  next x c rest =>
    have hx : isFixedChar x = true := h x (by simp)
    have hnot : oneOf ['x', 'X'] x = false := by
      unfold oneOf
      simp only [contains_cons, contains_nil, Bool.or_false, Bool.or_eq_false_iff,
        beq_eq_false_iff_ne]
      constructor
      · rintro rfl
        revert hx
        decide
      · rintro rfl
        revert hx
        decide
    rw [hnot]
    rfl
  next => rfl

theorem FixedDigits.readMantissa (h : FixedDigits whole frac) :
    readMantissa false ⟨0, 0, false, false⟩ (whole ++ '.' :: frac) =
      (⟨Nat.ofDigitChars 10 frac (Nat.ofDigitChars 10 whole 0), frac.length, true, true⟩, []) := by
  rw [readMantissa_digits h.whole_digits h.whole_ne]
  have hpoint : ∀ (m : Mantissa) (rest : List Char), m.sawDot = false →
      FloatText.readMantissa false m ('.' :: rest) =
        FloatText.readMantissa false { m with sawDot := true } rest := by
    intro m rest hm
    rw [FloatText.readMantissa, if_neg (by decide), if_pos rfl, hm]
    rfl
  rw [hpoint _ _ rfl]
  simp only [Bool.false_eq_true, if_false]
  rw [← append_nil frac, readMantissa_digits h.frac_digits h.frac_ne, append_nil]
  simp only [if_true, Nat.zero_add]
  rfl

theorem FixedDigits.readFloat (h : FixedDigits whole frac) (negative : Bool) :
    readFloat (fixedText negative whole frac) =
      let value : ℚ := Nat.ofDigitChars 10 frac (Nat.ofDigitChars 10 whole 0) *
        powQ 10 (0 - frac.length)
      some (if negative then -value else value) := by
  have hunder : (fixedText negative whole frac).contains '_' = false := by
    rw [Bool.eq_false_iff]
    intro hmem
    rw [contains_iff_mem, fixedText, mem_append] at hmem
    rcases hmem with hmem | hmem
    · split at hmem <;> simp at hmem
    · have := h.isFixedChar _ hmem
      revert this
      decide
  unfold FloatText.readFloat
  rw [h.readSign, hunder]
  dsimp only
  rw [readPrefix_of_fixedChars h.isFixedChar]
  rw [h.readMantissa]
  rfl

-- A fixed-point text starts with a digit behind its sign, so it spells no infinity and no NaN.
theorem FixedDigits.special (h : FixedDigits whole frac) (negative : Bool) :
    special (fixedText negative whole frac) = none := by
  have hpoint : '.' ∈ whole ++ '.' :: frac := mem_append_right _ mem_cons_self
  have hlower : ∀ cs : List Char, '.' ∈ cs → '.' ∈ cs.map Char.toLower := by
    intro cs hcs
    exact mem_map.mpr ⟨'.', hcs, by decide⟩
  have hinf : (whole ++ '.' :: frac).map Char.toLower ≠ "inf".toList :=
    fun heq => absurd (heq ▸ hlower _ hpoint) (by decide)
  have hinfinity : (whole ++ '.' :: frac).map Char.toLower ≠ "infinity".toList :=
    fun heq => absurd (heq ▸ hlower _ hpoint) (by decide)
  have hnan : (fixedText negative whole frac).map Char.toLower ≠ "nan".toList :=
    fun heq => absurd (heq ▸ hlower _ (mem_append_right _ hpoint)) (by decide)
  unfold FloatText.special
  rw [h.readSign]
  dsimp only
  rw [decide_eq_false hinf, decide_eq_false hinfinity, if_neg (by decide), if_neg hnan]

end

/-! ## Round trips -/

theorem fixedDigits_of_nat {places : Nat} (hplaces : 0 < places) (n : Nat) :
    FixedDigits (Nat.toDigits 10 (n / 10 ^ places)) (padDigits places (n % 10 ^ places)) where
  whole_digits := fun c hc => Nat.isDigit_of_mem_toDigits (by decide) (by decide) hc
  whole_ne := fun h => absurd (congrArg List.length h) (Nat.ne_of_gt Nat.length_toDigits_pos)
  frac_digits := padDigits_isDigit _ _
  frac_ne := by
    intro h
    have hlen : (padDigits places (n % 10 ^ places)).length = places :=
      length_padDigits hplaces (Nat.mod_lt _ (by positivity))
    rw [h, length_nil] at hlen
    omega

theorem fixedText_lt_iff {places m n : Nat} (hplaces : 0 < places)
    (hlen : (Nat.toDigits 10 (m / 10 ^ places)).length =
      (Nat.toDigits 10 (n / 10 ^ places)).length) :
    fixedText false (Nat.toDigits 10 (m / 10 ^ places)) (padDigits places (m % 10 ^ places)) <
        fixedText false (Nat.toDigits 10 (n / 10 ^ places)) (padDigits places (n % 10 ^ places)) ↔
      m < n := by
  have hpad : ∀ k, (padDigits places (k % 10 ^ places)).length = places :=
    fun k => length_padDigits hplaces (Nat.mod_lt _ (by positivity))
  have hm := fixedDigits_of_nat hplaces m
  have hn := fixedDigits_of_nat hplaces n
  have hwhole : Nat.toDigits 10 (m / 10 ^ places) = Nat.toDigits 10 (n / 10 ^ places) ↔
      m / 10 ^ places = n / 10 ^ places := by
    refine ⟨fun h => ?_, fun h => by rw [h]⟩
    have hvalue := congrArg (Nat.ofDigitChars 10 · 0) h
    rwa [Nat.ofDigitChars_ten_toDigits, Nat.ofDigitChars_ten_toDigits] at hvalue
  have hdot : ¬ '.' < '.' := by decide
  unfold fixedText
  rw [if_neg Bool.false_ne_true, nil_append, nil_append, lt_append_iff hlen,
    cons_lt_cons_iff, digits_lt_iff hm.whole_digits hn.whole_digits hlen,
    digits_lt_iff hm.frac_digits hn.frac_digits ((hpad m).trans (hpad n).symm),
    Nat.ofDigitChars_ten_toDigits, Nat.ofDigitChars_ten_toDigits,
    ofDigitChars_padDigits _ _ _ (hpad m), ofDigitChars_padDigits _ _ _ (hpad n), hwhole]
  have hmod : ∀ k, k % 10 ^ places < 10 ^ places := fun k => Nat.mod_lt k (by positivity)
  simp only [hdot, false_or, true_and, Nat.mul_zero, Nat.zero_add]
  rw [← mul_add_lt_mul_add_iff (hmod m) (hmod n), Nat.div_add_mod, Nat.div_add_mod]

theorem powQ_neg_natCast (b n : Nat) : powQ b (0 - n) = 1 / (b ^ n : Nat) := by
  unfold powQ
  split
  next h =>
    have hn : n = 0 := by omega
    subst hn
    norm_num
  next => rw [show -(0 - (n : Int)) = n by omega, Int.toNat_natCast]

theorem formatFixed_eq (places : Nat) (q : ℚ) : ∃ n,
    (roundHalfEven (|q| * (10 ^ places : Nat))).toNat = n ∧ formatFixed places q =
      fixedText (decide (q < 0)) (Nat.toDigits 10 (n / 10 ^ places))
        (padDigits places (n % 10 ^ places)) := by
  refine ⟨_, rfl, ?_⟩
  unfold formatFixed fixedText
  rw [append_assoc]
  simp only [decide_eq_true_eq]

theorem readFloat_formatFixed {places : Nat} (hplaces : 0 < places) (q : ℚ) :
    readFloat (formatFixed places q) =
      let value : ℚ := (roundHalfEven (|q| * (10 ^ places : Nat))).toNat / (10 ^ places : Nat)
      some (if q < 0 then -value else value) := by
  obtain ⟨n, hn, htext⟩ := formatFixed_eq places q
  have hlen : (padDigits places (n % 10 ^ places)).length = places :=
    length_padDigits hplaces (Nat.mod_lt _ (by positivity))
  have hvalue : Nat.ofDigitChars 10 (padDigits places (n % 10 ^ places))
      (Nat.ofDigitChars 10 (Nat.toDigits 10 (n / 10 ^ places)) 0) = n := by
    rw [ofDigitChars_padDigits _ _ _ hlen, Nat.ofDigitChars_ten_toDigits, Nat.div_add_mod]
  rw [htext, (fixedDigits_of_nat hplaces n).readFloat, hn]
  rw [hvalue, hlen, powQ_neg_natCast, mul_one_div]
  simp only [decide_eq_true_eq]

-- The text is within one unit of the value; this keeps the parsed value finite.
theorem abs_readFloat_formatFixed_le {places : Nat} (hplaces : 0 < places) (q : ℚ) :
    ∃ value, readFloat (formatFixed places q) = some value ∧ |value| ≤ |q| + 1 := by
  refine ⟨_, readFloat_formatFixed hplaces q, ?_⟩
  have hscale : (1 : ℚ) ≤ (10 ^ places : Nat) := by exact_mod_cast Nat.one_le_pow _ _ (by decide)
  have hround := roundHalfEven_le (|q| * (10 ^ places : Nat))
  have hnonneg : 0 ≤ roundHalfEven (|q| * (10 ^ places : Nat)) :=
    roundHalfEven_nonneg (by positivity)
  generalize roundHalfEven (|q| * (10 ^ places : Nat)) = r at hround hnonneg ⊢
  have hcast : ((r.toNat : Nat) : ℚ) = r := by exact_mod_cast Int.toNat_of_nonneg hnonneg
  have hvalue : ((r.toNat : Nat) : ℚ) / (10 ^ places : Nat) ≤ |q| + 1 := by
    rw [div_le_iff₀ (by linarith), add_mul]
    linarith
  have habs : ∀ r : ℚ, 0 ≤ r → |if q < 0 then -r else r| = r := by
    intro r hr
    split
    · rw [abs_neg, abs_of_nonneg hr]
    · exact abs_of_nonneg hr
  rwa [habs _ (by positivity)]

theorem special_formatFixed {places : Nat} (hplaces : 0 < places) (q : ℚ) :
    special (formatFixed places q) = none := by
  obtain ⟨n, -, htext⟩ := formatFixed_eq places q
  rw [htext]
  exact (fixedDigits_of_nat hplaces n).special _

theorem parseFloat_formatFixed {places : Nat} (hplaces : 0 < places) {q : ℚ}
    (h : |q| < 2 ^ 99) : ∃ r, parseFloat (formatFixed places q) = (.finite r, none) := by
  obtain ⟨value, hread, hle⟩ := abs_readFloat_formatFixed_le hplaces q
  have hround : Binary64.round value = .finite (nearest value) := by
    apply round_finite
    calc |value| ≤ |q| + 1 := hle
      _ < 2 ^ 99 + 1 := by linarith
      _ < 2 ^ 100 := by norm_num
  refine ⟨nearest value, ?_⟩
  unfold parseFloat
  rw [special_formatFixed hplaces, hread]
  dsimp only
  rw [hround]

/-! ## Surrounding blanks -/

theorem isSpace_of_isFixedChar {c : Char} (h : isFixedChar c = true) : isSpace c = false := by
  have hrange : 46 ≤ c.toNat ∧ c.toNat ≤ 57 := by
    unfold isFixedChar at h
    simp only [Bool.or_eq_true, decide_eq_true_eq] at h
    rcases h with h | rfl
    · have := toNat_of_isDigit h
      omega
    · decide
  unfold isSpace
  simp only [Bool.or_eq_false_iff, Bool.and_eq_false_iff, decide_eq_false_iff_not]
  omega

theorem dropWhile_isSpace {cs : List Char} (h : ∀ c ∈ cs, isSpace c = false) :
    cs.dropWhile isSpace = cs := by
  cases cs with
  | nil => rfl
  | cons c cs => rw [dropWhile_cons_of_neg (by rw [h c mem_cons_self]; decide)]

theorem trimSpace_of_no_space {cs : List Char} (h : ∀ c ∈ cs, isSpace c = false) :
    trimSpace cs = cs := by
  unfold trimSpace
  rw [dropWhile_isSpace h, dropWhile_isSpace (fun c hc => h c (mem_reverse.mp hc)), reverse_reverse]

theorem trimSpace_formatFixed {places : Nat} (hplaces : 0 < places) (q : ℚ) :
    trimSpace (formatFixed places q) = formatFixed places q := by
  obtain ⟨n, -, htext⟩ := formatFixed_eq places q
  rw [htext]
  apply trimSpace_of_no_space
  intro c hc
  rcases mem_append.mp hc with hc | hc
  · split at hc
    · rw [mem_singleton.mp hc]
      decide
    · cases hc
  · exact isSpace_of_isFixedChar ((fixedDigits_of_nat hplaces n).isFixedChar c hc)

end CexHertz.FloatText
