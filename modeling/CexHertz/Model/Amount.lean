import CexHertz.Lib.FixedText

/-!
# Amounts as text

`PriceInNano` and `QuantityInNano` are printed through a `float64` with eight places, and parsed
through a `float64` again.  Printing any `int64` gives a text that parses; the value that comes
back need not be the one that was printed.
-/

namespace CexHertz.Model

open Binary64 FloatText

def sprintf8 : F64 → String
  | .nan => "NaN"
  | .inf negative => if negative then "-Inf" else "+Inf"
  | .finite q => String.ofList (formatFixed 8 q)

def nanoString (n : Int) : String := sprintf8 ((ofInt n).divPos (10 ^ 8))

/-- The parser of both kinds of amounts; `what` is the word its error uses. -/
def parseAmount (conv : IntConversion) (what : String) (text : String) : Except String Int64 :=
  let text := String.ofList (trimSpace text.toList)
  match parseFloat text.toList with
  | (_, some _) => .error ("invalid " ++ what ++ " format: " ++ text)
  | (x, none) => .ok (Int64.ofInt (toInt64 conv (x.mulPos (10 ^ 8))))

def parsePrice (conv : IntConversion) (priceStr : String) : Except String Int64 :=
  parseAmount conv "price" priceStr

def parseQuantity (conv : IntConversion) (qtyStr : String) : Except String Int64 :=
  parseAmount conv "quantity" qtyStr

def Survives (conv : IntConversion) (q : Int) : Prop :=
  parseQuantity conv (nanoString q) = .ok (Int64.ofInt q)

instance (conv : IntConversion) (q : Int) : Decidable (Survives conv q) :=
  inferInstanceAs (Decidable (parseQuantity conv (nanoString q) = .ok (Int64.ofInt q)))

theorem divPos_ofInt_finite {n : Int} (h : |n| ≤ 2 ^ 63) :
    ∃ q, (ofInt n).divPos (10 ^ 8) = .finite q ∧ |q| < 2 ^ 99 := by
  have hn : |(n : ℚ)| ≤ 2 ^ 63 := by exact_mod_cast h
  have hint : ofInt n = .finite (nearest n) := round_finite (hn.trans_lt (by norm_num))
  have hnear : |nearest (n : ℚ)| ≤ 2 ^ 65 := by
    have hle := abs_nearest_le (n : ℚ)
    linarith
  have hdiv : |nearest (n : ℚ) / 10 ^ 8| ≤ 2 ^ 65 := by
    rw [abs_div, abs_of_pos (by norm_num : (0 : ℚ) < 10 ^ 8), div_le_iff₀ (by norm_num)]
    linarith
  refine ⟨nearest (nearest (n : ℚ) / 10 ^ 8), ?_, ?_⟩
  · rw [hint, F64.divPos]
    exact round_finite (hdiv.trans_lt (by norm_num))
  · have hle := abs_nearest_le (nearest (n : ℚ) / 10 ^ 8)
    linarith

theorem parseAmount_nanoString (conv : IntConversion) (what : String) {n : Int}
    (h : |n| ≤ 2 ^ 63) : ∃ v, parseAmount conv what (nanoString n) = .ok v := by
  obtain ⟨q, hdiv, hq⟩ := divPos_ofInt_finite h
  obtain ⟨r, hparse⟩ := parseFloat_formatFixed (show 0 < 8 by decide) hq
  refine ⟨Int64.ofInt (toInt64 conv (F64.mulPos (.finite r) (10 ^ 8))), ?_⟩
  unfold parseAmount nanoString
  rw [hdiv, sprintf8, String.toList_ofList, trimSpace_formatFixed (by decide)]
  dsimp only
  rw [String.toList_ofList, hparse]

end CexHertz.Model
