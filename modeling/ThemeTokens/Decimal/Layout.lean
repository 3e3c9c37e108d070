import ThemeTokens.Decimal.Rounding

/-!
# Number texts

Where the point of a numeral goes and when an exponent is written.
-/
namespace ThemeTokens

namespace Numeral

def signText (n : Numeral) : Text := if n.negative then "-" else []

/-- All places written out, without an exponent. -/
def positional (n : Numeral) : Text :=
  let digits := Text.decimal n.digits
  let places := (-n.exponent).toNat
  if 0 ≤ n.exponent then
    n.signText ++ digits ++ List.replicate (if n.digits = 0 then 0 else n.exponent.toNat) '0'
  else if places < digits.length then
    n.signText ++ digits.take (digits.length - places) ++ "." ++
      digits.drop (digits.length - places)
  else n.signText ++ "0." ++ List.replicate (places - digits.length) '0' ++ digits

/-- One digit before the point, and the exponent of ten without a plus sign. -/
def scientific (n : Numeral) : Text :=
  let digits := Text.decimal n.digits
  let power := n.exponent + digits.length - 1
  let powerText := Numeral.positional ⟨power < 0, power.natAbs, 0⟩
  match digits with
  | [] => []
  | [d] => n.signText ++ [d] ++ "e" ++ powerText
  | d :: rest => n.signText ++ [d] ++ "." ++ rest ++ "e" ++ powerText

/-- A point and a zero follow a whole number. -/
def withPoint (n : Numeral) : Text :=
  if 0 ≤ n.exponent then n.positional ++ ".0" else n.positional

end Numeral

namespace Decimal

/-- Every finite value written out in full. -/
def plain : Decimal → Text
  | .notANumber => "NaN"
  | .infinite negative => if negative then "-inf" else "inf"
  | .finite n => n.positional

/-- Trailing zeros of a fraction say nothing, and neither does a point without digits after it. -/
def compact (t : Text) : Text :=
  let trimmed := (t.dropEndWhile (· == '0')).dropEndWhile (· == '.')
  if trimmed.isEmpty then "0" else trimmed

end Decimal

end ThemeTokens
