import ThemeTokens.Decimal.Layout
import ThemeTokens.Text.Basic

/-!
# Numbers

The arithmetic that colour computations need. Every computation of the library is written once over
this class; programs run it on doubles, and laws can be stated over any instance.
-/
namespace ThemeTokens

class Number (R : Type) extends Add R, Sub R, Mul R, Div R, Neg R, LT R, LE R, OfScientific R where
  decidableLT : DecidableLT R
  decidableLE : DecidableLE R
  isNaN : R → Bool
  isFinite : R → Bool
  ofNat : Nat → R
  /-- The nearest natural number, a half going up; what has none, or lies below, gives zero. -/
  round : R → Nat
  /-- `x * y + z`, where the product is not rounded on its own. -/
  mulAdd : R → R → R → R
  /-- The remainder of a division, with the sign of its first operand. -/
  rem : R → R → R
  pow : R → R → R
  cbrt : R → R
  hypot : R → R → R
  atan2 : R → R → R
  sin : R → R
  cos : R → R
  pi : R
  /-- The number nearest to a numeral. -/
  ofNumeral : Numeral → R
  /-- The shortest numeral that is read back as the number. -/
  shortest : Tie → R → Decimal
  /-- The numeral nearest to the number with so many decimal places, a tie going to even. -/
  toPlaces : Nat → R → Decimal

namespace Number
variable {R : Type} [Number R]

instance : DecidableLT R := decidableLT
instance : DecidableLE R := decidableLE

/-- The nearest number in `[0, 1]`. -/
@[inline] def clamp (x : R) : R := if x < 0.0 then 0.0 else if 1.0 < x then 1.0 else x

/-- The nearest number in `[0, 1]`, or `fallback` where there is none. -/
@[inline] def clampOr (fallback x : R) : R := if isNaN x then fallback else clamp x

/-- The number itself if it is positive, and zero otherwise. -/
@[inline] def nonneg (x : R) : R := if 0.0 < x then x else 0.0

@[inline] def abs (x : R) : R := if x < 0.0 then -x else x

@[inline] def min (x y : R) : R := if x < y then x else y

/-- `u * x + v * y + w * z`, summed from the right. -/
@[inline] def dot (u x v y w z : R) : R := mulAdd u x (mulAdd v y (w * z))

/-- The byte nearest to a fraction, which is first brought into `[0, 1]`. -/
def toByte (x : R) : UInt8 := UInt8.ofNat (round (clampOr 0.0 x * 255.0))

/-- The fraction of 255 that a byte stands for. -/
def ofByte (b : UInt8) : R := ofNat b.toNat / 255.0

/-- The shortest text that is read back as the number, never with an exponent. -/
def text (x : R) : Text := (shortest .up x).plain

def placesText (places : Nat) (x : R) : Text := (toPlaces places x).plain

/-- At most three decimal places, without trailing zeros. -/
def amount (x : R) : Text := Decimal.compact (placesText 3 x)

/-- The finite number that a text writes, without anything around it. -/
def read? (t : Text) : Option R :=
  (Numeral.read? t).bind fun n =>
    let x : R := ofNumeral n
    if isFinite x then some x else none

/-- The number before a percent sign, of which `scale` is the whole, or a plain number. -/
def readPart? (scale : R → R) (t : Text) : Option R :=
  match t.beforeLast? '%' with
  | some percent => (read? percent.trim).map scale
  | none => read? t

end Number

end ThemeTokens
