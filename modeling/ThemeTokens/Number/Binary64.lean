import ThemeTokens.Number.Basic

/-!
# Doubles

The numbers that programs compute with. Rounding, remainders, products that are added to something
and number texts are exact: they work on the sign, mantissa and exponent of a double.
-/
namespace ThemeTokens.Binary64
open Float.Model Float.Model.UnpackedFloat

/-- The double `± count * 2 ^ unit`. A count of `2 ^ 53` carries into the next unit. -/
def ofUnits (sign : Sign) (count : Nat) (unit : Int) : Float :=
  if h : count = 0 then Float.ofModel (pack (.zero sign))
  else if count = 9007199254740992 then
    Float.ofModel (pack (.finite sign 4503599627370496 (unit + 1) (by decide)))
  else Float.ofModel (pack (.finite sign count unit (Nat.pos_of_ne_zero h)))

/-- The exponent of the last place of the doubles around `mantissa * 2 ^ exponent`. -/
def unitExponent (mantissa : Nat) (exponent : Int) : Int :=
  max (mantissa.log2 + exponent - 52) (-1074)

/-- The double nearest to `± mantissa * 2 ^ exponent`, a tie going to the even count of units. -/
def ofBinary (sign : Sign) (mantissa : Nat) (exponent : Int) : Float :=
  let unit := unitExponent mantissa exponent
  let (numerator, denominator) := Decimal.fraction mantissa (exponent - unit)
  ofUnits sign (Decimal.roundDiv .even numerator denominator) unit

def infinity : Float := Float.ofModel (pack (.infinity .positive))

def notANumber : Float := Float.ofModel (pack .notANumber)

def round (x : Float) : Nat :=
  match x.toModel.unpack with
  | .finite .positive mantissa exponent _ =>
    let (numerator, denominator) := Decimal.fraction mantissa exponent
    Decimal.roundDiv .up numerator denominator
  | _ => 0

/-- The product with all its digits, of which a double could hold only the first. -/
def exactProduct : UnpackedFloat → UnpackedFloat → UnpackedFloat
  | .finite s m e hm, .finite t n f hn => .finite (s * t) (m * n) (e + f) (Nat.mul_pos hm hn)
  | x, y => UnpackedFloat.mul .binary64 x y

/-- `x * y + z`, of which only the sum is rounded. -/
def mulAdd (x y z : Float) : Float :=
  match exactProduct x.toModel.unpack y.toModel.unpack, z.toModel.unpack with
  | .finite .., .zero _ => x * y
  | .finite s m e _, .finite t n f _ =>
    let common := min e f
    let sum := s.apply (decreaseExponent m e common).1 + t.apply (decreaseExponent n f common).1
    if sum = 0 then 0.0
    else ofBinary (if sum < 0 then .negative else .positive) sum.natAbs common
  | product, addend => Float.ofModel (pack (UnpackedFloat.add .binary64 product addend))

def rem (x y : Float) : Float :=
  match x.toModel.unpack, y.toModel.unpack with
  | .finite sign m e _, .finite _ n f _ =>
    let common := min e f
    let dividend := m <<< (e - common).toNat
    let divisor := n * Nat.pow 2 (f - common).toNat
    ofBinary sign (dividend % divisor) common
  | .finite .., .infinity _ | .zero _, .finite .. | .zero _, .infinity _ => x
  | _, _ => notANumber

/-- The length of a side opposite the right angle, for `0 ≤ short ≤ long`. The root of the rounded
squares is corrected by what rounding took from them. -/
def hypotenuse (long short : Float) : Float :=
  let root := Float.sqrt (long * long + short * short)
  let excess :=
    if root ≤ 2.0 * short then
      let rest := root - short
      long * (2.0 * rest - long) + (rest - 2.0 * (long - short)) * rest
    else
      let rest := root - long
      2.0 * rest * (long - 2.0 * short) + ((4.0 * rest - short) * short + rest * rest)
  root - excess / (2.0 * root)

/-- The square root of `x * x + y * y`, scaled by a power of two where a square would leave the
range of doubles. A side below half a unit of the other's last place does not count. -/
def hypot (x y : Float) : Float :=
  let a := x.abs
  let b := y.abs
  let long := if a < b then b else a
  let short := if a < b then a else b
  if a.isInf || b.isInf then infinity
  else if short ≤ long * ofBinary .positive 1 (-54) then long + short
  else if ofBinary .positive 1 511 < long then
    let down := ofBinary .positive 1 (-600)
    hypotenuse (long * down) (short * down) / down
  else if short < ofBinary .positive 1 (-459) then
    let up := ofBinary .positive 1 600
    hypotenuse (long * up) (short * up) / up
  else hypotenuse long short

/-- Numerals beyond the range of doubles are decided by their magnitude alone. -/
def ofNumeral (n : Numeral) : Float :=
  let top := n.exponent + (Text.decimal n.digits).length
  let magnitude : Float :=
    if n.digits = 0 ∨ top < -400 then 0.0
    else if 400 < top then infinity
    else OfScientific.ofScientific n.digits (n.exponent < 0) n.exponent.natAbs
  if n.negative then -magnitude else magnitude

def isNegative : Sign → Bool
  | .positive => false
  | .negative => true

/-- Each finite double in decimal, as `digits` gives it for a mantissa and an exponent. -/
def toDecimal (digits : Nat → Int → Nat × Int) (x : Float) : Decimal :=
  match x.toModel.unpack with
  | .notANumber => .notANumber
  | .infinity sign => .infinite (isNegative sign)
  | .zero sign => let (d, e) := digits 0 0; .finite ⟨isNegative sign, d, e⟩
  | .finite sign mantissa exponent _ =>
    let (d, e) := digits mantissa exponent
    .finite ⟨isNegative sign, d, e⟩

/-- The gap below the least mantissa of a binade is half the gap above it. -/
def shortest (tie : Tie) : Float → Decimal :=
  toDecimal fun mantissa exponent =>
    if mantissa = 0 then (0, 0)
    else
      let atBinade := mantissa == Nat.pow 2 52 && decide (-1074 < exponent)
      Decimal.shortest tie mantissa exponent atBinade

def toPlaces (places : Nat) : Float → Decimal :=
  toDecimal fun mantissa exponent =>
    (Decimal.toPlaces places mantissa exponent, -(places : Int))

/-- The functions whose values a platform only approximates. -/
structure Elementary where
  pow : Float → Float → Float
  cbrt : Float → Float
  hypot : Float → Float → Float
  atan2 : Float → Float → Float
  sin : Float → Float
  cos : Float → Float

def Elementary.platform : Elementary where
  pow := Float.pow
  cbrt := Float.cbrt
  hypot := Binary64.hypot
  atan2 := Float.atan2
  sin := Float.sin
  cos := Float.cos

/-- Arithmetic of doubles, which is exact up to rounding, with elementary functions beside it. -/
@[reducible] def number (elementary : Elementary) : Number Float where
  decidableLT := inferInstance
  decidableLE := inferInstance
  isNaN := Float.isNaN
  isFinite := Float.isFinite
  ofNat := Float.ofNat
  round := round
  mulAdd := mulAdd
  rem := rem
  pow := elementary.pow
  cbrt := elementary.cbrt
  hypot := elementary.hypot
  atan2 := elementary.atan2
  sin := elementary.sin
  cos := elementary.cos
  pi := 3.141592653589793
  ofNumeral := ofNumeral
  shortest := shortest
  toPlaces := toPlaces

instance : Number Float := number .platform

end ThemeTokens.Binary64

namespace ThemeTokens

/-- Doubles that are computed with the given elementary functions. -/
def Double (_ : Binary64.Elementary) : Type := Float

instance (elementary : Binary64.Elementary) : Number (Double elementary) :=
  Binary64.number elementary

instance (elementary : Binary64.Elementary) : DecidableEq (Double elementary) :=
  inferInstanceAs (DecidableEq Float)

end ThemeTokens
