import ThemeTokens.Decimal.Numeral

/-!
# Decimals of a binary fraction

`mantissa * 2 ^ exponent` in exact arithmetic: its nearest decimal with a given number of places,
and the shortest decimal of the interval that rounds to it.
-/
namespace ThemeTokens

/-- How a value halfway between two candidates is decided. -/
inductive Tie
  | up
  | even
  deriving DecidableEq, Repr

/-- A value with a decimal form, or one of the values that have none. -/
inductive Decimal
  | notANumber
  | infinite (negative : Bool)
  | finite (numeral : Numeral)
  deriving DecidableEq, Repr

namespace Decimal

/-- The natural number nearest to `numerator / denominator`. -/
def roundDiv (tie : Tie) (numerator denominator : Nat) : Nat :=
  let quotient := numerator / denominator
  let twice := 2 * (numerator % denominator)
  if twice < denominator then quotient
  else if denominator < twice then quotient + 1
  else match tie with
    | .up => quotient + 1
    | .even => quotient + quotient % 2

/-- `mantissa * 2 ^ exponent` as a quotient of natural numbers. -/
def fraction (mantissa : Nat) (exponent : Int) : Nat × Nat :=
  (mantissa * Nat.pow 2 exponent.toNat, Nat.pow 2 (-exponent).toNat)

/-- `mantissa * 2 ^ exponent` to so many decimal places; a tie goes to the even digit. -/
def toPlaces (places mantissa : Nat) (exponent : Int) : Nat :=
  let (numerator, denominator) := fraction mantissa exponent
  roundDiv .even (numerator * Nat.pow 10 places) denominator

/-- The values that round to a given one: all between the bounds, which count as `closed` says.
Bounds and value are integers over the denominator `scale`. -/
structure Interval where
  lower : Nat
  value : Nat
  upper : Nat
  scale : Nat
  closed : Bool
  deriving DecidableEq, Repr

namespace Interval

/-- The interval of a binary fraction with neighbours one unit of its mantissa away, or half a unit
below when `atBinade` holds. Its ends belong to it when the mantissa is even. -/
def around (mantissa : Nat) (exponent : Int) (atBinade : Bool) : Interval :=
  let (factor, scale) := fraction 1 (exponent - 2)
  { lower := (4 * mantissa - if atBinade then 1 else 2) * factor
    value := 4 * mantissa * factor
    upper := (4 * mantissa + 2) * factor
    scale
    closed := mantissa % 2 == 0 }

/-- Whether `digits * numerator / denominator` lies in the interval. -/
def holds (i : Interval) (digits numerator denominator : Nat) : Bool :=
  let point := digits * numerator * i.scale
  let lower := i.lower * denominator
  let upper := i.upper * denominator
  if i.closed then lower ≤ point && point ≤ upper else lower < point && point < upper

/-- The multiple of `10 ^ power` that lies in the interval and is nearest to the value. -/
def onGrid? (tie : Tie) (i : Interval) (power : Int) : Option Nat :=
  let numerator := Nat.pow 10 power.toNat
  let denominator := Nat.pow 10 (-power).toNat
  let nearest := roundDiv tie (i.value * denominator) (numerator * i.scale)
  let below := i.value * denominator / (numerator * i.scale)
  if i.holds nearest numerator denominator then some nearest
  else if i.holds below numerator denominator then some below
  else if i.holds (below + 1) numerator denominator then some (below + 1)
  else none

end Interval

/-- More powers of ten than a double has significant digits, with room for the first estimate. -/
def gridSteps : Nat := 24

/-- The digits and power of ten of the shortest decimal in the interval of
`mantissa * 2 ^ exponent`: the coarsest grid with a point in it, and there the nearest point. -/
def shortest (tie : Tie) (mantissa : Nat) (exponent : Int) (atBinade : Bool) : Nat × Int :=
  let interval := Interval.around mantissa exponent atBinade
  let top : Int := (mantissa.log2 + exponent) * 30103 / 100000 + 2
  let found := (List.range gridSteps).findSome? fun step =>
    let power : Int := top - (step : Nat)
    (interval.onGrid? tie power).map fun digits => (digits, power)
  found.getD (mantissa, 0)

end Decimal

end ThemeTokens
