import ThemeTokens.Text.Basic

/-!
# Decimal numerals

A numeral is a sign, a natural number of digits and a power of ten. It is read from an optional
sign, digits with an optional point (`.5` and `5.` count), and an optional exponent; nothing else
may stand around it.
-/
namespace ThemeTokens

/-- The number `± digits * 10 ^ exponent`. -/
structure Numeral where
  negative : Bool
  digits : Nat
  exponent : Int
  deriving DecidableEq, Repr

namespace Numeral

/-- The value of a run of decimal digits, read from the left. -/
def ofDigits (t : Text) : Nat := t.foldl (fun n c => 10 * n + (c.toNat - '0'.toNat)) 0

def leadingDigits (t : Text) : Text × Text :=
  (t.takeWhile Char.isDigit, t.dropWhile Char.isDigit)

/-- Whether a minus sign leads, and what follows the optional sign. -/
def readSign : Text → Bool × Text
  | '-' :: t => (true, t)
  | '+' :: t => (false, t)
  | t => (false, t)

/-- The exponent at the end of a numeral: zero when nothing is left. -/
def readExponent? : Text → Option Int
  | [] => some 0
  | c :: t =>
    if c = 'e' ∨ c = 'E' then
      let (negative, digits) := readSign t
      if digits ≠ [] ∧ digits.all Char.isDigit then
        some (if negative then -(ofDigits digits : Int) else ofDigits digits)
      else none
    else none

def readFraction : Text → Text × Text
  | '.' :: t => leadingDigits t
  | t => ([], t)

def read? (t : Text) : Option Numeral :=
  let (negative, t) := readSign t
  let (whole, t) := leadingDigits t
  let (fraction, t) := readFraction t
  if whole = [] ∧ fraction = [] then none
  else (readExponent? t).map fun exponent =>
    ⟨negative, ofDigits (whole ++ fraction), exponent - fraction.length⟩

end Numeral

end ThemeTokens
