import ThemeTokens.Decimal.Numeral
import ThemeTokens.Text.Parser
import ThemeTokens.Toml.Basic

/-!
# TOML numbers

Single underscores may stand between the digits of a number. An integer fits 64 bits; one without a
sign may be written in base 16, 8 or 2. A float has a fraction, an exponent or both.
-/
namespace ThemeTokens.Toml
open ThemeTokens.Parser

/-- The digits of a number, without the underscores between them. -/
def digits (isDigit : Char → Bool) : Parser Text := do
  let first ← satisfy isDigit
  let rest ← many (do discard (optional (char '_')); satisfy isDigit)
  return first :: rest

/-- Whether a minus sign stands in front. -/
def sign : Parser Bool :=
  (do char '-'; return true) <|> (do char '+'; return false) <|> pure false

/-- Decimal digits without leading zeros. -/
def whole : Parser Text := do
  let t ← digits Char.isDigit
  guard (t.length = 1 ∨ t.head? ≠ some '0')
  return t

def signed (negative : Bool) (n : Nat) : Int := if negative then -n else n

def fits (n : Int) : Bool := Int64.minValue.toInt ≤ n && n ≤ Int64.maxValue.toInt

def decimalInteger : Parser Int := do
  let negative ← sign
  let n := signed negative (Numeral.ofDigits (← whole))
  guard (fits n)
  return n

/-- An integer after the mark of its base. -/
def basedInteger (mark : Text) (base : Nat) : Parser Int := do
  word mark
  let isDigit (c : Char) : Bool := (Text.hexDigit? c).any (· < base)
  let values := (← digits isDigit).filterMap Text.hexDigit?
  let n := values.foldl (fun n digit => base * n + digit) 0
  guard (fits n)
  return n

def anyInteger : Parser Int :=
  basedInteger "0x" 16 <|> basedInteger "0o" 8 <|> basedInteger "0b" 2 <|> decimalInteger

def exponent : Parser Int := do
  discard (satisfy fun c => c == 'e' || c == 'E')
  let negative ← sign
  return signed negative (Numeral.ofDigits (← digits Char.isDigit))

def fraction : Parser Text := do
  char '.'
  digits Char.isDigit

variable {R : Type} [Number R]

/-- A number beyond the largest finite one is an error; one below the least is not. -/
def finiteFloat : Parser R := do
  let negative ← sign
  let whole ← whole
  let fraction ← optional fraction
  let power ← optional exponent
  guard (fraction.isSome ∨ power.isSome)
  let places := fraction.getD []
  let x : R := Number.ofNumeral
    ⟨negative, Numeral.ofDigits (whole ++ places), power.getD 0 - places.length⟩
  guard (negative ∨ Number.isFinite x)
  return x

def specialFloat : Parser R := do
  let negative ← sign
  let one : R := if negative then -1.0 else 1.0
  (do word "inf"; return one / 0.0) <|> (do word "nan"; return 0.0 / 0.0)

def anyFloat : Parser R := finiteFloat <|> specialFloat

end ThemeTokens.Toml
