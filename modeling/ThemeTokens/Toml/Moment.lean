import ThemeTokens.Decimal.Numeral
import ThemeTokens.Text.Parser

/-!
# Dates and times

A date of the calendar, a time of day, or a date and time with an offset or without.
-/
namespace ThemeTokens.Toml.Moment
open ThemeTokens.Parser

/-- A number of so many digits that lies in a range. -/
def field (places low high : Nat) : Parser Nat := do
  let n := Numeral.ofDigits (← count places Char.isDigit)
  guard (low ≤ n ∧ n ≤ high)
  return n

def isLeap (year : Nat) : Bool := year % 4 == 0 && (year % 100 != 0 || year % 400 == 0)

def daysIn (year month : Nat) : Nat :=
  if month = 2 then if isLeap year then 29 else 28
  else if month ∈ [4, 6, 9, 11] then 30
  else 31

def date : Parser Unit := do
  let year ← field 4 0 9999
  char '-'
  let month ← field 2 1 12
  char '-'
  discard (field 2 1 (daysIn year month))

def hourAndMinute : Parser Unit := do
  discard (field 2 0 23)
  char ':'
  discard (field 2 0 59)

/-- A minute may have a leap second. -/
def time : Parser Unit := do
  hourAndMinute
  char ':'
  discard (field 2 0 60)
  discard (optional do
    char '.'
    discard (satisfy Char.isDigit)
    discard (span Char.isDigit))

def offset : Parser Unit :=
  discard (satisfy fun c => c == 'Z' || c == 'z') <|> do
    discard (satisfy fun c => c == '+' || c == '-')
    hourAndMinute

def isDelimiter (c : Char) : Bool := c == 'T' || c == 't' || c == ' '

def timeAfterDate : Parser Unit := do
  discard (satisfy isDelimiter)
  time
  discard (optional offset)

def moment : Parser Unit := (do date; discard (optional timeAfterDate)) <|> time

end ThemeTokens.Toml.Moment
