import ThemeTokens.Color.Basic
import ThemeTokens.Text.Basic

/-!
# Hexadecimal colours

`#RGB`, `#RGBA`, `#RRGGBB` and `#RRGGBBAA` with or without the number sign, and the texts that write
a colour with hexadecimal digits or as a triplet.
-/
namespace ThemeTokens

/-- A text that was meant as a colour and cannot be read as one. -/
structure MalformedColor where
  literal : Text
  deriving DecidableEq, Repr

def MalformedColor.message (e : MalformedColor) : Text :=
  "malformed color literal `" ++ e.literal ++ "`"

namespace Color
variable {R : Type} [Number R]

def hexByte (high low : Nat) : UInt8 := UInt8.ofNat (16 * high + low)

/-- A short form doubles each of its digits. -/
def ofHexDigits? : List Nat → Option (Color R)
  | [r, g, b] => some (solid (hexByte r r) (hexByte g g) (hexByte b b))
  | [r, g, b, a] =>
    some (ofChannels (hexByte r r) (hexByte g g) (hexByte b b) (Number.ofByte (hexByte a a)))
  | [r, r', g, g', b, b'] => some (solid (hexByte r r') (hexByte g g') (hexByte b b'))
  | [r, r', g, g', b, b', a, a'] =>
    some (ofChannels (hexByte r r') (hexByte g g') (hexByte b b') (Number.ofByte (hexByte a a')))
  | _ => none

/-- The text without a leading number sign. -/
def hexBody : Text → Text
  | '#' :: t => t
  | t => t

def readHex? (t : Text) : Option (Color R) :=
  ((hexBody t).mapM Text.hexDigit?).bind ofHexDigits?

/-- Blanks around the digits are ignored. -/
def ofHex (t : Text) : Except MalformedColor (Color R) :=
  match readHex? t.trim with
  | some c => .ok c
  | none => .error ⟨t⟩

def hexPair (digit : Nat → Char) (b : UInt8) : Text := [digit (b.toNat / 16), digit (b.toNat % 16)]

def upperDigit (n : Nat) : Char := (Nat.digitChar n).toUpper

/-- `#RRGGBB` for an opaque colour and `#RRGGBBAA` for any other. -/
def hexText (c : Color R) : Text :=
  let pair := hexPair upperDigit
  let channels := "#" ++ pair c.red ++ pair c.green ++ pair c.blue
  if c.isOpaque then channels else channels ++ pair (Number.toByte c.alpha)

/-- `#aarrggbb`, with the alpha first. -/
def argbText (c : Color R) : Text :=
  let pair := hexPair Nat.digitChar
  "#" ++ pair (Number.toByte c.alpha) ++ pair c.red ++ pair c.green ++ pair c.blue

/-- The decimal channels between commas, without the alpha. -/
def tripletText (c : Color R) : Text :=
  Text.decimal c.red.toNat ++ "," ++ Text.decimal c.green.toNat ++ "," ++ Text.decimal c.blue.toNat

end Color

end ThemeTokens
