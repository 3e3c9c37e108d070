import ThemeTokens.Color.Hex

/-!
# Colour literals

The colours that a stylesheet writes: hexadecimal digits after a number sign, `rgb()` and `rgba()`
with commas or with blanks and a slash, and three keywords. Case does not matter.
-/
namespace ThemeTokens

/-- The colours that have a name. -/
inductive Keyword
  | transparent
  | white
  | black
  deriving DecidableEq, Repr

namespace Keyword

def name : Keyword → Text
  | .transparent => "transparent"
  | .white => "white"
  | .black => "black"

def all : List Keyword := [.transparent, .white, .black]

def ofName? (t : Text) : Option Keyword := all.find? (·.name == t)

def color {R : Type} [Number R] : Keyword → Color R
  | .transparent => Color.transparent
  | .white => Color.white
  | .black => Color.black

end Keyword

namespace Color
variable {R : Type} [Number R]

/-- A number or a percentage of 255, in `[0, 255]`. -/
def readChannel? (R : Type) [Number R] (t : Text) : Option UInt8 :=
  (Number.readPart? (fun x : R => x / 100.0 * 255.0) t).bind fun x =>
    if 0.0 ≤ x ∧ x ≤ 255.0 then some (UInt8.ofNat (Number.round x)) else none

/-- A number or a percentage, in `[0, 1]`. -/
def readAlpha? (t : Text) : Option R :=
  (Number.readPart? (fun x : R => x / 100.0) t).bind fun x =>
    if 0.0 ≤ x ∧ x ≤ 1.0 then some x else none

/-- The channel texts and the alpha text between the parentheses. -/
def arguments (body : Text) : List Text × Option Text :=
  if ',' ∈ body then
    match (body.split ',').map Text.trim with
    | [r, g, b, a] => ([r, g, b], some a)
    | channels => (channels, none)
  else
    match body.cutFirst? '/' with
    | some (channels, alpha) => (channels.words, some alpha.trim)
    | none => (body.words, none)

def readArguments? (body : Text) : Option (Color R) :=
  match arguments body with
  | ([r, g, b], alpha) => do
    let red ← readChannel? R r
    let green ← readChannel? R g
    let blue ← readChannel? R b
    let alpha ← match alpha with
      | some a => readAlpha? a
      | none => some 1.0
    return ofChannels red green blue alpha
  | _ => none

/-- What follows `rgba(` or `rgb(`. -/
def functionBody? (t : Text) : Option Text :=
  (t.after? "rgba(").orElse fun _ => t.after? "rgb("

/-- Reads a literal that is in lower case and has no blanks around it. -/
def readLower? (t : Text) : Option (Color R) :=
  match Keyword.ofName? t with
  | some keyword => some keyword.color
  | none =>
    if t.head? = some '#' then readHex? t
    else ((functionBody? t).bind (Text.beforeLast? ')')).bind readArguments?

def ofLiteral (t : Text) : Except MalformedColor (Color R) :=
  match readLower? t.trim.lower with
  | some c => .ok c
  | none => .error ⟨t⟩

/-- Whether a text was meant as a colour literal, however malformed. -/
def looksLikeLiteral (t : Text) : Bool :=
  let t := t.trim.lower
  t.head? = some '#' || (functionBody? t).isSome || (Keyword.ofName? t).isSome

/-- `rgb(r, g, b)` for an opaque colour; else `rgba` with at most three decimal places of alpha. -/
def literalText (c : Color R) : Text :=
  let channels := Text.join ", " ([c.red, c.green, c.blue].map fun b => Text.decimal b.toNat)
  if c.isOpaque then "rgb(" ++ channels ++ ")"
  else "rgba(" ++ channels ++ ", " ++ Number.amount c.alpha ++ ")"

end Color

end ThemeTokens
