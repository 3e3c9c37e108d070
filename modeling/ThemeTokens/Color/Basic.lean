import ThemeTokens.Number.Basic

/-!
# Colours

A colour has three 8-bit sRGB channels and an opacity. Every target file can write it exactly;
its linear-light form is computed when an operation needs it.
-/
namespace ThemeTokens

structure Color (R : Type) where
  red : UInt8
  green : UInt8
  blue : UInt8
  alpha : R
  deriving DecidableEq, Repr

/-- Linear-light sRGB, which may leave `[0, 1]` outside the gamut. -/
structure LinearRgb (R : Type) where
  red : R
  green : R
  blue : R
  deriving DecidableEq, Repr

namespace Transfer
variable {R : Type} [Number R]

/-- The light of an encoded sRGB channel. -/
def toLinear (x : R) : R :=
  if x ≤ 0.04045 then x / 12.92 else Number.pow ((x + 0.055) / 1.055) 2.4

/-- The encoded channel of an amount of light, which is first brought into `[0, 1]`. -/
def ofLinear (x : R) : R :=
  let x := Number.clampOr 0.0 x
  if x ≤ 0.0031308 then x * 12.92 else Number.mulAdd 1.055 (Number.pow x (1.0 / 2.4)) (-0.055)

end Transfer

namespace Color
variable {R : Type} [Number R]

def solid (red green blue : UInt8) : Color R := ⟨red, green, blue, 1.0⟩

def black : Color R := solid 0 0 0

instance : Inhabited (Color R) := ⟨black⟩

def white : Color R := solid 255 255 255

def transparent : Color R := ⟨0, 0, 0, 0.0⟩

/-- The alpha is brought into `[0, 1]`; without a number the colour is opaque. -/
def ofChannels (red green blue : UInt8) (alpha : R) : Color R :=
  ⟨red, green, blue, Number.clampOr 1.0 alpha⟩

/-- The alpha is brought into `[0, 1]`; without a number it stays. -/
def withAlpha (c : Color R) (alpha : R) : Color R :=
  { c with alpha := Number.clampOr c.alpha alpha }

def isOpaque (c : Color R) : Bool := decide (1.0 ≤ c.alpha)

def isTransparent (c : Color R) : Bool := decide (c.alpha ≤ 0.0)

def linear (c : Color R) : LinearRgb R where
  red := Transfer.toLinear (Number.ofByte c.red)
  green := Transfer.toLinear (Number.ofByte c.green)
  blue := Transfer.toLinear (Number.ofByte c.blue)

/-- The nearest channels, and an alpha that is taken as it is. -/
def ofLinear (l : LinearRgb R) (alpha : R) : Color R where
  red := Number.toByte (Transfer.ofLinear l.red)
  green := Number.toByte (Transfer.ofLinear l.green)
  blue := Number.toByte (Transfer.ofLinear l.blue)
  alpha

/-- The relative luminance of WCAG 2.1, which ignores the alpha. -/
def luminance (c : Color R) : R :=
  let l := c.linear
  Number.dot 0.2126 l.red 0.7152 l.green 0.0722 l.blue

end Color

end ThemeTokens
