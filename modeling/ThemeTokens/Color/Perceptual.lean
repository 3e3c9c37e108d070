import ThemeTokens.Color.Basic

/-!
# Perceptual colour

Oklab and its cylindrical form OKLCH, in which lightness, chroma and hue move independently. The
way back to a colour compresses chroma until sRGB holds it, at the same hue and lightness.
-/
namespace ThemeTokens

structure Oklab (R : Type) where
  lightness : R
  a : R
  b : R
  alpha : R
  deriving DecidableEq, Repr

/-- The hue is an angle in degrees. -/
structure Oklch (R : Type) where
  lightness : R
  chroma : R
  hue : R
  alpha : R
  deriving DecidableEq, Repr

variable {R : Type} [Number R]

/-- The angle in `[0, 360)` of a hue. -/
def normalizeHue (hue : R) : R :=
  let turned := Number.rem hue 360.0
  if turned < 0.0 then turned + 360.0 else turned

namespace LinearRgb

def toOklab (rgb : LinearRgb R) (alpha : R) : Oklab R :=
  let l := Number.cbrt
    (Number.dot 0.0514459929 rgb.blue 0.4122214708 rgb.red 0.5363325363 rgb.green)
  let m := Number.cbrt
    (Number.dot 0.1073969566 rgb.blue 0.2119034982 rgb.red 0.6806995451 rgb.green)
  let s := Number.cbrt
    (Number.dot 0.6299787005 rgb.blue 0.0883024619 rgb.red 0.2817188376 rgb.green)
  { lightness := Number.dot 0.0040720468 (-s) 0.2104542553 l 0.7936177850 m
    a := Number.dot 0.4505937099 s 1.9779984951 l 2.4285922050 (-m)
    b := Number.dot 0.8086757660 (-s) 0.0259040371 l 0.7827717662 m
    alpha }

/-- How far a channel may leave `[0, 1]` and still count as inside. -/
def gamutSlack : R := 1e-7

def inGamut (rgb : LinearRgb R) : Bool :=
  let inside (x : R) : Bool := decide (-gamutSlack ≤ x) && decide (x ≤ 1.0 + gamutSlack)
  inside rgb.red && inside rgb.green && inside rgb.blue

end LinearRgb

namespace Oklab

/-- Below this chroma the hue means nothing and is zero. -/
def achromatic : R := 1e-8

def toLinear (c : Oklab R) : LinearRgb R :=
  let l := Number.mulAdd 0.2158037573 c.b (Number.mulAdd 0.3963377774 c.a c.lightness)
  let m := Number.mulAdd 0.0638541728 (-c.b) (Number.mulAdd 0.1055613458 (-c.a) c.lightness)
  let s := Number.mulAdd 1.2914855480 (-c.b) (Number.mulAdd 0.0894841775 (-c.a) c.lightness)
  let l := l * l * l
  let m := m * m * m
  let s := s * s * s
  { red := Number.dot 0.2309699292 s 4.0767416621 l 3.3077115913 (-m)
    green := Number.dot 0.3413193965 (-s) (-1.2684380046) l 2.6097574011 m
    blue := Number.dot 1.7076147010 s (-0.0041960863) l 0.7034186147 (-m) }

def toOklch (c : Oklab R) : Oklch R :=
  let chroma := Number.hypot c.a c.b
  { lightness := c.lightness
    chroma
    hue :=
      if chroma < achromatic then 0.0
      else normalizeHue (Number.atan2 c.b c.a * (180.0 / Number.pi))
    alpha := c.alpha }

end Oklab

namespace Oklch

def solid (lightness chroma hue : R) : Oklch R := ⟨lightness, chroma, hue, 1.0⟩

/-- The lightness is brought into `[0, 1]`; without a number it stays. -/
def withLightness (c : Oklch R) (lightness : R) : Oklch R :=
  { c with lightness := Number.clampOr c.lightness lightness }

def shiftLightness (c : Oklch R) (delta : R) : Oklch R := c.withLightness (c.lightness + delta)

def withChroma (c : Oklch R) (chroma : R) : Oklch R := { c with chroma := Number.nonneg chroma }

def rotateHue (c : Oklch R) (degrees : R) : Oklch R :=
  { c with hue := normalizeHue (c.hue + degrees) }

def toOklab (c : Oklch R) : Oklab R :=
  let angle := c.hue * (Number.pi / 180.0)
  { lightness := c.lightness
    a := c.chroma * Number.cos angle
    b := c.chroma * Number.sin angle
    alpha := c.alpha }

def inGamut (c : Oklch R) : Bool := c.toOklab.toLinear.inGamut

/-- Halving steps of the search for the largest chroma that fits. -/
def chromaSteps : Nat := 24

/-- The largest of the tested values that `fits` accepts, between one that fits and one that does
not. -/
def bisect (fits : R → Bool) : Nat → R → R → R
  | 0, low, _ => low
  | steps + 1, low, high =>
    let middle := (low + high) * 0.5
    if fits middle then bisect fits steps middle high else bisect fits steps low middle

/-- The nearest lightness in `[0, 1]`, and the chroma reduced until sRGB holds the colour. -/
def toGamut (c : Oklch R) : Oklch R :=
  let bounded : Oklch R :=
    { c with lightness := Number.clampOr 0.0 c.lightness, chroma := Number.nonneg c.chroma }
  if bounded.inGamut then bounded
  else
    let fits (chroma : R) : Bool := (bounded.withChroma chroma).inGamut
    { bounded with chroma := bisect fits chromaSteps 0.0 bounded.chroma }

end Oklch

namespace Color

def toOklab (c : Color R) : Oklab R := c.linear.toOklab c.alpha

def toOklch (c : Color R) : Oklch R := c.toOklab.toOklch

/-- The nearest colour that sRGB holds at the hue and lightness of `p`. -/
def ofOklch (p : Oklch R) : Color R :=
  ofLinear p.toGamut.toOklab.toLinear (Number.clampOr 1.0 p.alpha)

def lightness (c : Color R) : R := c.toOklch.lightness

end Color

end ThemeTokens
