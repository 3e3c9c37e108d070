import ThemeTokens.Color.Perceptual

/-!
# Blending

Compositing in linear light and interpolation in Oklab, and the shades of a base colour for an
interaction state. Light bases darken and dark bases lighten, so that a shade stays visible.
-/
namespace ThemeTokens.Color
variable {R : Type} [Number R]

/-- Below this opacity a composite vanishes. -/
def vanishing : R := 1e-9

/-- The source composited over the destination. -/
def layerOver (source destination : Color R) : Color R :=
  if source.isOpaque || destination.isTransparent then source
  else if source.isTransparent then destination
  else
    let s := source.linear
    let d := destination.linear
    let alpha := Number.mulAdd destination.alpha (1.0 - source.alpha) source.alpha
    if alpha < vanishing then transparent
    else
      let weigh (x y : R) : R :=
        Number.mulAdd x source.alpha (y * destination.alpha * (1.0 - source.alpha)) / alpha
      ofLinear ⟨weigh s.red d.red, weigh s.green d.green, weigh s.blue d.blue⟩
        (Number.min alpha 1.0)

/-- The colour at `t` on the way from `c` to `other`, where `t` is brought into `[0, 1]`. -/
def mix (c other : Color R) (t : R) : Color R :=
  let t := Number.clampOr 0.0 t
  let p := c.toOklab
  let q := other.toOklab
  let between (x y : R) : R := Number.mulAdd x (1.0 - t) (y * t)
  ofOklch (Oklab.toOklch
    { lightness := between p.lightness q.lightness
      a := between p.a q.a
      b := between p.b q.b
      alpha := between p.alpha q.alpha })

/-! ## Shades -/

def shiftLightness (c : Color R) (delta : R) : Color R := ofOklch (c.toOklch.shiftLightness delta)

def towardMiddle (c : Color R) (delta : R) : Color R :=
  if 0.5 < c.lightness then c.shiftLightness (-delta) else c.shiftLightness delta

def hover (c : Color R) : Color R := c.towardMiddle 0.08

def pressed (c : Color R) : Color R := c.towardMiddle 0.12

/-- The shade of every other row of a list. -/
def alternate (c : Color R) : Color R := c.towardMiddle 0.03

/-- Content in a window without focus. -/
def inactive (foreground background : Color R) : Color R :=
  (foreground.withAlpha 0.7).layerOver background

/-- Content of a control that cannot be used. -/
def disabled (foreground background : Color R) (opacity : R) : Color R :=
  (foreground.withAlpha opacity).layerOver background

end ThemeTokens.Color
