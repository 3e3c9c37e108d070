import ThemeTokens.Color.Blend
import ThemeTokens.Schema

/-!
# Paints

How a key of a target gets its colour from a schema: a slot as it is, a constant, or a state that no
slot stores.
-/
namespace ThemeTokens

inductive Paint (R : Type)
  | slot (slot : ColorSlot)
  | fixed (color : Color R)
  | alternate (slot : ColorSlot)
  | hover (slot : ColorSlot)
  | shift (slot : ColorSlot) (delta : R)
  /-- The foreground in a window without focus. -/
  | inactive (foreground background : ColorSlot)
  /-- The foreground at the opacity of disabled controls. -/
  | disabled (foreground background : ColorSlot)
  /-- The foreground, adjusted until it can be read on the background. -/
  | legible (foreground background : ColorSlot)
  | translucent (slot : ColorSlot) (alpha : R)
  | overlay (slot : ColorSlot) (alpha : ScalarSlot)
  deriving DecidableEq, Repr

/-- A key of a target with the paint of its colour. -/
abbrev PaintRow (R : Type) := Text × Paint R

variable {R : Type} [Number R]

def Schema.paint (s : Schema R) : Paint R → Color R
  | .slot slot => s.color slot
  | .fixed color => color
  | .alternate slot => (s.color slot).alternate
  | .hover slot => (s.color slot).hover
  | .shift slot delta => (s.color slot).shiftLightness delta
  | .inactive foreground background => (s.color foreground).inactive (s.color background)
  | .disabled foreground background =>
    (s.color foreground).disabled (s.color background) (s.scalar .disabledOpacity)
  | .legible foreground background =>
    Contrast.ensure (s.color foreground) (s.color background) s.policy.minRatio
  | .translucent slot alpha => (s.color slot).withAlpha alpha
  | .overlay slot alpha => (s.color slot).withAlpha (s.scalar alpha)

end ThemeTokens
