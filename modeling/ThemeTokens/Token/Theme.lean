import ThemeTokens.Token.Set

/-!
# Themes by category

The tokens of a theme as five records, one for each category, whose fields are named as the slots
are. A theme is read and written by slot as a token set is.
-/
namespace ThemeTokens

/-- Background layers. -/
structure Surfaces (R : Type) where
  primary : Color R
  secondary : Color R
  tertiary : Color R
  elevated : Color R
  /-- Tooltips and other layers of the opposite polarity. -/
  inverse : Color R
  deriving DecidableEq, Repr

structure Content (R : Type) where
  primary : Color R
  secondary : Color R
  tertiary : Color R
  /-- Text on accents and on the inverse surface. -/
  inverse : Color R
  link : Color R
  linkVisited : Color R
  deriving DecidableEq, Repr

structure Accents (R : Type) where
  primary : Color R
  primaryContainer : Color R
  secondary : Color R
  success : Color R
  warning : Color R
  error : Color R
  deriving DecidableEq, Repr

structure States (R : Type) where
  hoverOverlay : R
  pressedOverlay : R
  focusRing : Color R
  disabledOpacity : R
  deriving DecidableEq, Repr

structure Borders (R : Type) where
  subtle : Color R
  default : Color R
  strong : Color R
  deriving DecidableEq, Repr

structure Theme (R : Type) where
  surfaces : Surfaces R
  content : Content R
  accents : Accents R
  states : States R
  borders : Borders R
  deriving DecidableEq, Repr

namespace Theme
variable {R : Type}

def color (t : Theme R) : ColorSlot → Color R
  | .surfacesPrimary => t.surfaces.primary
  | .surfacesSecondary => t.surfaces.secondary
  | .surfacesTertiary => t.surfaces.tertiary
  | .surfacesElevated => t.surfaces.elevated
  | .surfacesInverse => t.surfaces.inverse
  | .contentPrimary => t.content.primary
  | .contentSecondary => t.content.secondary
  | .contentTertiary => t.content.tertiary
  | .contentInverse => t.content.inverse
  | .contentLink => t.content.link
  | .contentLinkVisited => t.content.linkVisited
  | .accentsPrimary => t.accents.primary
  | .accentsPrimaryContainer => t.accents.primaryContainer
  | .accentsSecondary => t.accents.secondary
  | .accentsSuccess => t.accents.success
  | .accentsWarning => t.accents.warning
  | .accentsError => t.accents.error
  | .statesFocusRing => t.states.focusRing
  | .bordersSubtle => t.borders.subtle
  | .bordersDefault => t.borders.default
  | .bordersStrong => t.borders.strong

def setColor (t : Theme R) (slot : ColorSlot) (c : Color R) : Theme R :=
  match slot with
  | .surfacesPrimary => { t with surfaces.primary := c }
  | .surfacesSecondary => { t with surfaces.secondary := c }
  | .surfacesTertiary => { t with surfaces.tertiary := c }
  | .surfacesElevated => { t with surfaces.elevated := c }
  | .surfacesInverse => { t with surfaces.inverse := c }
  | .contentPrimary => { t with content.primary := c }
  | .contentSecondary => { t with content.secondary := c }
  | .contentTertiary => { t with content.tertiary := c }
  | .contentInverse => { t with content.inverse := c }
  | .contentLink => { t with content.link := c }
  | .contentLinkVisited => { t with content.linkVisited := c }
  | .accentsPrimary => { t with accents.primary := c }
  | .accentsPrimaryContainer => { t with accents.primaryContainer := c }
  | .accentsSecondary => { t with accents.secondary := c }
  | .accentsSuccess => { t with accents.success := c }
  | .accentsWarning => { t with accents.warning := c }
  | .accentsError => { t with accents.error := c }
  | .statesFocusRing => { t with states.focusRing := c }
  | .bordersSubtle => { t with borders.subtle := c }
  | .bordersDefault => { t with borders.default := c }
  | .bordersStrong => { t with borders.strong := c }

def scalar (t : Theme R) : ScalarSlot → R
  | .hoverOverlay => t.states.hoverOverlay
  | .pressedOverlay => t.states.pressedOverlay
  | .disabledOpacity => t.states.disabledOpacity

/-- The scalar is brought into `[0, 1]`; without a number it is zero. -/
def setScalar [Number R] (t : Theme R) (slot : ScalarSlot) (x : R) : Theme R :=
  let x := Number.clampOr 0.0 x
  match slot with
  | .hoverOverlay => { t with states.hoverOverlay := x }
  | .pressedOverlay => { t with states.pressedOverlay := x }
  | .disabledOpacity => { t with states.disabledOpacity := x }

/-! A write changes the field of its slot and no other. -/

theorem color_setColor (t : Theme R) (slot other : ColorSlot) (c : Color R) :
    (t.setColor slot c).color other = if other = slot then c else t.color other := by
  cases slot <;> cases other <;> rfl

@[simp] theorem scalar_setColor (t : Theme R) (slot : ColorSlot) (other : ScalarSlot)
    (c : Color R) : (t.setColor slot c).scalar other = t.scalar other := by
  cases slot <;> rfl

variable [Number R]

theorem scalar_setScalar (t : Theme R) (slot other : ScalarSlot) (x : R) :
    (t.setScalar slot x).scalar other =
      if other = slot then Number.clampOr 0.0 x else t.scalar other := by
  cases slot <;> cases other <;> rfl

@[simp] theorem color_setScalar (t : Theme R) (slot : ScalarSlot) (other : ColorSlot) (x : R) :
    (t.setScalar slot x).color other = t.color other := by
  cases slot <;> rfl

end Theme

end ThemeTokens
