import ThemeTokens.Color.Basic
import ThemeTokens.Token.Table

/-!
# Token sets and drafts

A token set has a value in every slot. A draft has what a source declares, and nothing in the other
slots. Its window background decides whether a token set is light or dark.
-/
namespace ThemeTokens

abbrev TokenSet (R : Type) := Table (Color R) R

abbrev Draft (R : Type) := Table (Option (Color R)) (Option R)

variable {R : Type}

/-- The scalar is brought into `[0, 1]`; without a number it is zero. -/
def TokenSet.setScalar [Number R] (t : TokenSet R) (s : ScalarSlot) (x : R) : TokenSet R :=
  t.putScalar s (Number.clampOr 0.0 x)

namespace Draft

def empty : Draft R := Table.ofFn (fun _ => none) (fun _ => none)

def setColor (d : Draft R) (s : ColorSlot) (c : Color R) : Draft R := d.putColor s (some c)

def setScalar (d : Draft R) (s : ScalarSlot) (x : R) : Draft R := d.putScalar s (some x)

/-- The number of slots with a value. -/
def size (d : Draft R) : Nat :=
  ColorSlot.all.countP (fun s => (d.color s).isSome) +
    ScalarSlot.all.countP (fun s => (d.scalar s).isSome)

def isEmpty (d : Draft R) : Bool :=
  ColorSlot.all.all (fun s => (d.color s).isNone) &&
    ScalarSlot.all.all (fun s => (d.scalar s).isNone)

end Draft

/-! ## Variants -/

inductive Variant
  | light
  | dark
  deriving DecidableEq, Repr

namespace Variant

def name : Variant → Text
  | .light => "light"
  | .dark => "dark"

def isDark : Variant → Bool
  | .light => false
  | .dark => true

/-- Dark when the luminance of the surface is below one half. -/
def ofSurface [Number R] (surface : Color R) : Variant :=
  if surface.luminance < 0.5 then .dark else .light

end Variant

end ThemeTokens
