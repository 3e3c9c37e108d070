import ThemeTokens.Text.Basic

/-!
# Token slots

The places of a theme that hold a value: 21 colours and 3 numbers in five categories. A slot is
known by its canonical path, the category and the name with a point between.
-/
namespace ThemeTokens

inductive Category
  | surfaces
  | content
  | accents
  | states
  | borders
  deriving DecidableEq, Repr

def Category.name : Category → Text
  | .surfaces => "surfaces"
  | .content => "content"
  | .accents => "accents"
  | .states => "states"
  | .borders => "borders"

def Category.all : List Category := [.surfaces, .content, .accents, .states, .borders]

/-- In canonical order. -/
inductive ColorSlot
  | surfacesPrimary
  | surfacesSecondary
  | surfacesTertiary
  | surfacesElevated
  | surfacesInverse
  | contentPrimary
  | contentSecondary
  | contentTertiary
  | contentInverse
  | contentLink
  | contentLinkVisited
  | accentsPrimary
  | accentsPrimaryContainer
  | accentsSecondary
  | accentsSuccess
  | accentsWarning
  | accentsError
  | statesFocusRing
  | bordersSubtle
  | bordersDefault
  | bordersStrong
  deriving DecidableEq, Repr

namespace ColorSlot

def all : List ColorSlot := [
  surfacesPrimary, surfacesSecondary, surfacesTertiary, surfacesElevated, surfacesInverse,
  contentPrimary, contentSecondary, contentTertiary, contentInverse, contentLink,
  contentLinkVisited,
  accentsPrimary, accentsPrimaryContainer, accentsSecondary, accentsSuccess, accentsWarning,
  accentsError,
  statesFocusRing,
  bordersSubtle, bordersDefault, bordersStrong]

def category : ColorSlot → Category
  | surfacesPrimary | surfacesSecondary | surfacesTertiary | surfacesElevated
  | surfacesInverse => .surfaces
  | contentPrimary | contentSecondary | contentTertiary | contentInverse | contentLink
  | contentLinkVisited => .content
  | accentsPrimary | accentsPrimaryContainer | accentsSecondary | accentsSuccess | accentsWarning
  | accentsError => .accents
  | statesFocusRing => .states
  | bordersSubtle | bordersDefault | bordersStrong => .borders

def name : ColorSlot → Text
  | surfacesPrimary | contentPrimary | accentsPrimary => "primary"
  | surfacesSecondary | contentSecondary | accentsSecondary => "secondary"
  | surfacesTertiary | contentTertiary => "tertiary"
  | surfacesElevated => "elevated"
  | surfacesInverse | contentInverse => "inverse"
  | contentLink => "link"
  | contentLinkVisited => "link_visited"
  | accentsPrimaryContainer => "primary_container"
  | accentsSuccess => "success"
  | accentsWarning => "warning"
  | accentsError => "error"
  | statesFocusRing => "focus_ring"
  | bordersSubtle => "subtle"
  | bordersDefault => "default"
  | bordersStrong => "strong"

def path (s : ColorSlot) : Text := s.category.name ++ "." ++ s.name

/-- The place in canonical order. -/
def index (s : ColorSlot) : Fin 21 := ⟨s.ctorIdx, by cases s <;> decide⟩

def ofIndex (i : Fin 21) : ColorSlot := all.get i

@[simp] theorem ofIndex_index (s : ColorSlot) : ofIndex s.index = s := by cases s <;> rfl

theorem index_injective {s t : ColorSlot} (h : s.index = t.index) : s = t := by
  rw [← ofIndex_index s, h, ofIndex_index]

theorem mem_all (s : ColorSlot) : s ∈ all := by cases s <;> decide

end ColorSlot

inductive ScalarSlot
  | hoverOverlay
  | pressedOverlay
  | disabledOpacity
  deriving DecidableEq, Repr

namespace ScalarSlot

def all : List ScalarSlot := [hoverOverlay, pressedOverlay, disabledOpacity]

def category (_ : ScalarSlot) : Category := .states

def name : ScalarSlot → Text
  | hoverOverlay => "hover_overlay"
  | pressedOverlay => "pressed_overlay"
  | disabledOpacity => "disabled_opacity"

def path (s : ScalarSlot) : Text := s.category.name ++ "." ++ s.name

def index (s : ScalarSlot) : Fin 3 := ⟨s.ctorIdx, by cases s <;> decide⟩

def ofIndex (i : Fin 3) : ScalarSlot := all.get i

@[simp] theorem ofIndex_index (s : ScalarSlot) : ofIndex s.index = s := by cases s <;> rfl

theorem index_injective {s t : ScalarSlot} (h : s.index = t.index) : s = t := by
  rw [← ofIndex_index s, h, ofIndex_index]

theorem mem_all (s : ScalarSlot) : s ∈ all := by cases s <;> decide

end ScalarSlot

inductive Slot
  | color (slot : ColorSlot)
  | scalar (slot : ScalarSlot)
  deriving DecidableEq, Repr

namespace Slot

/-- Canonical order: the colours, then the scalars. -/
def all : List Slot := ColorSlot.all.map color ++ ScalarSlot.all.map scalar

def path : Slot → Text
  | color s => s.path
  | scalar s => s.path

/-- Lower case with underscores, as canonical paths are written. -/
def canonicalCase (t : Text) : Text := t.lower.replaceChar '-' '_'

def ofCanonical? (path : Text) : Option Slot := all.find? (·.path == path)

/-- The slot at a path, in any case and with dashes for underscores. -/
def ofPath? (t : Text) : Option Slot := ofCanonical? (canonicalCase t.trim)

theorem mem_all : ∀ s : Slot, s ∈ all
  | color s => by simp [all, ColorSlot.mem_all]
  | scalar s => by simp [all, ScalarSlot.mem_all]

theorem ofCanonical?_path : ∀ s : Slot, ofCanonical? s.path = some s
  | color s => by cases s <;> rfl
  | scalar s => by cases s <;> rfl

end Slot

end ThemeTokens
