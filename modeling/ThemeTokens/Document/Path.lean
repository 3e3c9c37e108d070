import ThemeTokens.Token.Slot

/-!
# Paths

The path of a token in a document stands for a slot when it is the canonical path, when it ends in
another word for the category and the name, or when it is a single word that says enough. A group
`color` or `colors` at the front says nothing.
-/
namespace ThemeTokens

/-- Words for a category, its own name among them. -/
def Category.words : Category → List Text
  | .surfaces => ["surfaces", "surface", "background", "bg"]
  | .content => ["content", "text", "foreground", "fg"]
  | .accents => ["accents", "accent", "brand"]
  | .states => ["states", "state"]
  | .borders => ["borders", "border", "outline"]

def Category.ofWord? (t : Text) : Option Category :=
  all.find? fun category => category.words.contains t

namespace Document

/-- How a path stands for a slot, the strongest way first. -/
inductive Rank
  | canonical
  | synonym
  | convenience
  deriving DecidableEq, Repr

def Rank.all : List Rank := [.canonical, .synonym, .convenience]

/-- Single words, each with its slot. -/
def conveniences : List (Text × Slot) := [
  ("primary", .color .accentsPrimary),
  ("accent", .color .accentsPrimary),
  ("background", .color .surfacesPrimary),
  ("surface", .color .surfacesPrimary),
  ("bg", .color .surfacesPrimary),
  ("text", .color .contentPrimary),
  ("foreground", .color .contentPrimary),
  ("fg", .color .contentPrimary),
  ("secondary", .color .accentsSecondary),
  ("success", .color .accentsSuccess),
  ("warning", .color .accentsWarning),
  ("error", .color .accentsError),
  ("danger", .color .accentsError),
  ("link", .color .contentLink),
  ("border", .color .bordersDefault),
  ("focus_ring", .color .statesFocusRing),
  ("focus", .color .statesFocusRing),
  ("hover_overlay", .scalar .hoverOverlay),
  ("pressed_overlay", .scalar .pressedOverlay),
  ("disabled_opacity", .scalar .disabledOpacity)]

def ofConvenience? (word : Text) : Option Slot :=
  (conveniences.find? (·.1 == word)).map Prod.snd

def isColorGroup (segment : Text) : Bool := segment == "color" || segment == "colors"

/-- The segments of a path in canonical case, without a colour group that others follow. -/
def segments (path : Text) : List Text :=
  match (Slot.canonicalCase path).split '.' with
  | first :: second :: rest =>
    if isColorGroup first then second :: rest else first :: second :: rest
  | whole => whole

/-- The slot that the last two segments stand for, or the only one. -/
def ofEnding? : List Text → Option (Slot × Rank)
  | [] => none
  | [word] => (ofConvenience? word).map (·, .convenience)
  | [categoryWord, name] =>
    (Category.ofWord? categoryWord).bind fun category =>
      (Slot.ofPath? (category.name ++ "." ++ name)).map (·, .synonym)
  | _ :: rest => ofEnding? rest

def slotFor? (path : Text) : Option (Slot × Rank) :=
  let segments := segments path
  match Slot.ofPath? (Text.join "." segments) with
  | some slot => some (slot, .canonical)
  | none => ofEnding? segments

end Document

end ThemeTokens
