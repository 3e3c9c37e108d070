import ThemeTokens.Target.Output
import ThemeTokens.Target.Paint

/-!
# Plasma colour schemes

A section of keys for every role of a widget area, all derived from one background and one
foreground, with links and status colours adjusted until they can be read on that background.
-/
namespace ThemeTokens.Plasma

/-- A widget area with the slots that its keys are derived from. -/
structure Area where
  name : Text
  background : ColorSlot
  foreground : ColorSlot
  deriving DecidableEq, Repr

def areas : List Area := [
  ⟨"Button", .surfacesTertiary, .contentPrimary⟩,
  ⟨"Complementary", .surfacesInverse, .contentInverse⟩,
  ⟨"Header", .surfacesTertiary, .contentPrimary⟩,
  ⟨"Selection", .accentsPrimary, .contentInverse⟩,
  ⟨"Tooltip", .surfacesInverse, .contentInverse⟩,
  ⟨"View", .surfacesSecondary, .contentPrimary⟩,
  ⟨"Window", .surfacesPrimary, .contentPrimary⟩]

variable {R : Type}

def Area.rows (area : Area) : List (PaintRow R) := [
  ("BackgroundAlternate", .alternate area.background),
  ("BackgroundNormal", .slot area.background),
  ("DecorationFocus", .slot .statesFocusRing),
  ("DecorationHover", .hover .accentsPrimary),
  ("ForegroundActive", .legible .accentsPrimary area.background),
  ("ForegroundInactive", .inactive area.foreground area.background),
  ("ForegroundLink", .legible .contentLink area.background),
  ("ForegroundNegative", .legible .accentsError area.background),
  ("ForegroundNeutral", .legible .accentsWarning area.background),
  ("ForegroundNormal", .slot area.foreground),
  ("ForegroundPositive", .legible .accentsSuccess area.background),
  ("ForegroundVisited", .legible .contentLinkVisited area.background)]

/-- The colours of title bars. -/
def titleBarRows : List (PaintRow R) := [
  ("activeBackground", .slot .surfacesTertiary),
  ("activeBlend", .slot .contentPrimary),
  ("activeForeground", .slot .contentPrimary),
  ("inactiveBackground", .slot .surfacesPrimary),
  ("inactiveBlend", .inactive .contentPrimary .surfacesPrimary),
  ("inactiveForeground", .inactive .contentPrimary .surfacesPrimary)]

variable [Number R]

def entry (s : Schema R) (row : PaintRow R) : Text × Text := (row.1, (s.paint row.2).tripletText)

def disabledEffects (s : Schema R) : Ini.Section where
  name := "ColorEffects:Disabled"
  entries := [
    entry s ("Color", .disabled .contentPrimary .surfacesPrimary),
    ("ColorAmount", "0"),
    ("ColorEffect", "0"),
    ("ContrastAmount", Number.amount (1.0 - s.scalar .disabledOpacity)),
    ("ContrastEffect", "1"),
    ("IntensityAmount", "0.1"),
    ("IntensityEffect", "2")]

def inactiveEffects (s : Schema R) : Ini.Section where
  name := "ColorEffects:Inactive"
  entries := [
    ("ChangeSelectionColor", "true"),
    entry s ("Color", .inactive .contentPrimary .surfacesPrimary),
    ("ColorAmount", "0.025"),
    ("ColorEffect", "2"),
    ("ContrastAmount", "0.1"),
    ("ContrastEffect", "2"),
    ("Enable", "false"),
    ("IntensityAmount", "0"),
    ("IntensityEffect", "0")]

def Area.section (s : Schema R) (area : Area) : Ini.Section :=
  ⟨"Colors:" ++ area.name, area.rows.map (entry s)⟩

def general (scheme : Text) : Ini.Section where
  name := "General"
  entries := [
    ("ColorScheme", SchemeName.stem scheme),
    ("Name", scheme.trim),
    ("shadeSortColumn", "true")]

def sections (scheme : Text) (s : Schema R) : List Ini.Section :=
  [disabledEffects s, inactiveEffects s] ++ areas.map (Area.section s) ++
    [general scheme, ⟨"KDE", [("contrast", "4")]⟩, ⟨"WM", titleBarRows.map (entry s)⟩]

def path (scheme : Text) : Text := "color-schemes/" ++ SchemeName.stem scheme ++ ".colors"

def output (scheme : Text) (s : Schema R) : Output :=
  Output.ofLists [(path scheme, Ini.text (sections scheme s))]
    [("ColorScheme", SchemeName.stem scheme)]

end ThemeTokens.Plasma
