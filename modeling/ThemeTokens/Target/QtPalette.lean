import ThemeTokens.Target.Output
import ThemeTokens.Target.Paint

/-!
# Qt palettes

qt5ct and qt6ct read one line of colours for each state of a window, with one colour for each role
in a fixed order.
-/
namespace ThemeTokens.QtPalette

inductive State
  | active
  | disabled
  | inactive
  deriving DecidableEq, Repr

namespace State

def all : List State := [active, disabled, inactive]

def key : State → Text
  | active => "active_colors"
  | disabled => "disabled_colors"
  | inactive => "inactive_colors"

variable {R : Type}

/-- How a text looks on its background in this state. -/
def textPaint (state : State) (foreground background : ColorSlot) : Paint R :=
  match state with
  | active => .slot foreground
  | disabled => .disabled foreground background
  | inactive => .inactive foreground background

def highlight : State → Paint R
  | disabled => .disabled .accentsPrimary .surfacesPrimary
  | active | inactive => .slot .accentsPrimary

variable [Number R]

/-- The roles in the order of a line. Bevels are shades of the button. -/
def rows (state : State) : List (PaintRow R) := [
  ("WindowText", state.textPaint .contentPrimary .surfacesPrimary),
  ("Button", .slot .surfacesTertiary),
  ("Light", .shift .surfacesTertiary 0.15),
  ("Midlight", .shift .surfacesTertiary 0.07),
  ("Dark", .shift .surfacesTertiary (-0.20)),
  ("Mid", .shift .surfacesTertiary (-0.10)),
  ("Text", state.textPaint .contentPrimary .surfacesSecondary),
  ("BrightText", .fixed Color.white),
  ("ButtonText", state.textPaint .contentPrimary .surfacesTertiary),
  ("Base", .slot .surfacesSecondary),
  ("Window", .slot .surfacesPrimary),
  ("Shadow", .shift .surfacesTertiary (-0.35)),
  ("Highlight", state.highlight),
  ("HighlightedText", state.textPaint .contentInverse .accentsPrimary),
  ("Link", state.textPaint .contentLink .surfacesSecondary),
  ("LinkVisited", state.textPaint .contentLinkVisited .surfacesSecondary),
  ("AlternateBase", .alternate .surfacesSecondary),
  ("NoRole", .slot .surfacesPrimary),
  ("ToolTipBase", .slot .surfacesInverse),
  ("ToolTipText", state.textPaint .contentInverse .surfacesInverse),
  ("PlaceholderText", state.textPaint .contentTertiary .surfacesSecondary)]

def line (s : Schema R) (state : State) : Text :=
  Text.join ", " (state.rows.map fun row => (s.paint row.2).argbText)

end State

variable {R : Type} [Number R]

/-- The names of the roles. -/
def roles (R : Type) [Number R] : List Text :=
  (State.active.rows : List (PaintRow R)).map Prod.fst

def scheme (s : Schema R) : Ini.Section :=
  ⟨"ColorScheme", State.all.map fun state => (state.key, state.line s)⟩

def qt5Path (scheme : Text) : Text := "qt5ct/colors/" ++ SchemeName.stem scheme ++ ".conf"

def qt6Path (scheme : Text) : Text := "qt6ct/colors/" ++ SchemeName.stem scheme ++ ".conf"

/-- Both programs read the same text. -/
def output (name : Text) (s : Schema R) : Output :=
  let text := Ini.text [scheme s]
  Output.ofLists [(qt5Path name, text), (qt6Path name, text)]
    [("custom_palette", "true"), ("color_scheme_path", qt5Path name),
      ("qt6ct_color_scheme_path", qt6Path name)]

end ThemeTokens.QtPalette
