import ThemeTokens.Color.Literal
import ThemeTokens.Target.Output
import ThemeTokens.Target.Paint

/-!
# GTK stylesheets

A stylesheet that defines named colours. GTK 4 looks up the libadwaita names; GTK 3 looks up the
same names and the variables of older themes.
-/
namespace ThemeTokens.Stylesheet
variable {R : Type} [Number R]

def accentRows : List (PaintRow R) := [
  ("accent_color", .slot .contentLink),
  ("accent_bg_color", .slot .accentsPrimary),
  ("accent_fg_color", .slot .contentInverse)]

def statusRows : List (PaintRow R) := [
  ("destructive_color", .legible .accentsError .surfacesPrimary),
  ("destructive_bg_color", .slot .accentsError),
  ("destructive_fg_color", .slot .contentInverse),
  ("success_color", .legible .accentsSuccess .surfacesPrimary),
  ("success_bg_color", .slot .accentsSuccess),
  ("success_fg_color", .slot .contentInverse),
  ("warning_color", .legible .accentsWarning .surfacesPrimary),
  ("warning_bg_color", .slot .accentsWarning),
  ("warning_fg_color", .slot .contentInverse),
  ("error_color", .legible .accentsError .surfacesPrimary),
  ("error_bg_color", .slot .accentsError),
  ("error_fg_color", .slot .contentInverse)]

def windowRows : List (PaintRow R) := [
  ("window_bg_color", .slot .surfacesPrimary),
  ("window_fg_color", .slot .contentPrimary),
  ("view_bg_color", .slot .surfacesSecondary),
  ("view_fg_color", .slot .contentPrimary),
  ("headerbar_bg_color", .slot .surfacesTertiary),
  ("headerbar_fg_color", .slot .contentPrimary),
  ("headerbar_border_color", .slot .bordersDefault),
  ("headerbar_backdrop_color", .slot .surfacesPrimary),
  ("headerbar_shade_color", .translucent .bordersStrong 0.36),
  ("sidebar_bg_color", .slot .surfacesTertiary),
  ("sidebar_fg_color", .slot .contentPrimary),
  ("sidebar_backdrop_color", .alternate .surfacesTertiary),
  ("sidebar_shade_color", .translucent .bordersStrong 0.25)]

def layerRows : List (PaintRow R) := [
  ("card_bg_color", .slot .surfacesElevated),
  ("card_fg_color", .slot .contentPrimary),
  ("card_shade_color", .translucent .bordersStrong 0.3),
  ("dialog_bg_color", .slot .surfacesElevated),
  ("dialog_fg_color", .slot .contentPrimary),
  ("popover_bg_color", .slot .surfacesElevated),
  ("popover_fg_color", .slot .contentPrimary),
  ("popover_shade_color", .translucent .bordersStrong 0.25),
  ("thumbnail_bg_color", .slot .surfacesElevated),
  ("thumbnail_fg_color", .slot .contentPrimary),
  ("shade_color", .translucent .bordersStrong 0.36),
  ("scrollbar_outline_color", .slot .bordersSubtle),
  ("borders", .slot .bordersDefault)]

/-- The libadwaita names. -/
def adwaitaRows : List (PaintRow R) := accentRows ++ statusRows ++ windowRows ++ layerRows

def themeRows : List (PaintRow R) := [
  ("theme_bg_color", .slot .surfacesPrimary),
  ("theme_fg_color", .slot .contentPrimary),
  ("theme_base_color", .slot .surfacesSecondary),
  ("theme_text_color", .slot .contentPrimary),
  ("theme_selected_bg_color", .slot .accentsPrimary),
  ("theme_selected_fg_color", .slot .contentInverse),
  ("insensitive_bg_color", .alternate .surfacesPrimary),
  ("insensitive_fg_color", .disabled .contentPrimary .surfacesPrimary),
  ("insensitive_base_color", .slot .surfacesSecondary)]

def unfocusedRows : List (PaintRow R) := [
  ("theme_unfocused_bg_color", .slot .surfacesPrimary),
  ("theme_unfocused_fg_color", .inactive .contentPrimary .surfacesPrimary),
  ("theme_unfocused_base_color", .slot .surfacesSecondary),
  ("theme_unfocused_text_color", .inactive .contentPrimary .surfacesSecondary),
  ("theme_unfocused_selected_bg_color", .slot .accentsPrimary),
  ("theme_unfocused_selected_fg_color", .slot .contentInverse),
  ("unfocused_insensitive_color", .disabled .contentPrimary .surfacesPrimary),
  ("unfocused_borders", .slot .bordersSubtle)]

def widgetRows : List (PaintRow R) := [
  ("theme_tooltip_bg_color", .slot .surfacesInverse),
  ("theme_tooltip_fg_color", .slot .contentInverse),
  ("tooltip_bg_color", .slot .surfacesInverse),
  ("link_color", .slot .contentLink),
  ("visited_link_color", .slot .contentLinkVisited),
  ("content_view_bg", .slot .surfacesSecondary),
  ("wm_title", .slot .contentPrimary),
  ("wm_unfocused_title", .inactive .contentPrimary .surfacesTertiary),
  ("wm_bg", .slot .surfacesTertiary),
  ("wm_highlight", .hover .surfacesTertiary),
  ("wm_button_hover_color", .overlay .contentPrimary .hoverOverlay),
  ("wm_button_active_color", .overlay .contentPrimary .pressedOverlay)]

/-- The variables of themes before libadwaita. -/
def legacyRows : List (PaintRow R) := themeRows ++ unfocusedRows ++ widgetRows

/-- GTK 3 does not read hexadecimal digits of alpha. -/
def colorText (c : Color R) : Text := if c.isOpaque then c.hexText.lower else c.literalText

def definition (s : Schema R) (row : PaintRow R) : Text :=
  "@define-color " ++ row.1 ++ " " ++ colorText (s.paint row.2) ++ ";\n"

/-- Where a schema comes from. -/
def origin (s : Schema R) : Text :=
  s.provenance.getD "unnamed source" ++ " (" ++ s.variant.name ++ ")"

/-- A text that cannot close the comment it stands in. -/
def insideComment : Text → Text
  | '*' :: '/' :: t => '*' :: ' ' :: '/' :: insideComment t
  | c :: t => c :: insideComment t
  | [] => []

def header (toolkit : Text) (s : Schema R) : Text :=
  "/* " ++ toolkit ++ " colors generated by tincture from " ++ insideComment (origin s) ++ " */\n"

def definitions (s : Schema R) (rows : List (PaintRow R)) : Text :=
  "\n" ++ rows.flatMap (definition s)

/-- A header and groups of definitions, with an empty line before each group. -/
def text (toolkit : Text) (groups : List (List (PaintRow R))) (s : Schema R) : Text :=
  header toolkit s ++ groups.flatMap (definitions s)

def gtk3Path : Text := "gtk-3.0/gtk.css"

def gtk4Path : Text := "gtk-4.0/gtk.css"

def output (s : Schema R) : Output :=
  let dark := s.variant.isDark
  Output.ofLists
    [(gtk3Path, text "GTK 3" [adwaitaRows, legacyRows] s), (gtk4Path, text "GTK 4" [adwaitaRows] s)]
    [("gtk-application-prefer-dark-theme", if dark then "true" else "false"),
      ("color-scheme", if dark then "prefer-dark" else "prefer-light")]

end ThemeTokens.Stylesheet
