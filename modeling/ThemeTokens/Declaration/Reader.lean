import ThemeTokens.Color.Literal
import ThemeTokens.Declaration.Value
import ThemeTokens.Source
import ThemeTokens.Token.Set

/-!
# Reading declarations

Every slot has names that a source may declare it by, tried in order; its canonical name comes
last. The first name that leads to something like a colour decides the slot, and names beyond it
are not looked at.
-/
namespace ThemeTokens.Declaration

/-- Other names of a slot, in order of preference. -/
def aliases : ColorSlot → List Text
  | .surfacesPrimary => ["window_bg_color", "theme_bg_color", "bg_color"]
  | .surfacesSecondary => ["view_bg_color", "theme_base_color", "base_color"]
  | .surfacesTertiary => ["sidebar_bg_color", "headerbar_bg_color"]
  | .surfacesElevated => ["card_bg_color", "popover_bg_color", "dialog_bg_color"]
  | .surfacesInverse => ["tooltip_bg_color", "theme_tooltip_bg_color"]
  | .contentPrimary => ["window_fg_color", "theme_fg_color", "fg_color"]
  | .contentSecondary => ["view_fg_color", "theme_text_color", "text_color"]
  | .contentTertiary =>
    ["insensitive_fg_color", "theme_unfocused_fg_color", "placeholder_text_color"]
  | .contentInverse => ["accent_fg_color", "theme_selected_fg_color", "selected_fg_color"]
  | .contentLink => ["link_color", "theme_link_color"]
  | .contentLinkVisited => ["visited_link_color"]
  | .accentsPrimary =>
    ["accent_bg_color", "theme_selected_bg_color", "selected_bg_color", "accent_color"]
  | .accentsPrimaryContainer => ["accent_container_bg_color"]
  | .accentsSecondary => ["secondary_accent_color"]
  | .accentsSuccess => ["success_bg_color", "success_color"]
  | .accentsWarning => ["warning_bg_color", "warning_color"]
  | .accentsError => ["error_bg_color", "error_color", "destructive_bg_color"]
  | .statesFocusRing => ["focus_ring_color"]
  | .bordersSubtle => ["unfocused_borders"]
  | .bordersDefault => ["borders"]
  | .bordersStrong => ["strong_borders"]

/-- The canonical path with an underscore for its point. -/
def canonicalName (path : Text) : Text := path.replaceChar '.' '_'

def colorNames (s : ColorSlot) : List Text := aliases s ++ [canonicalName s.path]

def scalarNames (s : ScalarSlot) : List Text := [canonicalName s.path, s.name]

variable {R : Type} [Number R]

/-- The colour of the first name that leads to something like a colour literal. -/
def readColor : List Text → Reading Text (Option (Color R))
  | [] => pure none
  | name :: names => do
    match ← Reading.leaf? name with
    | none => readColor names
    | some t =>
      if Color.looksLikeLiteral t then
        match Color.ofLiteral t with
        | .ok c => pure (some c)
        | .error e => throw (.ofMalformed e)
      else readColor names

/-- The number of the first name that leads to one. -/
def readScalar : List Text → Reading Text (Option R)
  | [] => pure none
  | name :: names => do
    match (← Reading.leaf? name).bind Number.readFraction? with
    | some x => pure (some x)
    | none => readScalar names

def readColorSlot (d : Draft R) (s : ColorSlot) : Reading Text (Draft R) := do
  return d.putColor s (← readColor (colorNames s))

def readScalarSlot (d : Draft R) (s : ScalarSlot) : Reading Text (Draft R) := do
  return d.putScalar s (← readScalar (scalarNames s))

def readSlots : Reading Text (Draft R) := do
  ScalarSlot.all.foldlM readScalarSlot (← ColorSlot.all.foldlM readColorSlot Draft.empty)

def entries (declared : Keyed Text) : Keyed (RawValue Text) :=
  declared.mapValues fun _ value => rawValue declared.contains value

/-- The slots that a source declares. -/
def readDraft (source : Text) : Except SourceError (Draft R) :=
  let declared := scan source
  if declared.isEmpty then .error .emptySource
  else Reading.runOn (entries declared) readSlots

/-- Whether a text looks like declarations: it holds one, and does not open with a brace. -/
def recognizes (source : Text) : Bool :=
  source.trimStart.head? ≠ some '\x7b' && !(statements (stripComments source)).isEmpty

end ThemeTokens.Declaration
