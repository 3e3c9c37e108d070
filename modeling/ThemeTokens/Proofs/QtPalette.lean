import ThemeTokens.Proofs.Color.Spelling
import ThemeTokens.Proofs.Opaque
import ThemeTokens.Proofs.Origin
import ThemeTokens.Proofs.OutputPaths

/-!
# Lines of a Qt palette

A line is cut between its colours, and only the place of a colour tells its role. What is read there
is the colour of the role, apart from the alpha, of which a byte is left.
-/
namespace ThemeTokens

/-! ## Colours with the alpha first -/

namespace Color
variable {R : Type} [Number R]

/-- The hexadecimal digits in lower case. -/
def lowerDigits : Text := "0123456789abcdef"

/-- Reads `#aarrggbb`. The alpha stays a byte. -/
def readArgb? : Text → Option (UInt8 × UInt8 × UInt8 × UInt8)
  | '#' :: t => (t.mapM Text.hexDigit?).bind fun
    | [a, a', r, r', g, g', b, b'] =>
      some (hexByte a a', hexByte r r', hexByte g g', hexByte b b')
    | _ => none
  | _ => none

theorem hexDigit?_digitChar : ∀ n < 16, Text.hexDigit? (Nat.digitChar n) = some n := by decide

theorem digitChar_mem_lowerDigits : ∀ n < 16, Nat.digitChar n ∈ lowerDigits := by decide

theorem argbText_eq (c : Color R) : c.argbText =
    '#' :: (hexPair Nat.digitChar (Number.toByte c.alpha) ++ (hexPair Nat.digitChar c.red ++
      (hexPair Nat.digitChar c.green ++ (hexPair Nat.digitChar c.blue ++ [])))) := by
  simp [argbText]

theorem readArgb?_argbText (c : Color R) :
    readArgb? c.argbText = some (Number.toByte c.alpha, c.red, c.green, c.blue) := by
  have hbytes := hexByte_digits
  rw [argbText_eq, readArgb?]
  simp only [mapM_hexPair hexDigit?_digitChar]
  simp [hbytes]

/-- What follows the number sign. -/
theorem exists_argbText (c : Color R) : ∃ digits, c.argbText = '#' :: digits ∧
    digits.length = 8 ∧ ∀ d ∈ digits, d ∈ lowerDigits := by
  have hpair := forall_mem_hexPair digitChar_mem_lowerDigits
  refine ⟨_, c.argbText_eq, rfl, ?_⟩
  simp only [List.forall_mem_append]
  exact ⟨hpair _, hpair _, hpair _, hpair _, List.forall_mem_nil _⟩

theorem not_mem_argbText {d : Char} (h : d ∉ '#' :: lowerDigits) (c : Color R) :
    d ∉ c.argbText := by
  obtain ⟨digits, htext, -, hdigits⟩ := c.exists_argbText
  obtain ⟨hsign, hlower⟩ := not_or.1 (mt List.mem_cons.2 h)
  rw [htext]
  exact List.not_mem_cons_of_ne_of_not_mem hsign fun hd => hlower (hdigits d hd)

end Color

namespace QtPalette

/-! ## Roles -/

/-- The names of the roles in the order of a line. -/
def roleNames : List Text := [
  "WindowText", "Button", "Light", "Midlight", "Dark", "Mid", "Text", "BrightText", "ButtonText",
  "Base", "Window", "Shadow", "Highlight", "HighlightedText", "Link", "LinkVisited",
  "AlternateBase", "NoRole", "ToolTipBase", "ToolTipText", "PlaceholderText"]

/-- The roles that lie below others, with the bevels of a button. -/
def backgroundRoles : List Text := [
  "Button", "Light", "Midlight", "Dark", "Mid", "Shadow", "Base", "AlternateBase", "Window",
  "ToolTipBase"]

theorem backgroundRoles_subset : ∀ role ∈ backgroundRoles, role ∈ roleNames := by decide

section
variable {R : Type} [Number R]

theorem map_fst_rows (state : State) : (state.rows (R := R)).map Prod.fst = roleNames := by
  cases state <;> rfl

theorem length_rows (state : State) : (state.rows (R := R)).length = 21 := by
  cases state <;> rfl

/-- A background is painted alike in every state. -/
theorem background_rows (state : State) : ∀ role ∈ backgroundRoles,
    (state.rows (R := R))[roleNames.idxOf role]? = State.active.rows[roleNames.idxOf role]? := by
  refine List.map_inj_left.1 ?_
  cases state <;> rfl

/-! ## Lines -/

/-- The cells of a line, which a comma and a space keep apart. -/
def cells (line : Text) : List Text := Text.splitPair ',' ' ' line

theorem cells_line (s : Schema R) (state : State) :
    cells (state.line s) = state.rows.map fun row => (s.paint row.2).argbText := by
  have hseparator : ", ".toList = [',', ' '] := rfl
  rw [cells, State.line, hseparator]
  refine Text.splitPair_join ' ' (List.cons_ne_nil _ _) (List.forall_mem_map.2 fun row _ => ?_)
  exact Color.not_mem_argbText (by decide) _

theorem not_mem_line (s : Schema R) (state : State) : '\n' ∉ state.line s := by
  intro h
  rcases Text.mem_join h with h | ⟨cell, hcell, h⟩
  · exact absurd h (by decide)
  · obtain ⟨row, -, rfl⟩ := List.mem_map.1 hcell
    exact Color.not_mem_argbText (by decide) _ h

/-- The place of a background has the same cell in every state. -/
theorem exists_background_cell (s : Schema R) : ∀ role ∈ backgroundRoles, ∃ cell,
    ∀ state : State, (cells (state.line s))[roleNames.idxOf role]? = some cell := by
  intro role hrole
  have hlt : roleNames.idxOf role < (State.active.rows (R := R)).length := by
    rw [length_rows]
    exact List.idxOf_lt_length_of_mem (backgroundRoles_subset role hrole)
  refine ⟨(s.paint (State.active.rows[roleNames.idxOf role]).2).argbText, fun state => ?_⟩
  rw [cells_line, List.getElem?_map, background_rows state role hrole,
    List.getElem?_eq_getElem hlt, Option.map_some]

/-- The lines of a text with these lines of colours. -/
def linesOf (line : State → Text) : List Text := [
  "[ColorScheme]", "active_colors=" ++ line .active, "disabled_colors=" ++ line .disabled,
  "inactive_colors=" ++ line .inactive]

theorem lines_text (s : Schema R) :
    Ini.lines (Ini.text [scheme s]) = linesOf fun state => state.line s := by
  have hentry {key : Text} (hkey : '\n' ∉ key) (state : State) : '\n' ∉ key ++ state.line s :=
    List.not_mem_append hkey (not_mem_line s state)
  have hlayout : Ini.layout [scheme s] = linesOf fun state => state.line s := rfl
  rw [Ini.lines_text, hlayout]
  refine Ini.flatMap_split ?_
  simp only [linesOf, List.forall_mem_cons]
  exact ⟨by decide, hentry (by decide) _, hentry (by decide) _, hentry (by decide) _,
    List.forall_mem_nil _⟩

theorem files_output (name : Text) (s : Schema R) : (output name s).files =
    [(qt5Path name, Ini.text [scheme s]), (qt6Path name, Ini.text [scheme s])] :=
  Keyed.Sorted.ofList_eq (List.pairwise_pair.2 (qt5Path_lt_qt6Path name))

/-- The only constant is white. -/
theorem isFixed_rows (state : State) : ∀ row ∈ state.rows (R := R),
    row.2.isFixed = false ∨ row.2 = .fixed Color.white := by
  cases state <;> simp [State.rows, State.textPaint, State.highlight, Paint.isFixed]

end

/-! ## What a palette tells -/

variable {lib : Binary64.Elementary} {s : Schema (Double lib)}

/-- The categories of the slots that are painted with. -/
def categories : List Category := [.surfaces, .content, .accents]

theorem isOpaqueOn_rows (state : State) : ∀ row ∈ state.rows (R := Double lib),
    row.2.isOpaqueOn (fun slot => slot.category ∈ categories) = true := by
  have hwhite : (Color.white : Color (Double lib)).isOpaque = true := Double.isOpaque_solid _ _ _
  cases state <;> simp [State.rows, State.textPaint, State.highlight, Paint.isOpaqueOn, hwhite,
    ColorSlot.category, categories]

section
variable (h : ∀ slot, (s.color slot).HasOpacity)
include h

theorem hasOpacity_rows (state : State) : ∀ row ∈ state.rows, (s.paint row.2).HasOpacity := by
  intro row hrow
  rcases isFixed_rows state row hrow with hpaint | hwhite
  · exact Schema.hasOpacity_paint h hpaint
  · rw [hwhite]
    exact Color.hasOpacity_solid _ _ _

theorem isOpaque_rows (hsolid : ∀ slot, slot.category ∈ categories → (s.color slot).isOpaque = true)
    (state : State) : ∀ row ∈ state.rows, (s.paint row.2).isOpaque = true := fun row hrow =>
  Schema.isOpaque_paint h (fun slot hslot => hsolid slot (of_decide_eq_true hslot))
    (isOpaqueOn_rows state row hrow)

theorem readArgb?_of_isOpaque
    (hsolid : ∀ slot, slot.category ∈ categories → (s.color slot).isOpaque = true) (state : State) :
    ∀ cell ∈ cells (state.line s), ∃ r g b, Color.readArgb? cell = some (255, r, g, b) := by
  rw [cells_line]
  refine List.forall_mem_map.2 fun row hrow => ?_
  have hcell := Color.readArgb?_argbText (s.paint row.2)
  rw [Double.toByte_of_isOpaque (hasOpacity_rows h state row hrow)
    (isOpaque_rows h hsolid state row hrow)] at hcell
  exact ⟨_, _, _, hcell⟩

end

/-- A cell with the channels of a colour and a byte for its alpha. -/
structure IsEntry (c : Color (Double lib)) (cell : Text) : Prop where
  shape : ∃ digits, cell = '#' :: digits ∧ digits.length = 8 ∧ ∀ d ∈ digits, d ∈ Color.lowerDigits
  reads : ∃ k, Color.readArgb? cell = some (k, c.red, c.green, c.blue) ∧ Double.IsByteOf c.alpha k

theorem isEntry_argbText {c : Color (Double lib)} (h : c.HasOpacity) :
    IsEntry c c.argbText :=
  ⟨c.exists_argbText, _, c.readArgb?_argbText, Double.isByteOf_toByte h.1 h.2⟩

/-- The files of the two programs and the lines and cells of their text. -/
structure IsPalette (name : Text) (s : Schema (Double lib)) (text : Text) (line : State → Text) :
    Prop where
  files : (Target.qtct.render name s).files = [(qt5Path name, text), (qt6Path name, text)]
  lines : Ini.lines text = linesOf line
  length : ∀ state, (cells (line state)).length = 21
  /-- The rows of every state name the same roles in the same order. -/
  roles : ∀ state : State, (state.rows (R := Double lib)).map Prod.fst = roleNames
  entries : ∀ state, List.Forall₂ (fun row cell => IsEntry (s.paint row.2) cell) state.rows
    (cells (line state))
  backgrounds : ∀ role ∈ backgroundRoles, ∃ cell, ∀ state,
    (cells (line state))[roleNames.idxOf role]? = some cell
  solid : (∀ slot, slot.category ∈ categories → (s.color slot).isOpaque = true) →
    ∀ state, ∀ cell ∈ cells (line state), ∃ r g b, Color.readArgb? cell = some (255, r, g, b)

theorem exists_isPalette (name : Text) (s : Schema (Double lib))
    (h : ∀ slot, (s.color slot).HasOpacity) : ∃ text line, IsPalette name s text line := by
  refine ⟨Ini.text [scheme s], fun state => state.line s, files_output name s, lines_text s,
    fun state => ?_, map_fst_rows, fun state => ?_, exists_background_cell s,
    readArgb?_of_isOpaque h⟩
  · rw [cells_line, List.length_map, length_rows]
  · rw [cells_line, List.forall₂_map_right_iff, List.forall₂_same]
    exact fun row hrow => isEntry_argbText (hasOpacity_rows h state row hrow)

/-- A blue that is opaque but for the borders. -/
def plainColor (slot : ColorSlot) : Color (Double .platform) :=
  if slot.category = .borders then ⟨51, 102, 153, 0.5⟩ else Color.solid 51 102 153

def plain : Schema (Double .platform) where
  tokens := Table.ofFn plainColor fun _ => 0.5
  variant := .dark
  policy := .standard
  provenance := none
  warnings := []

theorem exists_isPalette_plain :
    (∀ slot, (plain.color slot).HasOpacity) ∧
      (∀ slot, slot.category ∈ categories → (plain.color slot).isOpaque = true) ∧
      ∃ text line, IsPalette "Tincture" plain text line ∧
        ∀ state, ∀ cell ∈ cells (line state),
          ∃ r g b, Color.readArgb? cell = some (255, r, g, b) := by
  have hcolor (slot : ColorSlot) : plain.color slot = plainColor slot := by
    rw [Schema.color, plain, Table.color_ofFn]
  have hopacity (slot : ColorSlot) : (plain.color slot).HasOpacity := by
    rw [hcolor, plainColor]
    split
    · constructor <;> decide +kernel
    · exact Color.hasOpacity_solid _ _ _
  have hsolid (slot : ColorSlot) (hslot : slot.category ∈ categories) :
      (plain.color slot).isOpaque = true := by
    have hborders : slot.category ≠ .borders := ne_of_mem_of_not_mem hslot (by decide)
    rw [hcolor, plainColor, if_neg hborders]
    exact Double.isOpaque_solid _ _ _
  obtain ⟨text, line, h⟩ := exists_isPalette "Tincture" plain hopacity
  exact ⟨hopacity, hsolid, text, line, h, h.solid hsolid⟩

/-- A window that lets five sixths of what is below it through. -/
def faintWindow : Schema (Double .platform) :=
  Schema.finalize ((Palette.tokens (Color.solid 0x35 0x84 0xE4) .dark).putColor .surfacesPrimary
    ⟨16, 32, 48, Double.aboutSixth⟩) .standard none

theorem color_faintWindow :
    faintWindow.color .surfacesPrimary = ⟨16, 32, 48, Double.aboutSixth⟩ := by
  rw [faintWindow, Schema.finalize_surfacesPrimary, Table.color_putColor, if_pos rfl]

theorem hasOpacity_faintWindow (slot : ColorSlot) : (faintWindow.color slot).HasOpacity := by
  refine Schema.hasOpacity_finalize (fun slot => ?_) _ _ slot
  rw [Table.color_putColor]
  split
  · exact Double.aboutSixth_mem
  · exact Palette.hasOpacity_tokens _ _ slot

/-- The byte of the window's alpha is not the nearest one. -/
theorem window_faintWindow :
    (∀ slot, (faintWindow.color slot).HasOpacity) ∧ roleNames[10]? = some "Window".toList ∧
    ∃ text line, (Target.qtct.render "Tincture" faintWindow).files =
        [(qt5Path "Tincture", text), (qt6Path "Tincture", text)] ∧
      Ini.lines text = linesOf line ∧ ∀ state : State,
        ((state.rows (R := Double .platform))[10]?).map (fun row => faintWindow.paint row.2) =
          some ⟨16, 32, 48, Double.aboutSixth⟩ ∧
        ((cells (line state))[10]?).bind Color.readArgb? = some (43, 16, 32, 48) ∧
        |Double.toReal Double.aboutSixth - 42 / 255| <
          |Double.toReal Double.aboutSixth - 43 / 255| := by
  have hrow (state : State) : (state.rows (R := Double .platform))[10]? =
      some ("Window".toList, .slot .surfacesPrimary) := by
    cases state <;> rfl
  refine ⟨hasOpacity_faintWindow, rfl, _, _, files_output "Tincture" faintWindow,
    lines_text faintWindow, fun state => ⟨?_, ?_, Double.abs_aboutSixth_sub_lt⟩⟩
  · rw [hrow, Option.map_some, Schema.paint, color_faintWindow]
  · rw [cells_line, List.getElem?_map, hrow, Option.map_some, Option.bind_some, Schema.paint,
      color_faintWindow, Color.readArgb?_argbText, Double.toByte_aboutSixth]

end QtPalette

end ThemeTokens
