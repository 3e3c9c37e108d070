import ThemeTokens.Number.Binary64
import ThemeTokens.Preset
import ThemeTokens.Proofs.Ini
import ThemeTokens.Proofs.Keyed
import ThemeTokens.Proofs.Numeral
import ThemeTokens.Target

/-!
# Plasma colour schemes as they are read

The text of a colour scheme is read as its twelve sections with the colours of the schema, provided
that the name of the scheme is one line. A break in the name ends its line, and what comes after the
break is read like any other lines.
-/
namespace ThemeTokens.Plasma

/-! ## Colours -/

section
variable {R : Type}

/-- A byte in decimal digits. -/
def channel? (t : Text) : Option UInt8 :=
  if t ≠ [] ∧ t.all Char.isDigit ∧ Numeral.ofDigits t < 256 then
    some (UInt8.ofNat (Numeral.ofDigits t))
  else none

/-- The red, green and blue channel between commas. -/
def triplet? (t : Text) : Option (UInt8 × UInt8 × UInt8) :=
  match t.split ',' with
  | [red, green, blue] => do return (← channel? red, ← channel? green, ← channel? blue)
  | _ => none

theorem channel?_decimal (b : UInt8) : channel? (Text.decimal b.toNat) = some b := by
  have hne : Text.decimal b.toNat ≠ [] := Nat.toDigits_ne_nil
  have hdigits : (Text.decimal b.toNat).all Char.isDigit = true :=
    List.all_eq_true.2 (Text.isDigit_decimal b.toNat)
  have hvalue := Numeral.ofDigits_decimal b.toNat
  rw [channel?, hvalue, if_pos ⟨hne, hdigits, b.toNat_lt⟩, UInt8.ofNat_toNat]

/-- No channel has a character that is not of a decimal number. -/
theorem not_mem_decimal {c : Char} (hc : c ∉ Numeral.alphabet) (b : UInt8) :
    c ∉ Text.decimal b.toNat :=
  fun h => hc (Numeral.mem_decimal b.toNat c h)

theorem triplet?_tripletText (c : Color R) :
    triplet? c.tripletText = some (c.red, c.green, c.blue) := by
  have hcomma := not_mem_decimal (c := ',') (by decide)
  have hsplit : c.tripletText.split ',' =
      [Text.decimal c.red.toNat, Text.decimal c.green.toNat, Text.decimal c.blue.toNat] := by
    have htext : c.tripletText = Text.decimal c.red.toNat ++
        ',' :: (Text.decimal c.green.toNat ++ ',' :: Text.decimal c.blue.toNat) := by
      simp [Color.tripletText]
    rw [htext, Text.split_append (hcomma _), Text.split_append (hcomma _),
      Text.split_of_not_mem (hcomma _)]
  simp [triplet?, hsplit, channel?_decimal]

theorem not_mem_tripletText (c : Color R) : '\n' ∉ c.tripletText := by
  have hbreak := not_mem_decimal (c := '\n') (by decide)
  simp [Color.tripletText, hbreak]

end

/-! ## Sections -/

/-- The keys of every widget area. -/
def areaKeys : List Text := [
  "BackgroundAlternate", "BackgroundNormal", "DecorationFocus", "DecorationHover",
  "ForegroundActive", "ForegroundInactive", "ForegroundLink", "ForegroundNegative",
  "ForegroundNeutral", "ForegroundNormal", "ForegroundPositive", "ForegroundVisited"]

/-- The headers of a colour scheme with the keys below each of them, in their order. -/
def outline : List (Text × List Text) := [
  ("ColorEffects:Disabled", ["Color", "ColorAmount", "ColorEffect", "ContrastAmount",
    "ContrastEffect", "IntensityAmount", "IntensityEffect"]),
  ("ColorEffects:Inactive", ["ChangeSelectionColor", "Color", "ColorAmount", "ColorEffect",
    "ContrastAmount", "ContrastEffect", "Enable", "IntensityAmount", "IntensityEffect"]),
  ("Colors:Button", areaKeys),
  ("Colors:Complementary", areaKeys),
  ("Colors:Header", areaKeys),
  ("Colors:Selection", areaKeys),
  ("Colors:Tooltip", areaKeys),
  ("Colors:View", areaKeys),
  ("Colors:Window", areaKeys),
  ("General", ["ColorScheme", "Name", "shadeSortColumn"]),
  ("KDE", ["contrast"]),
  ("WM", ["activeBackground", "activeBlend", "activeForeground", "inactiveBackground",
    "inactiveBlend", "inactiveForeground"])]

/-- What holds of a header and its keys, so that they are read as they are. -/
def IsOutline (row : Text × List Text) : Prop :=
  '\n' ∉ row.1 ∧ row.2.Nodup ∧ ∀ key ∈ row.2, Ini.IsKey key

instance : DecidablePred IsOutline := fun _ => inferInstanceAs (Decidable (_ ∧ _ ∧ _))

theorem isOutline_outline : ∀ row ∈ outline, IsOutline row := by
  have hnodup : areaKeys.Nodup := by simp [areaKeys]
  have hkeys : ∀ key ∈ areaKeys, Ini.IsKey key := by simp [areaKeys, Ini.IsKey]
  simpa [outline, IsOutline, hnodup, Ini.IsKey] using hkeys

def headers : List Text := outline.map Prod.fst

theorem nodup_headers : headers.Nodup := by
  simp [headers, outline]

variable {R : Type} [Number R] (scheme : Text) (s : Schema R)

/-- The headers and keys depend on neither the scheme nor the schema. -/
theorem outline_sections :
    (sections scheme s).map (fun sec => (sec.name, Keyed.keys sec.entries)) = outline := rfl

theorem map_name_sections : (sections scheme s).map Ini.Section.name = headers := by
  rw [headers, ← outline_sections scheme s, List.map_map]
  rfl

theorem nodup_name_sections : ((sections scheme s).map Ini.Section.name).Nodup := by
  rw [map_name_sections]
  exact nodup_headers

theorem isOutline_sections : ∀ sec ∈ sections scheme s,
    IsOutline (sec.name, Keyed.keys sec.entries) := by
  have houtline := isOutline_outline
  rw [← outline_sections scheme s] at houtline
  exact List.forall_mem_map.1 houtline

/-- The sections before the one that names the scheme. -/
def opening (s : Schema R) : List Ini.Section :=
  [disabledEffects s, inactiveEffects s] ++ areas.map (Area.section s)

/-- The sections after the one that names the scheme. -/
def closing (s : Schema R) : List Ini.Section :=
  [⟨"KDE", [("contrast", "4")]⟩, ⟨"WM", titleBarRows.map (entry s)⟩]

theorem titleBar_mem_closing : ⟨"WM", titleBarRows.map (entry s)⟩ ∈ closing s :=
  List.mem_cons_of_mem _ List.mem_cons_self

theorem sections_eq : sections scheme s = opening s ++ general scheme :: closing s :=
  List.append_assoc _ _ _

theorem mem_sections {sec : Ini.Section} (h : sec ∈ opening s ++ closing s) :
    sec ∈ sections scheme s := by
  rw [sections_eq]
  simp only [List.mem_append, List.mem_cons] at h ⊢
  tauto

/-! ## Breaks -/

theorem not_mem_amount (x : R) : '\n' ∉ Number.amount x := by
  intro hmem
  cases hplaces : Number.toPlaces 3 x with
  | notANumber =>
    rw [Number.amount, Number.placesText, hplaces] at hmem
    revert hmem
    decide
  | infinite negative =>
    rw [Number.amount, Number.placesText, hplaces] at hmem
    revert hmem
    cases negative <;> decide
  | finite n => exact absurd (Number.mem_amount hplaces _ hmem) (by decide)

theorem not_mem_entry (row : PaintRow R) : '\n' ∉ (entry s row).2 :=
  not_mem_tripletText _

/-- The schema puts no break into any value. -/
theorem not_mem_values : ∀ sec ∈ opening s ++ closing s, ∀ e ∈ sec.entries, '\n' ∉ e.2 := by
  have hrows (rows : List (PaintRow R)) : ∀ e ∈ rows.map (entry s), '\n' ∉ e.2 :=
    List.forall_mem_map.2 fun row _ => not_mem_entry s row
  have hamount := not_mem_amount (1.0 - s.scalar .disabledOpacity)
  have hdisabled : ∀ e ∈ (disabledEffects s).entries, '\n' ∉ e.2 := by
    unfold disabledEffects
    simp [not_mem_entry, hamount]
  have hinactive : ∀ e ∈ (inactiveEffects s).entries, '\n' ∉ e.2 := by
    unfold inactiveEffects
    simp [not_mem_entry]
  have hareas : ∀ sec ∈ areas.map (Area.section s), ∀ e ∈ sec.entries, '\n' ∉ e.2 :=
    List.forall_mem_map.2 fun area _ => hrows area.rows
  have hclosing : ∀ sec ∈ closing s, ∀ e ∈ sec.entries, '\n' ∉ e.2 := by
    simpa [closing] using hrows titleBarRows
  have hopening : ∀ sec ∈ opening s, ∀ e ∈ sec.entries, '\n' ∉ e.2 :=
    List.forall_mem_append.2 ⟨List.forall_mem_cons.2 ⟨hdisabled, by simpa using hinactive⟩, hareas⟩
  exact List.forall_mem_append.2 ⟨hopening, hclosing⟩

theorem isStemChar_stem (name : Text) : ∀ c ∈ SchemeName.stem name,
    SchemeName.isStemChar c = true := by
  have hmap : ∀ c ∈ (name.filter (!isBlank ·)).map SchemeName.stemChar,
      SchemeName.isStemChar c = true := by
    refine List.forall_mem_map.2 fun c _ => ?_
    rw [SchemeName.stemChar]
    split
    · assumption
    · decide
  rw [SchemeName.stem]
  split
  · exact List.all_eq_true.1 (by decide)
  · exact hmap

theorem not_mem_stem : '\n' ∉ SchemeName.stem scheme := by
  intro hmem
  have hchar := isStemChar_stem scheme _ hmem
  revert hchar
  decide

theorem not_mem_lines {sec : Ini.Section} (h : IsOutline (sec.name, Keyed.keys sec.entries))
    (hvalues : ∀ e ∈ sec.entries, '\n' ∉ e.2) : ∀ line ∈ sec.lines, '\n' ∉ line := by
  obtain ⟨hname, -, hkeys⟩ := h
  refine List.forall_mem_cons.2 ⟨by simpa using hname, List.forall_mem_map.2 fun e he => ?_⟩
  have hkey := (hkeys e.1 (List.mem_map_of_mem he)).1
  simp [Ini.entryText, hkey, hvalues e he]

theorem not_mem_lines_around : ∀ sec ∈ opening s ++ closing s, ∀ line ∈ sec.lines, '\n' ∉ line := by
  intro sec hsec
  have houtline := isOutline_sections [] s sec (mem_sections [] s hsec)
  exact not_mem_lines houtline (not_mem_values s sec hsec)

theorem written_around {l : List Ini.Section} (h : l ⊆ opening s ++ closing s) :
    l.flatMap Ini.Section.written = l.flatMap Ini.Section.lines := by
  have hsec : ∀ sec ∈ l, sec.written = sec.lines := fun sec hsec =>
    Ini.Section.written_eq_lines (not_mem_lines_around s sec (h hsec))
  rw [List.flatMap_def, List.map_congr_left hsec, ← List.flatMap_def]

/-! ## The lines of a colour scheme -/

/-- The lines before the two that have the name of the scheme. -/
def linesBefore (s : Schema R) : List Text := Ini.layout (opening s) ++ [[], "[General]"]

/-- The lines after the two that have the name of the scheme. -/
def linesAfter (s : Schema R) : List Text :=
  "shadeSortColumn=true".toList :: (closing s).flatMap fun sec => [] :: sec.lines

theorem lines_general : (general scheme).lines = "[General]".toList ::
    ("ColorScheme=" ++ SchemeName.stem scheme) :: ("Name=" ++ scheme.trim) ::
      ["shadeSortColumn=true".toList] := rfl

theorem layout_sections : Ini.layout (sections scheme s) = linesBefore s ++
    ("ColorScheme=" ++ SchemeName.stem scheme) :: ("Name=" ++ scheme.trim) :: linesAfter s := by
  have hne : opening s ≠ [] := List.cons_ne_nil _ _
  rw [sections_eq, Ini.layout_append hne, List.flatMap_cons, lines_general]
  simp [linesBefore, linesAfter]

theorem not_mem_linesBefore : ∀ line ∈ linesBefore s, '\n' ∉ line := by
  refine List.forall_mem_append.2 ⟨fun line hline => ?_, by decide⟩
  rcases Ini.mem_layout line hline with rfl | ⟨sec, hsec, hline⟩
  · exact List.not_mem_nil
  · exact not_mem_lines_around s sec (List.mem_append_left _ hsec) line hline

theorem not_mem_linesAfter : ∀ line ∈ linesAfter s, '\n' ∉ line := by
  refine List.forall_mem_cons.2 ⟨by decide, fun line hline => ?_⟩
  obtain ⟨sec, hsec, hline⟩ := List.mem_flatMap.1 hline
  rcases List.mem_cons.1 hline with rfl | hline
  · exact List.not_mem_nil
  · exact not_mem_lines_around s sec (List.mem_append_right _ hsec) line hline

/-- The name ends its line where it has a break. All other lines are the same for every scheme. -/
theorem lines_sections : Ini.lines (Ini.text (sections scheme s)) = linesBefore s ++
    ("ColorScheme=" ++ SchemeName.stem scheme) ::
      (Text.split '\n' ("Name=" ++ scheme.trim) ++ linesAfter s) := by
  have hstem : '\n' ∉ "ColorScheme=" ++ SchemeName.stem scheme :=
    List.not_mem_append (by decide) (not_mem_stem scheme)
  rw [Ini.lines_text, layout_sections, List.flatMap_append,
    Ini.flatMap_split (not_mem_linesBefore s), List.flatMap_cons, List.flatMap_cons,
    Ini.flatMap_split (not_mem_linesAfter s), Text.split_of_not_mem hstem]
  rfl

/-! ## What is read -/

/-- The only value that a reader finds for a key below a header is that colour. -/
def Shows (found : List Ini.Section) (header key : Text) (c : Color R) : Prop :=
  ∃ value, Ini.values found header key = [value] ∧ triplet? value = some (c.red, c.green, c.blue)

/-- What a reader has to find in the text of a colour scheme. -/
structure Displays (found : List Ini.Section) (s : Schema R) : Prop where
  /-- Each header stands there once. -/
  headers : found.map Ini.Section.name = headers
  area : ∀ area ∈ areas, ∀ row ∈ (area.rows : List (PaintRow R)),
    Shows found ("Colors:" ++ area.name) row.1 (s.paint row.2)
  titleBar : ∀ row ∈ (titleBarRows : List (PaintRow R)), Shows found "WM" row.1 (s.paint row.2)

theorem keys_sections : ∀ sec ∈ sections scheme s, ∀ key ∈ Keyed.keys sec.entries, Ini.IsKey key :=
  fun sec hsec => (isOutline_sections scheme s sec hsec).2.2

theorem written_general : (general scheme).written = "[General]".toList ::
    ("ColorScheme=" ++ SchemeName.stem scheme) ::
      ((Text.split '\n' ("Name=" ++ scheme.trim)).filter (!·.isEmpty) ++
        ["shadeSortColumn=true".toList]) := by
  have hstem : '\n' ∉ "ColorScheme=" ++ SchemeName.stem scheme :=
    List.not_mem_append (by decide) (not_mem_stem scheme)
  rw [Ini.Section.written, lines_general, List.flatMap_cons, List.flatMap_cons,
    Text.split_of_not_mem hstem]
  rfl

theorem read?_sections (h : '\n' ∉ scheme.trim) :
    Ini.read? (Ini.text (sections scheme s)) = some (sections scheme s) := by
  have hname : '\n' ∉ "Name=" ++ scheme.trim := List.not_mem_append (by decide) h
  have hgeneral : (general scheme).written = (general scheme).lines := by
    rw [written_general, Text.split_of_not_mem hname]
    rfl
  refine Ini.read?_eq_some (keys_sections scheme s) ?_
  rw [Ini.filter_lines_text, sections_eq, List.flatMap_append, List.flatMap_append,
    List.flatMap_cons, List.flatMap_cons, hgeneral, written_around s (List.subset_append_left _ _),
    written_around s (List.subset_append_right _ _)]

theorem shows_of_mem {sec : Ini.Section} (hsec : sec ∈ sections scheme s)
    {rows : List (PaintRow R)} (hentries : sec.entries = rows.map (entry s)) {row : PaintRow R}
    (hrow : row ∈ rows) : Shows (sections scheme s) sec.name row.1 (s.paint row.2) := by
  have hentry : entry s row ∈ sec.entries := by
    rw [hentries]
    exact List.mem_map_of_mem hrow
  have hkeys := (isOutline_sections scheme s sec hsec).2.1
  have hvalues := Ini.values_eq_singleton (nodup_name_sections scheme s) hsec hkeys hentry
  exact ⟨_, hvalues, triplet?_tripletText _⟩

theorem displays_sections : Displays (sections scheme s) s where
  headers := map_name_sections scheme s
  area := by
    intro area harea row hrow
    have hsec : area.section s ∈ opening s := List.mem_append_right _ (List.mem_map_of_mem harea)
    exact shows_of_mem scheme s (mem_sections scheme s (List.mem_append_left _ hsec)) rfl hrow
  titleBar := by
    intro row hrow
    have hsec := mem_sections scheme s (List.mem_append_right _ (titleBar_mem_closing s))
    exact shows_of_mem scheme s hsec rfl hrow

/-! ## Names that spell out a section -/

/-- What is read where the name goes on with the lines of a section. That section takes the last
line of the one that names the scheme. -/
def forgedSections (stem first : Text) (forged : Ini.Section) (s : Schema R) : List Ini.Section :=
  opening s ++ ⟨"General", [("ColorScheme", stem), ("Name", first)]⟩ ::
    ⟨forged.name, forged.entries.concat ("shadeSortColumn", "true")⟩ :: closing s

section
variable {scheme first : Text} {forged : Ini.Section} (hfirst : '\n' ∉ first)
  (hforged : ∀ line ∈ forged.lines, '\n' ∉ line)
  (hname : scheme.trim = Text.join "\n" (first :: forged.lines))
include hfirst hforged hname

theorem written_forged : (general scheme).written =
    (⟨"General", [("ColorScheme", SchemeName.stem scheme), ("Name", first)]⟩ : Ini.Section).lines ++
      (⟨forged.name, forged.entries.concat ("shadeSortColumn", "true")⟩ : Ini.Section).lines := by
  have hline : '\n' ∉ "Name=" ++ first := List.not_mem_append (by decide) hfirst
  have hjoin : "Name=" ++ scheme.trim = Text.join "\n" (("Name=" ++ first) :: forged.lines) := by
    rw [hname, Text.join_cons, Text.join_cons, List.append_assoc]
  have hsplit : Text.split '\n' ("Name=" ++ scheme.trim) = ("Name=" ++ first) :: forged.lines := by
    have hseparator : "\n".toList = ['\n'] := rfl
    rw [hjoin, hseparator, Text.split_join List.not_mem_nil hline hforged]
    exact congrArg _ (List.map_id _)
  have hfull : ∀ line ∈ forged.lines, (!line.isEmpty) = true := fun line hline => by
    rw [Ini.Section.isEmpty_of_mem_lines line hline, Bool.not_false]
  rw [written_general, hsplit, List.filter_cons_of_pos rfl, List.filter_eq_self.2 hfull]
  simp [Ini.Section.lines, Ini.entryText]

theorem read?_forged (hkeys : ∀ key ∈ Keyed.keys forged.entries, Ini.IsKey key) :
    Ini.read? (Ini.text (sections scheme s)) =
      some (forgedSections (SchemeName.stem scheme) first forged s) := by
  have hstem : ∀ key ∈ ["ColorScheme".toList, "Name".toList], Ini.IsKey key := by simp [Ini.IsKey]
  have hlast : ∀ key ∈ Keyed.keys (forged.entries.concat ("shadeSortColumn", "true")),
      Ini.IsKey key := by
    intro key hkey
    simp only [Keyed.keys, List.concat_eq_append, List.map_append, List.mem_append] at hkey
    rcases hkey with hkey | hkey
    · exact hkeys key hkey
    · rw [List.mem_singleton.1 hkey]
      simp [Ini.IsKey]
  have haround : ∀ sec ∈ opening s ++ closing s, ∀ key ∈ Keyed.keys sec.entries, Ini.IsKey key :=
    fun sec hsec => keys_sections scheme s sec (mem_sections scheme s hsec)
  refine Ini.read?_eq_some ?_ ?_
  · obtain ⟨hopening, hclosing⟩ := List.forall_mem_append.1 haround
    exact List.forall_mem_append.2
      ⟨hopening, List.forall_mem_cons.2 ⟨hstem, List.forall_mem_cons.2 ⟨hlast, hclosing⟩⟩⟩
  · rw [Ini.filter_lines_text, sections_eq, List.flatMap_append, List.flatMap_cons,
      written_forged hfirst hforged hname, written_around s (List.subset_append_left _ _),
      written_around s (List.subset_append_right _ _)]
    simp [forgedSections]

end

theorem not_mem_opening : "WM".toList ∉ (opening s).map Ini.Section.name := by
  intro hmem
  have hnodup := nodup_name_sections [] s
  rw [sections_eq, List.map_append] at hnodup
  have hclosing : "WM".toList ∈ (general [] :: closing s).map Ini.Section.name :=
    List.mem_map_of_mem (List.mem_cons_of_mem _ (titleBar_mem_closing s))
  exact (List.nodup_append.1 hnodup).2.2 _ hmem _ hclosing rfl

theorem values_closing {row : PaintRow R} (hrow : row ∈ titleBarRows) :
    Ini.values (closing s) "WM" row.1 = [(s.paint row.2).tripletText] := by
  have hheaders : ((closing s).map Ini.Section.name).Nodup := by simp [closing]
  have hkeys : (Keyed.keys (titleBarRows.map (entry s))).Nodup := by
    have hrows : Keyed.keys (titleBarRows.map (entry s)) = Keyed.keys (titleBarRows (R := R)) := rfl
    rw [hrows]
    simp [Keyed.keys, titleBarRows]
  exact Ini.values_eq_singleton hheaders (titleBar_mem_closing s) hkeys (List.mem_map_of_mem hrow)

/-! ## Which names keep a colour scheme sound -/

/-- What the text of a colour scheme has to be, whatever the scheme is called. -/
structure Sound (scheme : Text) (s : Schema R) (t : Text) : Prop where
  /-- The scheme has two lines, and the others do not depend on it. -/
  lines : Ini.lines t = linesBefore s ++
    ("ColorScheme=" ++ SchemeName.stem scheme) :: ("Name=" ++ scheme.trim) :: linesAfter s
  /-- Each line is empty, a header or an entry below one. -/
  read : ∃ found, Ini.read? t = some found ∧ Displays found s

theorem file?_render : (Target.kde.render scheme s).file? (path scheme) =
    some (Ini.text (sections scheme s)) :=
  if_pos rfl

theorem Sound.not_mem {scheme : Text} {s : Schema R} {t : Text} (h : Sound scheme s t) :
    '\n' ∉ scheme.trim := by
  intro hmem
  have hline : "Name=" ++ scheme.trim ∈ Ini.lines t := by
    rw [h.lines]
    simp
  exact Ini.not_mem_of_mem_lines _ hline (List.mem_append_right _ hmem)

/-- The text of a colour scheme is what it has to be if and only if the name of the scheme has no
break inside. A break ends the line of the name, and the rest of the name stands on lines of its
own. -/
theorem sound_iff : ∃ t, (Target.kde.render scheme s).file? (path scheme) = some t ∧
    Ini.lines t = linesBefore s ++ ("ColorScheme=" ++ SchemeName.stem scheme) ::
      (Text.split '\n' ("Name=" ++ scheme.trim) ++ linesAfter s) ∧
    (Sound scheme s t ↔ '\n' ∉ scheme.trim) := by
  refine ⟨_, file?_render scheme s, lines_sections scheme s, Sound.not_mem, fun h => ?_⟩
  have hname : '\n' ∉ "Name=" ++ scheme.trim := List.not_mem_append (by decide) h
  refine ⟨?_, sections scheme s, read?_sections scheme s h, displays_sections scheme s⟩
  rw [lines_sections, Text.split_of_not_mem hname, List.singleton_append]

/-- A name can put another colour before that of the active title bar. -/
theorem forged_titleBar :
    let s : Schema Float := Preset.reference .dark
    let scheme : Text := "Night\n[WM]\nactiveBackground=0,0,0"
    ∃ t found, (Target.kde.render scheme s).file? (path scheme) = some t ∧
      Ini.read? t = some found ∧
      Ini.values found "WM" "activeBackground" =
        ["0,0,0".toList, (s.color .surfacesTertiary).tripletText] ∧
      ¬ Displays found s ∧ ¬ Sound scheme s t := by
  intro s scheme
  let forged : Ini.Section := ⟨"WM", [("activeBackground", "0,0,0")]⟩
  have hbreak : '\n' ∈ scheme.trim := by decide
  have hfirst : '\n' ∉ "Night".toList := by decide
  have hlines : ∀ line ∈ forged.lines, '\n' ∉ line := by decide
  have hname : scheme.trim = Text.join "\n" ("Night".toList :: forged.lines) := by decide
  have hkeys : ∀ key ∈ Keyed.keys forged.entries, Ini.IsKey key := by decide
  have hread := read?_forged s hfirst hlines hname hkeys
  have hrow : ("activeBackground".toList, .slot .surfacesTertiary) ∈
      (titleBarRows : List (PaintRow Float)) := List.mem_cons_self
  have hclosing := values_closing s hrow
  refine ⟨_, _, file?_render scheme s, hread, ?_, fun h => ?_, fun h => h.not_mem hbreak⟩
  · rw [forgedSections, Ini.values_append, Ini.values_eq_nil (not_mem_opening s), List.nil_append]
    exact congrArg (("0,0,0" : Text) :: ·) hclosing
  · have hlength := congrArg List.length h.headers
    simp [forgedSections, opening, closing, areas, headers, outline] at hlength

end ThemeTokens.Plasma
