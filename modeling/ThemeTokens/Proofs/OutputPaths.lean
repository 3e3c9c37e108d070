import ThemeTokens.Proofs.Plasma
import ThemeTokens.Proofs.Targets

/-!
# Where outputs are put

Every text is put in a fixed directory with a fixed extension, and only its stem may come from the
name of the scheme. A stem is a plain word, so no name leads out of its directory, and what refers
to a file by its stem or path refers to the file that was written. The one exception is a line that
a break in the name of the scheme adds to the file of Plasma: it can refer to any other file.
-/
namespace ThemeTokens

/-! ## Stems -/

namespace SchemeName

/-- An ASCII letter or digit, an underscore or a dash. -/
def IsPlain (c : Char) : Prop :=
  ('A' ≤ c ∧ c ≤ 'Z') ∨ ('a' ≤ c ∧ c ≤ 'z') ∨ ('0' ≤ c ∧ c ≤ '9') ∨ c = '_' ∨ c = '-'

instance : DecidablePred IsPlain := fun _ => inferInstanceAs (Decidable (_ ∨ _))

structure IsStem (t : Text) : Prop where
  ne_nil : t ≠ []
  plain : ∀ c ∈ t, IsPlain c
  named : ∃ c ∈ t, c ≠ '-'

theorem isStemChar_iff (c : Char) : isStemChar c = true ↔ IsPlain c := by
  have hupper : c.isUpper = true ↔ 'A' ≤ c ∧ c ≤ 'Z' := decide_eq_true_iff
  have hlower : c.isLower = true ↔ 'a' ≤ c ∧ c ≤ 'z' :=
    Bool.and_eq_true_iff.trans (and_congr decide_eq_true_iff decide_eq_true_iff)
  have hdigit : c.isDigit = true ↔ '0' ≤ c ∧ c ≤ '9' :=
    Bool.and_eq_true_iff.trans (and_congr decide_eq_true_iff decide_eq_true_iff)
  have halphanum : c.isAlphanum = (c.isUpper || c.isLower || c.isDigit) := rfl
  rw [isStemChar, halphanum]
  simp only [Bool.or_eq_true, beq_iff_eq, hupper, hlower, hdigit, or_assoc]
  rfl

theorem not_isBlank {c : Char} (h : IsPlain c) : isBlank c = false := by
  have hpoints : ∀ n ∈ Text.blankPoints, isStemChar (Char.ofNat n) = false := by decide
  refine Bool.eq_false_iff.2 fun hblank => ?_
  have hfalse := Text.eq_false_of_isBlank hpoints hblank
  rw [(isStemChar_iff c).2 h] at hfalse
  cases hfalse

theorem isStem_stem (name : Text) : IsStem (stem name) := by
  have hplain : ∀ c ∈ stem name, IsPlain c := fun c hc =>
    (isStemChar_iff c).1 (Plasma.isStemChar_stem name c hc)
  have hnamed : ∃ c ∈ stem name, c ≠ '-' := by
    rw [stem]
    split
    · exact ⟨'T', by decide, by decide⟩
    · next hdashes =>
      rw [List.all_eq_true] at hdashes
      push Not at hdashes
      obtain ⟨c, hc, hdash⟩ := hdashes
      exact ⟨c, hc, fun heq => hdash (beq_iff_eq.2 heq)⟩
  exact ⟨List.ne_nil_of_mem hnamed.choose_spec.1, hplain, hnamed⟩

/-- A name with a character that stays and is no dash keeps all characters that are not blank, some
of them as dashes. -/
theorem stem_eq_map {name : Text} {c : Char} (hc : c ∈ name) (hplain : IsPlain c)
    (hdash : c ≠ '-') : stem name = (name.filter (!isBlank ·)).map stemChar := by
  have hkept : c ∈ name.filter (!isBlank ·) :=
    List.mem_filter.2 ⟨hc, by rw [not_isBlank hplain, Bool.not_false]⟩
  have hsame : stemChar c = c := if_pos ((isStemChar_iff c).2 hplain)
  rw [stem]
  refine if_neg fun hdashes => hdash ?_
  have hall := List.all_eq_true.1 hdashes (stemChar c) (List.mem_map_of_mem hkept)
  rwa [hsame, beq_iff_eq] at hall

theorem filter_stem {t : Text} (h : IsStem t) : t.filter (!isBlank ·) = t :=
  List.filter_eq_self.2 fun c hc => by rw [not_isBlank (h.plain c hc), Bool.not_false]

/-- A stem is its own stem. -/
theorem stem_eq_self {t : Text} (h : IsStem t) : stem t = t := by
  have hsame : t.map stemChar = t :=
    (List.map_congr_left fun c hc => if_pos ((isStemChar_iff c).2 (h.plain c hc))).trans
      (List.map_id t)
  obtain ⟨c, hc, hdash⟩ := h.named
  rw [stem_eq_map hc (h.plain c hc) hdash, filter_stem h, hsame]

end SchemeName

/-! ## Places -/

/-- A path below the root: directories, and a file with a stem and an extension. -/
structure Place where
  directories : List Text
  stem : Text
  extension : Text
  deriving DecidableEq, Repr

namespace Place

def file (p : Place) : Text := p.stem ++ "." ++ p.extension

def path (p : Place) : Text := p.directories.flatMap (· ++ "/".toList) ++ p.file

/-- What is left of a path without a separator. -/
def components (p : Place) : List Text := p.directories ++ [p.file]

/-- A path of plain words. -/
structure IsSafe (p : Place) : Prop where
  isStem : SchemeName.IsStem p.stem
  split : p.path.split '/' = p.components
  plain : ∀ part ∈ p.components, ∀ c ∈ part, SchemeName.IsPlain c ∨ c = '.'
  proper : ∀ part ∈ p.components, part ≠ [] ∧ part ≠ ['.'] ∧ part ≠ ['.', '.']

theorem path_of_literals {p : Place} {before after : Text}
    (hbefore : before = p.directories.flatMap (· ++ "/".toList))
    (hafter : after = "." ++ p.extension) : before ++ p.stem ++ after = p.path := by
  rw [hbefore, hafter, path, file, List.append_assoc, List.append_assoc]

theorem split_path {p : Place} (h : ∀ part ∈ p.components, '/' ∉ part) :
    p.path.split '/' = p.components := by
  obtain ⟨hdirectories, hfile⟩ := List.forall_mem_append.1 h
  rw [path, components]
  generalize p.directories = directories at hdirectories ⊢
  induction directories with
  | nil => exact Text.split_of_not_mem (hfile _ List.mem_cons_self)
  | cons d rest ih =>
    obtain ⟨hd, hrest⟩ := List.forall_mem_cons.1 hdirectories
    rw [List.flatMap_cons, List.append_assoc, List.append_assoc]
    exact (Text.split_append hd _).trans (congrArg (d :: ·) (ih hrest))

/-- What is fixed in a path is plain too: the directories, of which there are some, and the
extension. -/
structure IsPlainShape (directories : List Text) (extension : Text) : Prop where
  ne_nil : directories ≠ []
  extension : ∀ c ∈ extension, SchemeName.IsPlain c
  directory : ∀ d ∈ directories,
    (∀ c ∈ d, SchemeName.IsPlain c ∨ c = '.') ∧ d ≠ [] ∧ d ≠ ['.'] ∧ d ≠ ['.', '.']

instance (directories : List Text) (extension : Text) :
    Decidable (IsPlainShape directories extension) :=
  decidable_of_iff (directories ≠ [] ∧ extension.all (SchemeName.IsPlain ·) ∧
    ∀ d ∈ directories,
      d.all (fun c => SchemeName.IsPlain c ∨ c = '.') ∧ d ≠ [] ∧ d ≠ ['.'] ∧ d ≠ ['.', '.'])
    (by
      simp only [List.all_iff_forall_prop]
      exact ⟨fun h => ⟨h.1, h.2.1, h.2.2⟩, fun h => ⟨h.ne_nil, h.extension, h.directory⟩⟩)

/-- The stem keeps the file from being a reference to a directory. -/
theorem isSafe_of {p : Place} (hstem : SchemeName.IsStem p.stem)
    (hshape : IsPlainShape p.directories p.extension) : p.IsSafe := by
  have hslash : ¬ SchemeName.IsPlain '/' := by decide
  have hdot : ¬ SchemeName.IsPlain '.' := by decide
  have hfile : ∀ c ∈ p.file, SchemeName.IsPlain c ∨ c = '.' := by
    simp only [file, List.forall_mem_append]
    exact ⟨⟨fun c hc => .inl (hstem.plain c hc), fun c hc => .inr (List.mem_singleton.1 hc)⟩,
      fun c hc => .inl (hshape.extension c hc)⟩
  have hplain : ∀ part ∈ p.components, ∀ c ∈ part, SchemeName.IsPlain c ∨ c = '.' :=
    List.forall_mem_append.2 ⟨fun d hd => (hshape.directory d hd).1,
      List.forall_mem_singleton.2 hfile⟩
  have hhead : ∀ rest : Text, p.file ≠ '.' :: rest := by
    obtain ⟨c, t, ht⟩ := List.exists_cons_of_ne_nil hstem.ne_nil
    intro rest heq
    rw [file, ht] at heq
    cases heq
    exact hdot (hstem.plain '.' (ht ▸ List.mem_cons_self))
  refine ⟨hstem, split_path fun part hpart hmem => ?_, hplain, List.forall_mem_append.2
    ⟨fun d hd => (hshape.directory d hd).2, List.forall_mem_singleton.2 ⟨?_, hhead _, hhead _⟩⟩⟩
  · exact (hplain part hpart '/' hmem).elim hslash (by decide)
  · exact List.append_ne_nil_of_left_ne_nil (List.append_ne_nil_of_left_ne_nil hstem.ne_nil _) _

end Place

namespace Target

/-- The directories and extensions of the outputs of a target. -/
def shapes : Target → List (List Text × Text)
  | gtk => [(["gtk-3.0"], "css"), (["gtk-4.0"], "css")]
  | kde => [(["color-schemes"], "colors")]
  | qtct => [(["qt5ct", "colors"], "conf"), (["qt6ct", "colors"], "conf")]
  | tokens => [(["tokens"], "json")]

/-- The stem of all outputs of a target. -/
def stem (scheme : Text) : Target → Text
  | gtk => "gtk"
  | kde | qtct => SchemeName.stem scheme
  | tokens => "tokens"

/-- The places of the outputs of a target, of which only the stem may depend on the scheme. -/
def places (scheme : Text) (target : Target) : List Place :=
  target.shapes.map fun shape => ⟨shape.1, target.stem scheme, shape.2⟩

theorem isStem_stem (scheme : Text) (target : Target) :
    SchemeName.IsStem (target.stem scheme) := by
  have hgtk : SchemeName.IsStem "gtk" :=
    ⟨by decide, List.all_iff_forall_prop.1 (by decide), 'g', by decide, by decide⟩
  have htokens : SchemeName.IsStem "tokens" :=
    ⟨by decide, List.all_iff_forall_prop.1 (by decide), 't', by decide, by decide⟩
  cases target with
  | gtk => exact hgtk
  | kde | qtct => exact SchemeName.isStem_stem scheme
  | tokens => exact htokens

theorem isPlainShape : ∀ target ∈ all, ∀ shape ∈ target.shapes,
    Place.IsPlainShape shape.1 shape.2 := by decide

/-- No two targets share a directory below the root. -/
theorem head?_ne : ∀ target ∈ all, ∀ other ∈ all, target ≠ other →
    ∀ shape ∈ target.shapes, ∀ shape' ∈ other.shapes, shape.1.head? ≠ shape'.1.head? := by decide

theorem isSafe_places (target : Target) (scheme : Text) : ∀ p ∈ target.places scheme, p.IsSafe :=
  List.forall_mem_map.2 fun shape hshape =>
    Place.isSafe_of (isStem_stem scheme target) (isPlainShape target (mem_all target) shape hshape)

end Target

section
variable {R : Type} [Number R] (scheme : Text) (s : Schema R)

theorem plasma_path : Plasma.path scheme =
    Place.path ⟨["color-schemes"], SchemeName.stem scheme, "colors"⟩ :=
  Place.path_of_literals (p := ⟨["color-schemes"], SchemeName.stem scheme, "colors"⟩) rfl rfl

theorem qt5_path : QtPalette.qt5Path scheme =
    Place.path ⟨["qt5ct", "colors"], SchemeName.stem scheme, "conf"⟩ :=
  Place.path_of_literals (p := ⟨["qt5ct", "colors"], SchemeName.stem scheme, "conf"⟩) rfl rfl

theorem qt6_path : QtPalette.qt6Path scheme =
    Place.path ⟨["qt6ct", "colors"], SchemeName.stem scheme, "conf"⟩ :=
  Place.path_of_literals (p := ⟨["qt6ct", "colors"], SchemeName.stem scheme, "conf"⟩) rfl rfl

theorem qt5Path_lt_qt6Path : QtPalette.qt5Path scheme < QtPalette.qt6Path scheme :=
  List.Lex.cons (List.Lex.cons (List.Lex.rel (by decide)))

theorem Target.paths_render (target : Target) :
    (target.render scheme s).paths = (target.places scheme).map Place.path := by
  have hpair {p q : Text} (h : p < q) (t u : Text) :
      Keyed.keys (Keyed.ofList [(p, t), (q, u)]) = [p, q] := by
    rw [Keyed.Sorted.ofList_eq (List.pairwise_pair.2 h)]
    rfl
  cases target with
  | gtk =>
    have hlt : Stylesheet.gtk3Path < Stylesheet.gtk4Path := by decide
    exact hpair hlt _ _
  | kde => exact congrArg (fun path => [path]) (plasma_path scheme)
  | qtct =>
    refine (hpair (qt5Path_lt_qt6Path scheme) _ _).trans ?_
    rw [qt5_path, qt6_path]
    rfl
  | tokens => rfl

end

namespace Target

theorem disjoint_paths {R : Type} [Number R] {target other : Target} (h : target ≠ other)
    (scheme scheme' : Text) (s s' : Schema R) :
    List.Disjoint (target.render scheme s).paths (other.render scheme' s').paths := by
  intro path hpath hpath'
  rw [paths_render, places, List.map_map] at hpath hpath'
  obtain ⟨shape, hshape, rfl⟩ := List.mem_map.1 hpath
  obtain ⟨shape', hshape', hsame⟩ := List.mem_map.1 hpath'
  have hcomponents := congrArg (Text.split '/') hsame
  have hsafe := isSafe_places target scheme _ (List.mem_map_of_mem hshape)
  have hsafe' := isSafe_places other scheme' _ (List.mem_map_of_mem hshape')
  rw [Function.comp_apply, Function.comp_apply, hsafe.split, hsafe'.split] at hcomponents
  have hne := (isPlainShape target (mem_all target) shape hshape).ne_nil
  have hne' := (isPlainShape other (mem_all other) shape' hshape').ne_nil
  have hhead := congrArg List.head? hcomponents
  rw [Place.components, Place.components, List.head?_append_of_ne_nil _ hne',
    List.head?_append_of_ne_nil _ hne] at hhead
  exact head?_ne target (mem_all target) other (mem_all other) h shape hshape shape' hshape'
    hhead.symm

end Target

/-! ## Names of outputs in outputs -/

namespace Plasma
variable {R : Type} [Number R] (scheme : Text) (s : Schema R)

theorem valueOf?_around {sec : Ini.Section} (h : sec ∈ opening s ++ closing s) :
    ∀ line ∈ sec.lines, Ini.valueOf? "ColorScheme" line = none := by
  have houtline : (opening s ++ closing s).map (fun sec => Keyed.keys sec.entries) =
      (outline.take 9 ++ outline.drop 10).map Prod.snd := rfl
  have hkey : ∀ keys ∈ (outline.take 9 ++ outline.drop 10).map Prod.snd,
      "ColorScheme".toList ∉ keys := by decide
  rw [← houtline] at hkey
  exact Ini.Section.valueOf?_eq_none (by decide)
    (keys_sections [] s sec (mem_sections [] s h)) (List.forall_mem_map.1 hkey sec h)

theorem valueOf?_linesBefore : ∀ line ∈ linesBefore s, Ini.valueOf? "ColorScheme" line = none := by
  refine List.forall_mem_append.2 ⟨fun line hline => ?_, by decide⟩
  rcases Ini.mem_layout line hline with rfl | ⟨sec, hsec, hline⟩
  · rfl
  · exact valueOf?_around s (List.mem_append_left _ hsec) line hline

theorem valueOf?_linesAfter : ∀ line ∈ linesAfter s, Ini.valueOf? "ColorScheme" line = none := by
  refine List.forall_mem_cons.2 ⟨by decide, fun line hline => ?_⟩
  obtain ⟨sec, hsec, hline⟩ := List.mem_flatMap.1 hline
  rcases List.mem_cons.1 hline with rfl | hline
  · rfl
  · exact valueOf?_around s (List.mem_append_right _ hsec) line hline

/-- The values that the lines of a text give to the key, which name colour schemes. -/
def schemeValues (text : Text) : List Text :=
  (Ini.lines text).filterMap (Ini.valueOf? "ColorScheme")

/-- The values that the name of a scheme adds by the lines after its first. -/
def forgedValues (scheme : Text) : List Text :=
  (scheme.trim.split '\n').tail.filterMap (Ini.valueOf? "ColorScheme")

theorem schemeValues_sections : schemeValues (Ini.text (sections scheme s)) =
    SchemeName.stem scheme :: forgedValues scheme := by
  obtain ⟨first, rest, hsplit⟩ := Text.exists_split '\n' scheme.trim
  have hname : Text.split '\n' ("Name=" ++ scheme.trim) = ("Name=" ++ first) :: rest :=
    Text.split_append_of_split (by decide) hsplit
  have hstem : Ini.valueOf? "ColorScheme" ("ColorScheme=" ++ SchemeName.stem scheme) =
      some (SchemeName.stem scheme) :=
    (Ini.valueOf?_entryText (show '=' ∉ "ColorScheme".toList by decide) _ _).trans (if_pos rfl)
  have hfirst : Ini.valueOf? "ColorScheme" ("Name=" ++ first) = none :=
    (Ini.valueOf?_entryText (show '=' ∉ "Name".toList by decide) _ _).trans (if_neg (by decide))
  rw [schemeValues, lines_sections, List.filterMap_append, List.filterMap_cons_some hstem,
    List.filterMap_append, hname, List.filterMap_cons_none hfirst, forgedValues, hsplit,
    List.filterMap_eq_nil_iff.2 (valueOf?_linesBefore s),
    List.filterMap_eq_nil_iff.2 (valueOf?_linesAfter s), List.append_nil, List.nil_append,
    List.tail_cons]

/-- The stem keeps the key of such a line beside its value, so it is longer than the value. -/
theorem stem_ne_of_mem_forgedValues {value : Text} (h : value ∈ forgedValues scheme) :
    SchemeName.stem scheme ≠ value := by
  obtain ⟨line, hline, hvalue⟩ := List.mem_filterMap.1 h
  have hsublist : (Ini.entryText ("ColorScheme", value)).Sublist scheme := by
    rw [← Ini.entryText_of_valueOf? hvalue]
    exact (Text.sublist_of_mem_split (List.mem_of_mem_tail hline)).trans (Text.trim_sublist scheme)
  have hletter : 'C' ∈ scheme := hsublist.mem List.mem_cons_self
  have hstem := congrArg List.length (SchemeName.stem_eq_map hletter (by decide) (by decide))
  have hkept := (hsublist.filter (!isBlank ·)).length_le
  have hkey : "ColorScheme".toList.filter (!isBlank ·) = "ColorScheme".toList := by decide
  rintro rfl
  have hvalue := SchemeName.filter_stem (SchemeName.isStem_stem scheme)
  rw [Ini.entryText, List.filter_append, hkey, List.filter_cons_of_pos (by decide), hvalue,
    List.length_append, List.length_cons] at hkept
  rw [List.length_map] at hstem
  omega

/-- The file that a value of the key refers to. -/
def schemeFile (value : Text) : Text := "color-schemes/" ++ value ++ ".colors"

theorem schemeFile_inj {value value' : Text} (h : schemeFile value = schemeFile value') :
    value = value' :=
  List.append_cancel_left (List.append_cancel_right h)

/-- An output of one file, which the setting and the first line below a header name. -/
structure Names (o : Output) (stem text : Text) : Prop where
  setting : o.settings.get? "ColorScheme" = some stem
  file : o.files = [(schemeFile stem, text)]
  line : ∃ before after, Ini.lines text =
    before ++ "[General]".toList :: ("ColorScheme=" ++ stem) :: after

/-- The file is the only one that the output names. -/
structure NamesFile (o : Output) (stem text : Text) : Prop extends Names o stem text where
  values : schemeValues text = [stem]

theorem names : Names (output scheme s) (SchemeName.stem scheme)
    (Ini.text (sections scheme s)) where
  setting := rfl
  file := rfl
  line := by
    refine ⟨Ini.layout (opening s) ++ [[]],
      Text.split '\n' ("Name=" ++ scheme.trim) ++ linesAfter s, ?_⟩
    rw [lines_sections, linesBefore, List.append_assoc, List.append_assoc]
    rfl

theorem schemeFile_not_mem {value : Text} (h : value ∈ forgedValues scheme) :
    schemeFile value ∉ (output scheme s).paths := by
  intro hmem
  rw [Output.paths, (names scheme s).file] at hmem
  exact stem_ne_of_mem_forgedValues scheme h (schemeFile_inj (List.mem_singleton.1 hmem)).symm

theorem exists_namesFile_iff :
    (∃ stem text, NamesFile (output scheme s) stem text) ↔ forgedValues scheme = [] := by
  have hvalues := schemeValues_sections scheme s
  have hnames := names scheme s
  constructor
  · rintro ⟨stem, text, h⟩
    obtain ⟨-, rfl⟩ := Prod.mk.inj (List.singleton_inj.1 (hnames.file.symm.trans h.file))
    have hsame := h.values
    rw [hvalues] at hsame
    exact (List.cons_eq_cons.1 hsame).2
  · intro h
    rw [h] at hvalues
    exact ⟨_, _, hnames, hvalues⟩

end Plasma

namespace QtPalette

/-- The settings that name the files of the two programs. -/
structure NamesFiles (o : Output) (first second : Text) : Prop where
  qt5 : o.settings.get? "color_scheme_path" = some first
  qt6 : o.settings.get? "qt6ct_color_scheme_path" = some second
  paths : o.paths = [first, second]

theorem namesFiles {R : Type} [Number R] (scheme : Text) (s : Schema R) :
    NamesFiles (output scheme s) (qt5Path scheme) (qt6Path scheme) where
  qt5 := rfl
  qt6 := rfl
  paths := by
    have hpaths := Target.paths_render scheme s .qtct
    rw [Target.places, Target.shapes] at hpaths
    rw [qt5_path, qt6_path]
    exact hpaths

end QtPalette

/-- How the outputs for a scheme are named, and how outputs name each other. -/
structure Named {R : Type} [Number R] (scheme : Text) (s : Schema R) : Prop where
  isStem : SchemeName.IsStem (SchemeName.stem scheme)
  stem_stem : SchemeName.stem (SchemeName.stem scheme) = SchemeName.stem scheme
  paths : ∀ target : Target,
    (target.render scheme s).paths = (target.places scheme).map Place.path
  safe : ∀ target : Target, ∀ p ∈ target.places scheme, p.IsSafe
  disjoint : ∀ target other : Target, target.name ≠ other.name →
    ∀ (scheme' : Text) (s' : Schema R),
      List.Disjoint (target.render scheme s).paths (other.render scheme' s').paths
  /-- What names another scheme comes from a break in the name, and no file is called so. -/
  plasma : ∃ stem text, Plasma.Names (Target.kde.render scheme s) stem text ∧
    Plasma.schemeValues text = stem :: Plasma.forgedValues scheme ∧
    ∀ value ∈ Plasma.forgedValues scheme,
      Plasma.schemeFile value ∉ (Target.kde.render scheme s).paths
  /-- No other scheme is named if and only if no line after a break in the name has the key. -/
  plasma_iff : (∃ stem text, Plasma.NamesFile (Target.kde.render scheme s) stem text) ↔
    ∀ line ∈ (scheme.trim.split '\n').tail, Ini.valueOf? "ColorScheme" line = none
  qtPalette : ∃ first second, QtPalette.NamesFiles (Target.qtct.render scheme s) first second

theorem outputs_named {R : Type} [Number R] (scheme : Text) (s : Schema R) : Named scheme s where
  isStem := SchemeName.isStem_stem scheme
  stem_stem := SchemeName.stem_eq_self (SchemeName.isStem_stem scheme)
  paths := Target.paths_render scheme s
  safe target := Target.isSafe_places target scheme
  disjoint _ _ h scheme' s' :=
    Target.disjoint_paths (fun heq => h (congrArg Target.name heq)) scheme scheme' s s'
  plasma := ⟨_, _, Plasma.names scheme s, Plasma.schemeValues_sections scheme s,
    fun _ => Plasma.schemeFile_not_mem scheme s⟩
  plasma_iff := (Plasma.exists_namesFile_iff scheme s).trans List.filterMap_eq_nil_iff
  qtPalette := ⟨_, _, QtPalette.namesFiles scheme s⟩

/-- A name that would lead out of the directory. -/
theorem outputs_named_escaping :
    let s : Schema Float := Preset.reference .dark
    let scheme : Text := "../../etc\tpasswd"
    (Target.kde.render scheme s).paths = ["color-schemes/------etcpasswd.colors".toList] ∧
      List.Disjoint (Target.kde.render scheme s).paths (Target.qtct.render [] s).paths := by
  intro s scheme
  have h := outputs_named scheme s
  exact ⟨(h.paths .kde).trans (by decide), h.disjoint .kde .qtct (by decide) [] s⟩

/-- A name can give the key a second value, which no file of the output is called by. -/
theorem forged_colorScheme :
    let s : Schema Float := Preset.reference .dark
    let o := Target.kde.render "Night\nColorScheme=evil" s
    ∃ text, o.files = [("color-schemes/NightColorScheme-evil.colors".toList, text)] ∧
      Plasma.schemeValues text = ["NightColorScheme-evil".toList, "evil".toList] ∧
      "color-schemes/evil.colors".toList ∉ o.paths ∧
      ¬ ∃ stem text, Plasma.NamesFile o stem text := by
  intro s o
  let scheme : Text := "Night\nColorScheme=evil"
  have hforged : Plasma.forgedValues scheme = ["evil".toList] := by decide
  have hevil : "evil".toList ∈ Plasma.forgedValues scheme := by
    rw [hforged]
    exact List.mem_cons_self
  have hfile : Plasma.schemeFile "evil" ∉ o.paths := Plasma.schemeFile_not_mem scheme s hevil
  have hvalues := Plasma.schemeValues_sections scheme s
  rw [hforged] at hvalues
  refine ⟨_, (Plasma.names scheme s).file, hvalues, hfile, fun h => ?_⟩
  rw [(Plasma.exists_namesFile_iff scheme s).1 h] at hforged
  cases hforged

end ThemeTokens
