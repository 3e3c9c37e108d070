import ThemeTokens.Proofs.Declaration
import ThemeTokens.Proofs.Finalize
import ThemeTokens.Proofs.Legibility
import ThemeTokens.Proofs.Recognition

/-!
# Text for a declared window

A theme that declares nothing but its window gets its text from a palette: dark text on a window of
at least half the luminance, and light text on any other. Dark text is then always readable. Light
text is only ever made lighter, so on a window of medium luminance it is readable exactly where
white is.
-/
namespace ThemeTokens

/-! ## Drafts with a window -/

section
variable {R : Type} [Number R]

/-- Completing a draft keeps what was declared. -/
theorem Draft.color_complete {d : Draft R} {slot : ColorSlot} {c : Color R}
    (h : d.color slot = some c) : d.complete.color slot = c := by
  rw [complete, Table.color_ofFn, h]
  rfl

theorem Format.parse_declarations {source : Text} {d : Draft R} {c : Color R}
    (h : Declaration.readDraft source = .ok d) (hd : d.color .surfacesPrimary = some c)
    (policy : Policy R) (label : Option Text) :
    Format.declarations.parse policy label source =
      .ok (Schema.finalize d.complete policy label) := by
  have hne : d.isEmpty = false := by
    rw [Draft.isEmpty, ColorSlot.all, List.all_cons, hd]
    rfl
  exact parse_eq_ok.2 ⟨d, h, hne, rfl⟩

end

/-! ## The draft of a window alone -/

section
variable {R : Type}

/-- What a theme declares that declares only its window. -/
def Draft.window (c : Color R) : Draft R := Draft.empty.setColor .surfacesPrimary c

theorem Draft.color_window (c : Color R) (s : ColorSlot) :
    (window c).color s = if s = .surfacesPrimary then some c else none := by
  rw [window, setColor, Table.color_putColor, empty, Table.color_ofFn]

theorem Draft.window_surfacesPrimary (c : Color R) :
    (window c).color .surfacesPrimary = some c := by
  rw [color_window, if_pos rfl]

variable [Number R]

theorem Draft.accent_window (c : Color R) : (window c).accent = fallbackAccent := by
  simp only [accent, color_window, reduceCtorEq, if_false, Option.none_or, Option.getD_none]

theorem Draft.complete_surfacesPrimary (c : Color R) :
    (window c).complete.color .surfacesPrimary = c :=
  color_complete (window_surfacesPrimary c)

theorem Draft.complete_contentPrimary (c : Color R) :
    (window c).complete.color .contentPrimary =
      (Palette.tokens fallbackAccent (window c).variant).color .contentPrimary := by
  rw [complete, Table.color_ofFn, color_window, accent_window]
  simp only [Basis.derived?, basis, color_window, reduceCtorEq, if_false, Option.getD_none,
    Option.getD_some]

/-- The slots of the pair that makes the main text readable. -/
def EnforcedPair.text : EnforcedPair := ⟨.contentPrimary, .surfacesPrimary⟩

theorem EnforcedPair.text_mem_all : text ∈ all := by decide

end

/-- What a theme that declares only its window makes of it. -/
structure Schema.OnWindow {R : Type} [Number R] (c : Color R) (s : Schema R) : Prop where
  window : s.color .surfacesPrimary = c
  /-- The text is dark on a light window. On a dark one it reaches what white reaches. -/
  readable : 4.5 ≤ Contrast.ratio (s.color .contentPrimary) (s.color .surfacesPrimary) ↔
    0.5 ≤ c.luminance ∨ 4.5 ≤ Contrast.ratio Color.white c
  reported : ¬ 4.5 ≤ Contrast.ratio (s.color .contentPrimary) (s.color .surfacesPrimary) →
    ∃ w ∈ s.warnings, EnforcedPair.text.line <+: w.message

/-! ## Readable windows -/

section
open Binary64 Double Declaration Transfer
variable {lib : Elementary} (r g b : UInt8)

theorem surface_window : (Draft.window (Color.solid r g b : Color (Double lib))).surface =
    Color.solid r g b := by
  have halpha : Number.clampOr (1.0 : Double lib) 1.0 = 1.0 := by
    refine clampOr_of_mem 1.0 ?_ ((Double.le_iff finite_one finite_one).2 le_rfl)
    rw [Double.le_iff finite_zero finite_one, toReal_zero, toReal_one]
    exact zero_le_one
  simp only [Draft.surface, Draft.color_window, if_true, Option.some_or, Color.withAlpha,
    Color.solid, halpha]

/-- The text of a light theme is readable on every window that makes a theme light. -/
theorem meets_ink (acc : lib.Accurate) {hue : Double lib} (hh : Finite hue ∧ |toReal hue| ≤ 800)
    {window : Color (Double lib)} (hlight : 0.5 ≤ window.luminance) :
    Contrast.meets (Palette.tone 0.22 0.01 hue) window 4.5 = true := by
  have hnear := near_luminance acc window
  rw [Double.le_iff finite_half hnear.finite, toReal_half] at hlight
  have hwindow : 0.49 ≤ window.light := by
    have hle := hnear.le
    norm_num at hle ⊢
    linarith
  exact (meets_text_of_light acc hwindow (ink_mem acc hh).2 (by norm_num)).2

theorem light_le_of_dark (acc : lib.Accurate) {window : Color (Double lib)}
    (hdark : window.luminance < 0.5) : window.light ≤ 0.51 := by
  have hnear := near_luminance acc window
  rw [Double.lt_iff hnear.finite finite_half, toReal_half] at hdark
  have hge := hnear.ge
  norm_num at hge ⊢
  linarith

theorem meets_window_text (acc : lib.Accurate) (label : Option Text) :
    Contrast.meets ((Schema.finalize (Draft.window (Color.solid r g b)).complete
        (Policy.standard : Policy (Double lib)) label).color .contentPrimary)
      (Color.solid r g b) 4.5 = true ↔
    0.5 ≤ (Color.solid r g b : Color (Double lib)).luminance ∨
      Contrast.meets Color.white (Color.solid r g b : Color (Double lib)) 4.5 = true := by
  set c : Color (Double lib) := Color.solid r g b with hc
  have hh := hue_toOklch_mem acc (Color.withAlpha (Draft.fallbackAccent : Color (Double lib)) 1.0)
  have hluminance := (near_luminance acc c).finite
  have hslot : ColorSlot.contentPrimary ∈ Palette.contentOnSurface := by decide
  rw [Schema.finalize_content _ _ _ hslot, Draft.complete_contentPrimary,
    Draft.complete_surfacesPrimary, tokens_contentPrimary acc, Draft.variant, hc, surface_window,
    ← hc, Variant.ofSurface]
  by_cases hdark : c.luminance < 0.5
  · have hlight : ¬ 0.5 ≤ c.luminance := fun h => (Double.not_lt_iff_le
      hluminance.isNaN_eq_false finite_half.isNaN_eq_false).2 h hdark
    rw [if_pos hdark, or_iff_right hlight]
    exact meets_ensure_iff acc (pale_text acc hh) near_textRatio.finite (light_le_of_dark acc hdark)
  · have hlight : 0.5 ≤ c.luminance :=
      (Double.not_lt_iff_le hluminance.isNaN_eq_false finite_half.isNaN_eq_false).1 hdark
    have hmeets := meets_ink acc hh hlight
    rw [if_neg hdark]
    refine iff_of_true ?_ (Or.inl hlight)
    exact (congrArg (Contrast.meets · c 4.5) (Contrast.ensure_of_meets hmeets)).trans hmeets

theorem onWindow_finalize (acc : lib.Accurate) (label : Option Text) :
    Schema.OnWindow (Color.solid r g b : Color (Double lib))
      (Schema.finalize (Draft.window (Color.solid r g b)).complete Policy.standard label) where
  window := by rw [Schema.finalize_surfacesPrimary, Draft.complete_surfacesPrimary]
  readable := by
    have h := meets_window_text r g b acc label
    rw [Contrast.meets, Contrast.meets, decide_eq_true_eq, decide_eq_true_eq] at h
    rw [Schema.finalize_surfacesPrimary, Draft.complete_surfacesPrimary]
    exact h
  reported h := by
    refine (line_mem_warnings Policy.standard _ EnforcedPair.text_mem_all).2 ?_
    exact (ratio_lt_iff_not_meets acc _ _ near_textRatio.finite.isNaN_eq_false).2
      (decide_eq_false h)

/-- The name that a theme most often declares its window by. -/
def windowName : Text := "window_bg_color"

theorem readDraft_window :
    readDraft (colorSource windowName (Color.solid r g b : Color (Double lib))) =
      .ok (Draft.window (Color.solid r g b : Color (Double lib))) := by
  refine readDraft_colorSource
    ⟨List.all_eq_true.1 (by decide), 'w', _, rfl, by decide⟩
    (printed_solid r g b) (fun s => ?_) fun s => ?_
  · cases s <;> decide +kernel
  · cases s <;> decide +kernel

/-- Every source that declares only its window gives a theme whose text is readable, unless the
window is dark and even white is not readable on it. Then the theme says so. -/
theorem readable_window (acc : lib.Accurate) (label : Option Text) :
    readDraft (colorSource windowName (Color.solid r g b : Color (Double lib))) =
      .ok (Draft.window (Color.solid r g b : Color (Double lib))) ∧
    ∀ source, readDraft source = .ok (Draft.window (Color.solid r g b : Color (Double lib))) →
      ∃ s, Format.declarations.parse (Policy.standard : Policy (Double lib)) label source = .ok s ∧
        Schema.OnWindow (Color.solid r g b) s :=
  ⟨readDraft_window r g b, fun _ hsource =>
    ⟨_, Format.parse_declarations hsource (Draft.window_surfacesPrimary _) _ _,
      onWindow_finalize r g b acc label⟩⟩

theorem readable_window_violet : Elementary.rounded.Accurate ∧
    ∃ s, Format.declarations.parse (Policy.standard : Policy (Double .rounded)) none
      (colorSource windowName (Color.solid 0x3D 0x38 0x46 : Color (Double .rounded))) = .ok s ∧
      Schema.OnWindow (Color.solid 0x3D 0x38 0x46) s :=
  ⟨Elementary.accurate_rounded,
    (readable_window 0x3D 0x38 0x46 Elementary.accurate_rounded none).2 _
      (readDraft_window 0x3D 0x38 0x46)⟩

/-! ## A window of medium luminance -/

theorem light_grey_mem : light 128 ∈ Set.Icc 0.2 0.28 := by
  have hnat : (128 : UInt8).toNat = 128 := rfl
  rw [light, decoded, hnat, if_neg (by norm_num)]
  set u : ℝ := ((128 : ℕ) / 255 + 0.055) / 1.055 with hu
  have hu0 : 0.5278 ≤ u := by
    rw [hu]
    norm_num
  have hu1 : u ≤ 0.528 := by
    rw [hu]
    norm_num
  have hpos : 0 < u := lt_of_lt_of_le (by norm_num) hu0
  constructor
  · have hroot : 0.2 ≤ u ^ (((5 : ℕ) : ℝ) / (2 : ℕ)) := by
      refine le_rpow_of_pow_le (by norm_num) hpos.le (by norm_num) ?_
      calc (0.2 : ℝ) ^ 2 ≤ 0.5278 ^ 5 := by norm_num
        _ ≤ u ^ 5 := by gcongr
    exact hroot.trans (Real.rpow_le_rpow_of_exponent_ge hpos (hu1.trans (by norm_num))
      (by norm_num))
  · calc u ^ (2.4 : ℝ) ≤ u ^ (2 : ℝ) :=
          Real.rpow_le_rpow_of_exponent_ge hpos (hu1.trans (by norm_num)) (by norm_num)
      _ = u ^ 2 := Real.rpow_two u
      _ ≤ 0.528 ^ 2 := by gcongr
      _ ≤ 0.28 := by norm_num

/-- On medium grey not even white is readable, and dark text is not tried. -/
theorem grey_window_unreadable : ∃ s,
    Format.declarations.parse (Policy.standard : Policy (Double .rounded)) none
      "window_bg_color: #808080;" = .ok s ∧
    ¬ 4.5 ≤ Contrast.ratio (s.color .contentPrimary) (s.color .surfacesPrimary) := by
  have acc := Elementary.accurate_rounded
  set grey : Color (Double .rounded) := Color.solid 0x80 0x80 0x80 with hgrey
  have hsource : colorSource windowName grey = "window_bg_color: #808080;" := by
    have hsolid : grey.isOpaque = true := isOpaque_solid 0x80 0x80 0x80
    have hpair : Color.hexPair Color.upperDigit 0x80 = ['8', '0'] := by decide
    rw [colorSource, Color.hexText_eq, Color.hexForm, if_pos hsolid, hgrey]
    simp only [Color.solid, hpair]
    rfl
  have hread := @readDraft_window .rounded 0x80 0x80 0x80
  rw [← hgrey, hsource] at hread
  refine ⟨_, Format.parse_declarations hread (Draft.window_surfacesPrimary _) _ _, ?_⟩
  have hlight : grey.light ∈ Set.Icc 0.2 0.28 :=
    color_light_mem light_grey_mem light_grey_mem light_grey_mem
  rw [(onWindow_finalize 0x80 0x80 0x80 acc none).readable, not_or]
  have hluminance := near_luminance acc grey
  have hratio := near_ratio acc Color.white grey
  have hliteral : Near 5 slip (4.5 : Double .rounded) 4.5 :=
    near_literal (by norm_num) (by norm_num) (by norm_num) (by norm_num)
  rw [Double.le_iff finite_half hluminance.finite, toReal_half,
    Double.le_iff hliteral.finite hratio.finite]
  have hcontrast : (Color.white : Color (Double .rounded)).contrast grey ≤ 4.2 := by
    rw [contrast_of_le (by rw [light_white]; exact color_light_le_one grey), light_white,
      div_le_iff₀ (by linarith [color_light_nonneg grey])]
    have := hlight.1
    norm_num at this ⊢
    linarith
  constructor
  · have hle := hluminance.le
    have := hlight.2
    norm_num at hle this ⊢
    linarith
  · have hle := hratio.le
    have hge := hliteral.ge
    norm_num [slip] at hle hge hcontrast ⊢
    linarith

end

end ThemeTokens
