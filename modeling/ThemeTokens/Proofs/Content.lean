import ThemeTokens.Proofs.Finalize
import ThemeTokens.Proofs.Palette

/-!
# Content on the window of its palette

A palette fits its content to its own window, and finalizing does so again. All of it can be read
in the end, with one exception: the light palette takes the accent for its links, and an accent that
is lighter than paper is only ever made lighter.
-/
namespace ThemeTokens

/-! ## Accents on paper -/

namespace Double
open Binary64 Transfer Contrast
variable {lib : Elementary} {paper accent : Color (Double lib)}

/-- Two colours of which neither is dark do not contrast enough. -/
theorem not_meets_text_of_light (acc : lib.Accurate) {a b : Color (Double lib)}
    (ha : 0.2459 ≤ a.light) (hb : 0.2459 ≤ b.light) : meets a b 4.5 = false := by
  have hratio := near_ratio acc a b
  have hlit := @near_textRatio lib
  have hmin : 0.2459 ≤ min a.light b.light := le_min ha hb
  have hmax : max a.light b.light ≤ 1 := max_le (color_light_le_one a) (color_light_le_one b)
  have hcontrast : a.contrast b ≤ 4 := by
    rw [Color.contrast]
    generalize min a.light b.light = darker at hmin ⊢
    norm_num at hmin ⊢
    rw [div_le_iff₀ (by linarith)]
    linarith
  rw [meets, decide_eq_false_iff_not, le_iff hlit.finite hratio.finite, not_le]
  have hle := hratio.le
  have hge := hlit.ge
  norm_num [slip] at hle hge ⊢
  linarith

theorem light_white_of_channels {c : Color (Double lib)}
    (h : c.red = 255 ∧ c.green = 255 ∧ c.blue = 255) : c.light = 1 :=
  (Color.SameChannels.light_eq (d := Color.white) h).trans light_white

/-- Whatever the search tries shows the lightness that it was tried with. -/
theorem shows_candidate (acc : lib.Accurate) (c : Color (Double lib)) {l : Double lib}
    (hl : InUnit l) : Shows (Color.ofOklch (c.toOklch.withLightness l)) (toReal l) := by
  obtain ⟨hmuted, hlightness⟩ := muted_withLightness acc (chroma_toOklch_le acc c) hl
  exact hlightness ▸ Shows.ofOklch acc hmuted le_rfl

/-- On paper even a colour of the same luminance is made darker, as black contrasts more. -/
theorem awayFrom_eq_darken (acc : lib.Accurate) (hpaper : 0.9457 ≤ paper.light)
    (h : ¬ paper.luminance < accent.luminance) :
    Direction.awayFrom accent paper = .darken := by
  rw [Direction.awayFrom, if_neg h]
  split
  · rfl
  · refine if_neg ?_
    have hblack := near_ratio acc Color.black paper
    have hwhite := near_ratio acc Color.white paper
    have hpaper0 := color_light_nonneg paper
    have hpaper1 := color_light_le_one paper
    have hdark : 19 ≤ (Color.black : Color (Double lib)).contrast paper := by
      rw [contrast_comm, contrast_of_le (light_black.trans_le hpaper0), light_black,
        le_div_iff₀ (by norm_num)]
      norm_num at hpaper ⊢
      linarith
    have hlight : (Color.white : Color (Double lib)).contrast paper ≤ 2 := by
      rw [contrast_of_le (hpaper1.trans_eq light_white.symm), light_white,
        div_le_iff₀ (by linarith)]
      norm_num at hpaper ⊢
      linarith
    rw [le_iff hblack.finite hwhite.finite, not_le]
    have hge := hblack.ge
    have hle := hwhite.le
    norm_num at hge hle
    linarith

/-- A colour that is no lighter than paper becomes dark enough. -/
theorem meets_ensure_of_not_lighter (acc : lib.Accurate) (hpaper : 0.9457 ≤ paper.light)
    (h : ¬ paper.luminance < accent.luminance) :
    meets (ensure accent paper 4.5) paper 4.5 = true := by
  cases hmeets : meets accent paper 4.5 with
  | true => rw [ensure_of_meets hmeets, hmeets]
  | false =>
    rcases ensure_cases (awayFrom_eq_darken acc hpaper h) (finite_lightness acc accent) hmeets with
      ⟨hpass, _⟩ | ⟨_, ⟨l, hl, hpole, hblack⟩, _⟩
    · exact hpass
    · have hdark := (shows_candidate acc accent hl).light_le
        ((show toReal l = 0 from hpole).trans_lt (by norm_num))
      rw [(meets_text_of_light acc hpaper hdark (by norm_num)).2] at hblack
      cases hblack

/-- What is lighter than paper on doubles is hardly darker without rounding. -/
theorem light_ge_of_lighter (acc : lib.Accurate) (hpaper : 0.9457 ≤ paper.light)
    (h : paper.luminance < accent.luminance) : 0.9451 ≤ accent.light := by
  have hpaperlight := near_luminance acc paper
  have haccentlight := near_luminance acc accent
  have hlt := (Double.lt_iff hpaperlight.finite haccentlight.finite).1 h
  have hge := hpaperlight.ge
  have hle := haccentlight.le
  norm_num at hge hle hpaper ⊢
  linarith

theorem luminance_lt_of_light_eq_one (acc : lib.Accurate) (hpaper : paper.light ≤ 0.9657)
    (h : accent.light = 1) : paper.luminance < accent.luminance := by
  have hpaperlight := near_luminance acc paper
  have haccentlight := near_luminance acc accent
  rw [Double.lt_iff hpaperlight.finite haccentlight.finite]
  have hge := haccentlight.ge
  have hle := hpaperlight.le
  rw [h] at hge
  norm_num at hge hle hpaper
  linarith

/-- A colour that is lighter than paper stays so and never becomes readable. -/
theorem ensure_lighter (acc : lib.Accurate) (hpaper : paper.light ∈ Set.Icc 0.9457 0.9657)
    (h : paper.luminance < accent.luminance) :
    meets (ensure accent paper 4.5) paper 4.5 = false ∧
      paper.luminance < (ensure accent paper 4.5).luminance := by
  have hpaper0 : 0.2459 ≤ paper.light := le_trans (by norm_num) hpaper.1
  have hlight := light_ge_of_lighter acc hpaper.1 h
  have hL := (Shows.self acc accent).lightness_ge hlight
  have hfinite := finite_lightness acc accent
  have hfails := not_meets_text_of_light acc (le_trans (by norm_num) hlight) hpaper0
  -- no more than one step is left to white
  have hstart : Direction.lighten.distance (Number.clamp accent.toOklch.lightness) ≤ 0.049 := by
    have hmin : 0.951 ≤ min 1 (toReal accent.toOklch.lightness) := le_min (by norm_num) hL
    rw [Direction.distance, toReal_clamp hfinite, sub_le_comm]
    exact le_max_of_le_right (le_trans (by norm_num) hmin)
  rcases ensure_cases (if_pos h) hfinite hfails with
    ⟨hpass, l, hl, hway, hcolor⟩ | ⟨hfail, _, hcolor⟩
  · have hl0 : 0.951 ≤ toReal l := by
      have := hway.trans hstart
      rw [Direction.distance] at this
      norm_num at this ⊢
      linarith
    have hlight := (shows_candidate acc accent hl).light_ge (le_trans (by norm_num) hl0)
    rw [← hcolor] at hlight
    rw [not_meets_text_of_light acc hlight hpaper0] at hpass
    cases hpass
  · refine ⟨hfail, ?_⟩
    rcases hcolor with hcolor | ⟨l, hl, hway, hcolor⟩
    · rwa [hcolor]
    · have hone : toReal l = 1 := by
        rw [max_eq_left (sub_nonpos.2 hstart)] at hway
        exact le_antisymm hl.le_one (sub_nonpos.1 hway)
      obtain ⟨hmuted, hlightness⟩ := muted_withLightness acc (chroma_toOklch_le acc accent) hl
      have hwhite := light_white_of_channels
        (hmuted.ofOklch_eq_white acc le_rfl (hlightness.trans hone))
      rw [hcolor]
      exact luminance_lt_of_light_eq_one acc hpaper.2 hwhite

/-- Fitting a colour to paper once or twice makes it readable unless it is lighter. -/
theorem meets_ensure_iff_not_lighter (acc : lib.Accurate)
    (hpaper : paper.light ∈ Set.Icc 0.9457 0.9657) :
    (meets (ensure accent paper 4.5) paper 4.5 = true ↔ ¬ paper.luminance < accent.luminance) ∧
      (meets (ensure (ensure accent paper 4.5) paper 4.5) paper 4.5 = true ↔
        ¬ paper.luminance < accent.luminance) := by
  by_cases h : paper.luminance < accent.luminance
  · obtain ⟨hfail, hlighter⟩ := ensure_lighter acc hpaper h
    have hagain := (ensure_lighter acc hpaper hlighter).1
    rw [hfail, hagain]
    simp [h]
  · have hmeets := meets_ensure_of_not_lighter acc hpaper.1 h
    rw [ensure_of_meets hmeets, hmeets]
    simp [h]

end Double

/-! ## Palettes and their schemas -/

namespace Palette
variable {R : Type} [Number R]

theorem tokens_surfacesPrimary (accent : Color R) (variant : Variant) :
    (tokens accent variant).color .surfacesPrimary =
      draftColor (accent.withAlpha 1.0) variant .surfacesPrimary := by
  have hslot : ColorSlot.surfacesPrimary ∉ contentOnSurface := by decide
  rw [tokens, Table.color_ofFn, if_neg hslot]

theorem tokens_contentLink (accent : Color R) (variant : Variant) :
    (tokens accent variant).color .contentLink =
      Contrast.ensure (draftColor (accent.withAlpha 1.0) variant .contentLink)
        ((tokens accent variant).color .surfacesPrimary) textRatio := by
  have hslot : ColorSlot.contentLink ∈ contentOnSurface := by decide
  rw [tokens_surfacesPrimary, tokens, Table.color_ofFn, if_pos hslot]

/-- The link of a light palette whose accent is lighter than its window. -/
def IsLighterLink (accent : Color R) (variant : Variant) (slot : ColorSlot) : Prop :=
  slot = .contentLink ∧ variant = .light ∧
    ((tokens accent variant).color .surfacesPrimary).luminance < accent.luminance

/-- Whether a slot of a palette can be read on the window, before and after finalizing. -/
structure Legible (accent : Color R) (variant : Variant) (slot : ColorSlot) : Prop where
  tokens : 4.5 ≤ Contrast.ratio ((tokens accent variant).color slot)
      ((tokens accent variant).color .surfacesPrimary) ↔ ¬ IsLighterLink accent variant slot
  window : (Schema.ofAccent accent variant Policy.standard).color .surfacesPrimary =
    (Palette.tokens accent variant).color .surfacesPrimary
  schema : 4.5 ≤ Contrast.ratio ((Schema.ofAccent accent variant Policy.standard).color slot)
      ((Schema.ofAccent accent variant Policy.standard).color .surfacesPrimary) ↔
    ¬ IsLighterLink accent variant slot
  reported : IsLighterLink accent variant slot →
    ∃ w ∈ (Schema.ofAccent accent variant Policy.standard).warnings,
      EnforcedPair.line ⟨slot, .surfacesPrimary⟩ <+: w.message

end Palette

section
open Binary64 Double Contrast
variable {lib : Elementary}

theorem paper_tokens_mem (acc : lib.Accurate) (accent : Color (Double lib)) :
    ((Palette.tokens accent .light).color .surfacesPrimary).light ∈ Set.Icc 0.9457 0.9657 := by
  rw [Palette.tokens_surfacesPrimary]
  exact paper_mem acc (hue_toOklch_mem acc _)

/-- Fitted once in the palette, and again when it is finalized. -/
theorem meets_content_iff (acc : lib.Accurate) (accent : Color (Double lib)) (variant : Variant)
    {slot : ColorSlot} (hslot : slot ∈ Palette.contentOnSurface) :
    (meets ((Palette.tokens accent variant).color slot)
        ((Palette.tokens accent variant).color .surfacesPrimary) 4.5 = true ↔
      ¬ Palette.IsLighterLink accent variant slot) ∧
    (meets (ensure ((Palette.tokens accent variant).color slot)
        ((Palette.tokens accent variant).color .surfacesPrimary) 4.5)
        ((Palette.tokens accent variant).color .surfacesPrimary) 4.5 = true ↔
      ¬ Palette.IsLighterLink accent variant slot) := by
  by_cases hlink : slot = .contentLink ∧ variant = .light
  · obtain ⟨rfl, rfl⟩ := hlink
    have hiff : Palette.IsLighterLink accent .light .contentLink ↔
        ((Palette.tokens accent .light).color .surfacesPrimary).luminance <
          (accent.withAlpha 1.0).luminance :=
      ⟨fun h => h.2.2, fun h => ⟨rfl, rfl, h⟩⟩
    rw [hiff, Palette.tokens_contentLink]
    exact meets_ensure_iff_not_lighter acc (paper_tokens_mem acc accent)
  · have hmeets := draft_meets acc (accent.withAlpha 1.0) hslot hlink
    rw [← tokens_content acc accent hslot hlink, ← Palette.tokens_surfacesPrimary] at hmeets
    have hnot : ¬ Palette.IsLighterLink accent variant slot := fun h => hlink ⟨h.1, h.2.1⟩
    rw [ensure_of_meets hmeets]
    exact ⟨iff_of_true hmeets hnot, iff_of_true hmeets hnot⟩

/-- All content that a palette makes of an accent can be read on its window, in the palette and in
the schema, except a link that is lighter than paper, which falls short in both and is reported. -/
theorem content_legible (acc : lib.Accurate) (accent : Color (Double lib)) (variant : Variant)
    {slot : ColorSlot} (hslot : slot ∈ Palette.contentOnSurface) :
    Palette.Legible accent variant slot := by
  obtain ⟨htokens, hschema⟩ := meets_content_iff acc accent variant hslot
  have hwindow : (Schema.ofAccent accent variant Policy.standard).color .surfacesPrimary =
      (Palette.tokens accent variant).color .surfacesPrimary :=
    Schema.finalize_surfacesPrimary _ _ _
  have hcolor : (Schema.ofAccent accent variant Policy.standard).color slot =
      ensure ((Palette.tokens accent variant).color slot)
        ((Palette.tokens accent variant).color .surfacesPrimary) 4.5 :=
    Schema.finalize_content _ _ _ hslot
  rw [← hcolor, ← hwindow] at hschema
  rw [meets, decide_eq_true_eq] at htokens hschema
  refine ⟨htokens, hwindow, hschema, fun hlighter => ?_⟩
  have hshort := mt hschema.1 (not_not.2 hlighter)
  have hliteral : Finite (4.5 : Double lib) :=
    (near_literal (A := 5) (by norm_num) (by norm_num) (by norm_num) (by norm_num)).finite
  refine (line_mem_warnings Policy.standard _ (EnforcedPair.content_mem_all hslot)).2 ?_
  by_contra hlt
  exact hshort ((Double.not_lt_iff_le (finite_ratio acc _ _).isNaN_eq_false
    hliteral.isNaN_eq_false).1 hlt)

theorem content_legible_blue : Elementary.rounded.Accurate ∧
    ColorSlot.contentLink ∈ Palette.contentOnSurface ∧
    Palette.Legible (Color.solid 0x35 0x84 0xE4 : Color (Double .rounded)) .light .contentLink :=
  ⟨Elementary.accurate_rounded, by decide,
    content_legible Elementary.accurate_rounded _ .light (by decide)⟩

/-- White is lighter than paper, and links in white cannot be read on it. -/
theorem white_link_unreadable :
    ¬ 4.5 ≤ ratio
        ((Palette.tokens (Color.white : Color (Double .rounded)) .light).color .contentLink)
        ((Palette.tokens (Color.white : Color (Double .rounded)) .light).color
          .surfacesPrimary) := by
  have acc := Elementary.accurate_rounded
  have hpaper := paper_tokens_mem acc (Color.white : Color (Double .rounded))
  have hlighter : Palette.IsLighterLink (Color.white : Color (Double .rounded)) .light
      .contentLink := by
    refine ⟨rfl, rfl, ?_⟩
    have hwindow := near_luminance acc
      ((Palette.tokens (Color.white : Color (Double .rounded)) .light).color .surfacesPrimary)
    have hwhite := near_luminance acc (Color.white : Color (Double .rounded))
    rw [Double.lt_iff hwindow.finite hwhite.finite]
    have hle := hwindow.le
    have hge := hwhite.ge
    have hhigh := hpaper.2
    rw [light_white] at hge
    norm_num at hle hge hhigh
    linarith
  intro hread
  exact (meets_content_iff acc Color.white .light (by decide)).1.1 (decide_eq_true hread) hlighter

end

end ThemeTokens
