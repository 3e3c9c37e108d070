import ThemeTokens.Proofs.Color.Gamut
import ThemeTokens.Proofs.Contrast
import ThemeTokens.Token.Palette

/-!
# Tones of the palettes

The neutral tones of the palettes have little chroma, so their light is known whatever the hue of
the accent is, and of a colourful tone enough is known. Content is readable on the palette's own
window as it is, except that the light palette takes the accent for its links.
-/
namespace ThemeTokens.Double
open Binary64 Transfer
variable {lib : Elementary}

/-! ## Tones -/

section
variable {lightness chroma hue : Double lib} {L C E : ℝ}

theorem muted_solid (hl : Near 1 slip lightness L) (hL0 : slip ≤ L) (hL1 : L ≤ 1 - slip) {ρ : ℝ}
    (hc : Finite chroma ∧ |toReal chroma| + 1 / 10 ^ 9 ≤ ρ) (hh : Finite hue ∧ |toReal hue| ≤ 800) :
    Muted ρ (Oklch.solid lightness chroma hue) where
  lightness := hl.finite
  nonneg := by
    change 0 ≤ toReal lightness
    linarith [hl.ge]
  le_one := by
    change toReal lightness ≤ 1
    linarith [hl.le]
  chroma := hc.1
  chroma_le := hc.2
  hue := hh.1
  hue_le := hh.2

/-- Both numerals of a tone are off by at most one rounding. -/
theorem muted_tone (hl : Near 1 slip lightness L) (hc : Near 1 slip chroma C)
    (hh : Finite hue ∧ |toReal hue| ≤ 800) (hL0 : slip ≤ L) (hL1 : L ≤ 1 - slip) (hC : slip ≤ C) :
    Muted (C + 2 / 10 ^ 9) (Oklch.solid lightness chroma hue) := by
  refine muted_solid hl hL0 hL1 ⟨hc.finite, ?_⟩ hh
  rw [abs_of_nonneg (by linarith [hc.ge])]
  have := hc.le
  norm_num [slip] at this ⊢
  linarith

/-- Bounds for the light of a tone in every channel. -/
theorem tone_mem (acc : lib.Accurate) {lo hi : ℝ} (hl : Near 1 slip lightness L)
    (hc : Near 1 slip chroma C) (hh : Finite hue ∧ |toReal hue| ≤ 800) (hL0 : slip ≤ L)
    (hL1 : L ≤ 1 - slip) (hC : slip ≤ C) (hC1 : C ≤ 1 / 30)
    (hE : (C + 2 / 10 ^ 9) * (L + slip + 2 * (C + 2 / 10 ^ 9)) ^ 2 ≤ E)
    (hdark : 0.004 ≤ (L - slip) ^ 3 - 10.2 * E) (hlo : lo ≤ (L - slip) ^ 3 - 10.2 * E - 3 / 500)
    (hhi : (L + slip) ^ 3 + 10.2 * E + 3 / 500 ≤ hi) :
    light (Palette.tone lightness chroma hue).red ∈ Set.Icc lo hi ∧
      light (Palette.tone lightness chroma hue).green ∈ Set.Icc lo hi ∧
      light (Palette.tone lightness chroma hue).blue ∈ Set.Icc lo hi := by
  have hE0 : 0 ≤ E := by
    refine le_trans ?_ hE
    have : 0 ≤ C := (show (0 : ℝ) ≤ slip by norm_num [slip]).trans hC
    positivity
  obtain ⟨⟨hr0, hr1⟩, ⟨hg0, hg1⟩, ⟨hb0, hb1⟩⟩ := (muted_tone hl hc hh hL0 hL1 hC).light_mem acc
    (by norm_num at hC1 ⊢; linarith) (sub_nonneg.2 hL0) hl.ge hl.le hE hdark
  exact ⟨⟨hlo.trans hr0, hr1.trans hhi⟩,
    ⟨hlo.trans (le_trans (by linarith only [hE0]) hg0),
      hg1.trans (le_trans (by linarith only [hE0]) hhi)⟩,
    ⟨hlo.trans (le_trans (by linarith only [hE0]) hb0),
      hb1.trans (le_trans (by linarith only [hE0]) hhi)⟩⟩

/-- Bounds for the light of a tone, which may be as dark as it likes. -/
theorem tone_light_mem (acc : lib.Accurate) {lo hi : ℝ} (hl : Near 1 slip lightness L)
    (hc : Near 1 slip chroma C) (hh : Finite hue ∧ |toReal hue| ≤ 800) (hL0 : slip ≤ L)
    (hL1 : L ≤ 1 - slip) (hC : slip ≤ C) (hC1 : C ≤ 1)
    (hE : (C + 2 / 10 ^ 9) * (L + slip + 2 * (C + 2 / 10 ^ 9)) ^ 2 ≤ E)
    (hlo : lo ≤ (L - slip) ^ 3 - 0.95 * E - 0.0061)
    (hhi : (L + slip) ^ 3 + 0.95 * E + 0.0061 ≤ hi) :
    (Palette.tone lightness chroma hue).light ∈ Set.Icc lo hi := by
  have hmuted := muted_tone hl hc hh hL0 hL1 hC
  have hlow : L - slip ≤ toReal lightness := hl.ge
  have hhigh : toReal lightness ≤ L + slip := hl.le
  have hnonneg : 0 ≤ toReal lightness := hmuted.nonneg
  have hcube0 := pow_le_pow_left₀ (sub_nonneg.2 hL0) hlow 3
  have hcube1 := pow_le_pow_left₀ hnonneg hhigh 3
  have hE' : (C + 2 / 10 ^ 9) * (toReal lightness + 2 * (C + 2 / 10 ^ 9)) ^ 2 ≤ E := by
    refine le_trans ?_ hE
    have hC0 : 0 ≤ C := (show (0 : ℝ) ≤ slip by norm_num [slip]).trans hC
    gcongr
  have hclose : |(Palette.tone lightness chroma hue).light - toReal lightness ^ 3| ≤
      0.95 * E + 0.0061 :=
    (hmuted.abs_light_sub_cube_le acc (by norm_num at hC1 ⊢; linarith)).trans
      (add_le_add (mul_le_mul_of_nonneg_left hE' (by norm_num)) le_rfl)
  obtain ⟨h0, h1⟩ := abs_le.1 hclose
  constructor <;> linarith

end

/-- The light of a colour lies between bounds for its channels. -/
theorem color_light_mem {c : Color (Double lib)} {lo hi : ℝ} (hr : light c.red ∈ Set.Icc lo hi)
    (hg : light c.green ∈ Set.Icc lo hi) (hb : light c.blue ∈ Set.Icc lo hi) :
    c.light ∈ Set.Icc lo hi := by
  obtain ⟨hr0, hr1⟩ := hr
  obtain ⟨hg0, hg1⟩ := hg
  obtain ⟨hb0, hb1⟩ := hb
  rw [Color.light]
  norm_num
  constructor <;> linarith

variable {hue : Double lib}

theorem pale_text (acc : lib.Accurate) (hh : Finite hue ∧ |toReal hue| ≤ 800) :
    Pale (Palette.tone 0.95 0.005 hue) := by
  obtain ⟨hr, hg, hb⟩ := @tone_mem lib 0.95 0.005 hue 0.95 0.005 0.00463 acc 0.8 0.914
    (near_literal (by norm_num) (by norm_num) (by norm_num) (by norm_num))
    (near_literal (by norm_num) (by norm_num) (by norm_num) (by norm_num)) hh
    (by norm_num [slip]) (by norm_num [slip]) (by norm_num [slip]) (by norm_num)
    (by norm_num [slip]) (by norm_num [slip]) (by norm_num [slip]) (by norm_num [slip])
  exact ⟨hr, hg, hb⟩

theorem Pale.light_mem {c : Color (Double lib)} (h : Pale c) : c.light ∈ Set.Icc 0.8 1.01 :=
  Set.Icc_subset_Icc_right (by norm_num) (color_light_mem h.red h.green h.blue)

theorem night_mem (acc : lib.Accurate) (hh : Finite hue ∧ |toReal hue| ≤ 800) :
    (Palette.tone 0.21 0.004 hue).light ∈ Set.Icc 0 0.0156 :=
  @tone_light_mem lib 0.21 0.004 hue 0.21 0.004 0.000191 acc 0 0.0156
    (near_literal (by norm_num) (by norm_num) (by norm_num) (by norm_num))
    (near_literal (by norm_num) (by norm_num) (by norm_num) (by norm_num)) hh
    (by norm_num [slip]) (by norm_num [slip]) (by norm_num [slip]) (by norm_num)
    (by norm_num [slip]) (by norm_num [slip]) (by norm_num [slip])

theorem ink_mem (acc : lib.Accurate) (hh : Finite hue ∧ |toReal hue| ≤ 800) :
    (Palette.tone 0.22 0.01 hue).light ∈ Set.Icc 0 0.03 :=
  @tone_light_mem lib 0.22 0.01 hue 0.22 0.01 0.00058 acc 0 0.03
    (near_literal (by norm_num) (by norm_num) (by norm_num) (by norm_num))
    (near_literal (by norm_num) (by norm_num) (by norm_num) (by norm_num)) hh
    (by norm_num [slip]) (by norm_num [slip]) (by norm_num [slip]) (by norm_num)
    (by norm_num [slip]) (by norm_num [slip]) (by norm_num [slip])

theorem paper_mem (acc : lib.Accurate) (hh : Finite hue ∧ |toReal hue| ≤ 800) :
    (Palette.tone 0.985 0.004 hue).light ∈ Set.Icc 0.9457 0.9657 :=
  @tone_light_mem lib 0.985 0.004 hue 0.985 0.004 0.00395 acc 0.9457 0.9657
    (near_literal (by norm_num) (by norm_num) (by norm_num) (by norm_num))
    (near_literal (by norm_num) (by norm_num) (by norm_num) (by norm_num)) hh
    (by norm_num [slip]) (by norm_num [slip]) (by norm_num [slip]) (by norm_num)
    (by norm_num [slip]) (by norm_num [slip]) (by norm_num [slip])

/-! ## Content -/

/-- Colours whose light is far enough apart reach the ratio for text, whichever is in front. -/
theorem meets_text_of_light (acc : lib.Accurate) {a b : Color (Double lib)} {lo hi : ℝ}
    (ha : lo ≤ a.light) (hb : b.light ≤ hi) (hfar : 4.501 * (hi + 0.05) ≤ lo + 0.05) :
    Contrast.meets a b 4.5 = true ∧ Contrast.meets b a 4.5 = true := by
  have hlit := @near_textRatio lib
  have hratio := hlit.le
  have hb0 := color_light_nonneg b
  have hcontrast : 4.501 ≤ a.contrast b := by
    rw [contrast_of_le (by norm_num at hfar; linarith), le_div_iff₀ (by positivity)]
    norm_num at hfar ⊢
    linarith
  norm_num [slip] at hratio hcontrast
  refine ⟨meets_of_le acc hlit.finite ?_, meets_of_le acc hlit.finite ?_⟩
  · norm_num
    linarith
  · rw [contrast_comm]
    norm_num
    linarith

section
variable {lightness chroma tint : Double lib} {L C : ℝ}

theorem chroma_le_of_near (hc : Near 1 slip chroma C) :
    Finite chroma ∧ |toReal chroma| + 1 / 10 ^ 9 ≤ 5 / 4 := by
  refine ⟨hc.finite, ?_⟩
  have := hc.abs_toReal
  norm_num [slip] at this ⊢
  linarith

/-- A tone that is light enough is readable at night, however colourful it is. -/
theorem meets_night (acc : lib.Accurate) (hl : Near 1 slip lightness L) (hL0 : 0.68 ≤ L)
    (hL1 : L ≤ 1 - slip) (hc : Finite chroma ∧ |toReal chroma| + 1 / 10 ^ 9 ≤ 5 / 4)
    (ht : Finite tint ∧ |toReal tint| ≤ 800) (hh : Finite hue ∧ |toReal hue| ≤ 800) :
    Contrast.meets (Palette.tone lightness chroma tint) (Palette.tone 0.21 0.004 hue) 4.5 =
      true := by
  have hslip : slip ≤ 0.0001 := by norm_num [slip]
  have hmuted := muted_solid hl (by norm_num at hslip hL0 ⊢; linarith) hL1 hc ht
  have hlight := (Shows.ofOklch acc hmuted le_rfl).light_ge (by
    change _ ≤ toReal lightness
    have := hl.ge
    norm_num at hslip hL0 ⊢
    linarith)
  exact (meets_text_of_light acc hlight (night_mem acc hh).2 (by norm_num)).1

/-- A tone that is dark enough is readable on paper, however colourful it is. -/
theorem meets_paper (acc : lib.Accurate) (hl : Near 1 slip lightness L) (hL0 : slip ≤ L)
    (hL1 : L ≤ 0.5) (hc : Finite chroma ∧ |toReal chroma| + 1 / 10 ^ 9 ≤ 5 / 4)
    (ht : Finite tint ∧ |toReal tint| ≤ 800) (hh : Finite hue ∧ |toReal hue| ≤ 800) :
    Contrast.meets (Palette.tone lightness chroma tint) (Palette.tone 0.985 0.004 hue) 4.5 =
      true := by
  have hslip : slip ≤ 0.0001 := by norm_num [slip]
  have hmuted := muted_solid hl hL0 (by norm_num at hslip hL1 ⊢; linarith) hc ht
  have hlight := (Shows.ofOklch acc hmuted le_rfl).light_le (by
    change toReal lightness < _
    have := hl.le
    norm_num at hslip hL1 ⊢
    linarith)
  exact (meets_text_of_light acc (paper_mem acc hh).1 hlight (by norm_num)).2

end

section
variable (acc : lib.Accurate) (accent : Color (Double lib))
include acc

theorem visitedHue_mem : Finite (accent.toOklch.hue + Palette.visitedHueOffset) ∧
    |toReal (accent.toOklch.hue + Palette.visitedHueOffset)| ≤ 800 := by
  obtain ⟨hfinite, hle⟩ := hue_toOklch_le acc accent
  have hoffset : Near 60 slip (60.0 : Double lib) 60.0 :=
    near_literal (by norm_num) (by norm_num) (by norm_num) (by norm_num)
  have hsum := (Near.self hfinite hle).add hoffset (by norm_num [slip])
  exact ⟨hsum.finite, hsum.abs_toReal.trans (by norm_num [slip])⟩

theorem draft_meets_dark {slot : ColorSlot} (hslot : slot ∈ Palette.contentOnSurface) :
    Contrast.meets (Palette.draftColor accent .dark slot)
      (Palette.draftColor accent .dark .surfacesPrimary) 4.5 = true := by
  have hh := hue_toOklch_mem acc accent
  have hc := chroma_toOklch_le acc accent
  have hgrey : Finite (0.005 : Double lib) ∧ |toReal (0.005 : Double lib)| + 1 / 10 ^ 9 ≤ 5 / 4 :=
    chroma_le_of_near (near_fraction (by norm_num) (by norm_num) (by norm_num))
  simp only [Palette.contentOnSurface, List.mem_cons, List.not_mem_nil, or_false] at hslot
  rcases hslot with rfl | rfl | rfl | rfl | rfl
  · exact meets_night acc
      (near_fraction (m := 95) (e := 2) (by norm_num) (by norm_num) (by norm_num))
      (by norm_num) (by norm_num [slip]) hgrey hh hh
  · exact meets_night acc
      (near_fraction (m := 80) (e := 2) (by norm_num) (by norm_num) (by norm_num))
      (by norm_num) (by norm_num [slip]) hgrey hh hh
  · exact meets_night acc
      (near_fraction (m := 68) (e := 2) (by norm_num) (by norm_num) (by norm_num))
      (by norm_num) (by norm_num [slip]) hgrey hh hh
  · exact meets_night acc
      (near_fraction (m := 75) (e := 2) (by norm_num) (by norm_num) (by norm_num))
      (by norm_num) (by norm_num [slip]) hc hh hh
  · exact meets_night acc
      (near_fraction (m := 72) (e := 2) (by norm_num) (by norm_num) (by norm_num))
      (by norm_num) (by norm_num [slip]) hc (visitedHue_mem acc accent) hh

/-- The link of the light palette is the accent as it is, which need not be readable. -/
theorem draft_meets_light {slot : ColorSlot} (hslot : slot ∈ Palette.contentOnSurface)
    (hlink : slot ≠ .contentLink) :
    Contrast.meets (Palette.draftColor accent .light slot)
      (Palette.draftColor accent .light .surfacesPrimary) 4.5 = true := by
  have hh := hue_toOklch_mem acc accent
  have hc := chroma_toOklch_le acc accent
  have hgrey : Finite (0.01 : Double lib) ∧ |toReal (0.01 : Double lib)| + 1 / 10 ^ 9 ≤ 5 / 4 :=
    chroma_le_of_near (near_fraction (by norm_num) (by norm_num) (by norm_num))
  have hgrey' : Finite (0.008 : Double lib) ∧
      |toReal (0.008 : Double lib)| + 1 / 10 ^ 9 ≤ 5 / 4 :=
    chroma_le_of_near (near_fraction (by norm_num) (by norm_num) (by norm_num))
  simp only [Palette.contentOnSurface, List.mem_cons, List.not_mem_nil, or_false] at hslot
  rcases hslot with rfl | rfl | rfl | rfl | rfl
  · exact meets_paper acc
      (near_fraction (m := 22) (e := 2) (by norm_num) (by norm_num) (by norm_num))
      (by norm_num [slip]) (by norm_num) hgrey hh hh
  · exact meets_paper acc
      (near_fraction (m := 40) (e := 2) (by norm_num) (by norm_num) (by norm_num))
      (by norm_num [slip]) (by norm_num) hgrey hh hh
  · exact meets_paper acc
      (near_fraction (m := 50) (e := 2) (by norm_num) (by norm_num) (by norm_num))
      (by norm_num [slip]) (by norm_num) hgrey' hh hh
  · exact absurd rfl hlink
  · exact meets_paper acc
      (near_fraction (m := 45) (e := 2) (by norm_num) (by norm_num) (by norm_num))
      (by norm_num [slip]) (by norm_num) hc (visitedHue_mem acc accent) hh

theorem draft_meets {variant : Variant} {slot : ColorSlot}
    (hslot : slot ∈ Palette.contentOnSurface) (hlink : ¬(slot = .contentLink ∧ variant = .light)) :
    Contrast.meets (Palette.draftColor accent variant slot)
      (Palette.draftColor accent variant .surfacesPrimary) 4.5 = true := by
  cases variant with
  | light => exact draft_meets_light acc accent hslot fun h => hlink ⟨h, rfl⟩
  | dark => exact draft_meets_dark acc accent hslot

/-- Content needs no fitting to the window of its own palette, but for the link on paper. -/
theorem tokens_content {variant : Variant} {slot : ColorSlot}
    (hslot : slot ∈ Palette.contentOnSurface) (hlink : ¬(slot = .contentLink ∧ variant = .light)) :
    (Palette.tokens accent variant).color slot =
      Palette.draftColor (accent.withAlpha 1.0) variant slot := by
  rw [Palette.tokens, Table.color_ofFn, if_pos hslot]
  exact Contrast.ensure_of_meets (draft_meets acc _ hslot hlink)

theorem tokens_contentPrimary (variant : Variant) :
    (Palette.tokens accent variant).color .contentPrimary =
      Palette.draftColor (accent.withAlpha 1.0) variant .contentPrimary :=
  tokens_content acc accent (by decide) (by simp)

end

end ThemeTokens.Double
