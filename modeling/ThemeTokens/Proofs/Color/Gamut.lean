import ThemeTokens.Proofs.Color.Oklab

/-!
# Lightness and luminance

Of the colours that sRGB holds, perceptually light ones have much luminance and luminous ones are
perceptually light. Lightness combines the roots of what the cones see, and a root lies below its
tangents, so the bounds are linear in the channels once the point of the tangent is chosen.
-/
namespace ThemeTokens

namespace LinearRgb

noncomputable def luminance (rgb : LinearRgb ℝ) : ℝ :=
  0.2126 * rgb.red + (0.7152 * rgb.green + 0.0722 * rgb.blue)

/-- What sRGB holds, with more slack than the gamut check gives. -/
structure Fits (rgb : LinearRgb ℝ) : Prop where
  red : rgb.red ∈ Set.Icc (-(1 / 10 ^ 6)) (1 + 1 / 10 ^ 6)
  green : rgb.green ∈ Set.Icc (-(1 / 10 ^ 6)) (1 + 1 / 10 ^ 6)
  blue : rgb.blue ∈ Set.Icc (-(1 / 10 ^ 6)) (1 + 1 / 10 ^ 6)

end LinearRgb

/-- The light that the channels of a colour stand for. -/
noncomputable def Color.shown {R : Type} (c : Color R) : LinearRgb ℝ :=
  ⟨Transfer.light c.red, Transfer.light c.green, Transfer.light c.blue⟩

theorem Color.luminance_shown {R : Type} (c : Color R) : c.shown.luminance = c.light := rfl

theorem Color.fits_shown {R : Type} (c : Color R) : c.shown.Fits := by
  have hmem (b : UInt8) : Transfer.light b ∈ Set.Icc (-(1 / 10 ^ 6)) (1 + 1 / 10 ^ 6) :=
    ⟨(Double.light_nonneg b).trans' (by norm_num), (Double.light_le_one b).trans (by norm_num)⟩
  exact ⟨hmem c.red, hmem c.green, hmem c.blue⟩

/-- A root lies below the tangent at every point. -/
theorem le_of_tangent {x t : ℝ} (ht : 0 < t) (hx : -(2 * t) ≤ x) :
    x ≤ (x ^ 3 + 2 * t ^ 3) / (3 * t ^ 2) := by
  rw [le_div_iff₀ (by positivity)]
  have hrest : 0 ≤ (x - t) ^ 2 * (x + 2 * t) := mul_nonneg (sq_nonneg _) (by linarith)
  linarith only [hrest,
    show (x - t) ^ 2 * (x + 2 * t) = x ^ 3 + 2 * t ^ 3 - x * (3 * t ^ 2) by ring]

/-- Light that sRGB holds, the roots of what the cones see of it, and its lightness. -/
structure Cones (rgb : LinearRgb ℝ) (lightness l m s : ℝ) : Prop extends rgb.Fits where
  long : |l ^ 3 - (0.4122214708 * rgb.red + 0.5363325363 * rgb.green + 0.0514459929 * rgb.blue)| ≤
    1 / 10 ^ 7
  medium : |m ^ 3 - (0.2119034982 * rgb.red + 0.6806995451 * rgb.green +
    0.1073969566 * rgb.blue)| ≤ 1 / 10 ^ 7
  short : |s ^ 3 - (0.0883024619 * rgb.red + 0.2817188376 * rgb.green + 0.6299787005 * rgb.blue)| ≤
    1 / 10 ^ 7
  lightness : |lightness - (0.2104542553 * l + 0.7936177850 * m - 0.0040720468 * s)| ≤ 1 / 10 ^ 7

namespace Cones
variable {rgb : LinearRgb ℝ} {L l m s : ℝ}

theorem root_mem (h : Cones rgb L l m s) : l ∈ Set.Icc (-0.011) (1 + 1 / 10 ^ 6) ∧
    m ∈ Set.Icc (-0.011) (1 + 1 / 10 ^ 6) ∧ s ∈ Set.Icc (-0.011) (1 + 1 / 10 ^ 6) := by
  obtain ⟨⟨⟨hr0, hr1⟩, ⟨hg0, hg1⟩, ⟨hb0, hb1⟩⟩, hlong, hmedium, hshort, _⟩ := h
  have root {x y : ℝ} (hx : |x ^ 3 - y| ≤ 1 / 10 ^ 7) (hy0 : -(1.1 / 10 ^ 6) ≤ y)
      (hy1 : y ≤ 1 + 1.1 / 10 ^ 6) : x ∈ Set.Icc (-0.011) (1 + 1 / 10 ^ 6) := by
    obtain ⟨h0, h1⟩ := abs_le.1 hx
    constructor
    · refine Double.le_of_cube_le ?_
      norm_num at h0 hy0 ⊢
      linarith
    · refine Double.le_of_cube_le ?_
      norm_num at h1 hy1 ⊢
      linarith
  norm_num at hr0 hr1 hg0 hg1 hb0 hb1
  refine ⟨root hlong ?_ ?_, root hmedium ?_ ?_, root hshort ?_ ?_⟩ <;> norm_num <;>
    linarith only [hr0, hr1, hg0, hg1, hb0, hb1]

/-- The lightness below which the luminance stays moderate, from the tangents at given points. -/
theorem lightness_le (h : Cones rgb L l m s) {t u : ℝ} (ht : 0.1 ≤ t) (hu : 0.1 ≤ u) :
    L ≤ 0.2104542553 * ((l ^ 3 + 2 * t ^ 3) / (3 * t ^ 2)) +
      0.7936177850 * ((m ^ 3 + 2 * u ^ 3) / (3 * u ^ 2)) + 1 / 10 ^ 4 := by
  obtain ⟨⟨hl0, _⟩, ⟨hm0, _⟩, ⟨hs0, _⟩⟩ := h.root_mem
  have hl := le_of_tangent (show 0 < t by norm_num at ht; linarith)
    (show -(2 * t) ≤ l by norm_num at hl0 ht; linarith)
  have hm := le_of_tangent (show 0 < u by norm_num at hu; linarith)
    (show -(2 * u) ≤ m by norm_num at hm0 hu; linarith)
  have hL := (abs_le.1 h.lightness).2
  norm_num at hs0 hL ⊢
  linarith only [hl, hm, hs0, hL]

theorem luminance_ge (h : Cones rgb L l m s) (hL : 0.6799 ≤ L) : 0.252 ≤ rgb.luminance := by
  have htangent := h.lightness_le (show (0.1 : ℝ) ≤ 0.74 by norm_num)
    (show (0.1 : ℝ) ≤ 0.66 by norm_num)
  obtain ⟨⟨⟨hr0, hr1⟩, ⟨hg0, hg1⟩, ⟨hb0, hb1⟩⟩, hlong, hmedium, _, _⟩ := h
  rw [LinearRgb.luminance]
  rw [abs_le] at hlong hmedium
  norm_num at hr0 hr1 hg0 hg1 hb0 hb1 hlong hmedium htangent hL ⊢
  linarith only [hr0, hr1, hg0, hg1, hb0, hb1, hlong, hmedium, htangent, hL]

/-- Bounds for the roots that the lightness consists of give a bound for the lightness. -/
theorem lightness_ge (h : Cones rgb L l m s) {p q : ℝ}
    (hl : p ^ 3 ≤ 0.4122214708 * rgb.red + 0.5363325363 * rgb.green + 0.0514459929 * rgb.blue -
      1 / 10 ^ 7)
    (hm : q ^ 3 ≤ 0.2119034982 * rgb.red + 0.6806995451 * rgb.green + 0.1073969566 * rgb.blue -
      1 / 10 ^ 7) : 0.2104542553 * p + 0.7936177850 * q - 0.0041 ≤ L := by
  obtain ⟨_, _, ⟨_, hs1⟩⟩ := h.root_mem
  have hp : p ≤ l := Double.le_of_cube_le (by linarith [(abs_le.1 h.long).1])
  have hq : q ≤ m := Double.le_of_cube_le (by linarith [(abs_le.1 h.medium).1])
  have hL := (abs_le.1 h.lightness).1
  norm_num at hs1 hL ⊢
  linarith only [hp, hq, hs1, hL]

theorem lightness_ge_of_luminance_ge (h : Cones rgb L l m s) (hY : 0.15 ≤ rgb.luminance) :
    0.501 ≤ L := by
  obtain ⟨⟨hr0, hr1⟩, ⟨hg0, hg1⟩, ⟨hb0, hb1⟩⟩ := h.toFits
  rw [LinearRgb.luminance] at hY
  norm_num at hr0 hr1 hg0 hg1 hb0 hb1 hY
  refine le_trans ?_ (h.lightness_ge (p := 0.45) (q := 0.52) ?_ ?_) <;> norm_num <;>
    linarith only [hr0, hr1, hg0, hg1, hb0, hb1, hY]

theorem lightness_ge_of_pale (h : Cones rgb L l m s) (hY : 0.939 ≤ rgb.luminance) :
    0.951 ≤ L := by
  obtain ⟨⟨hr0, hr1⟩, ⟨hg0, hg1⟩, ⟨hb0, hb1⟩⟩ := h.toFits
  rw [LinearRgb.luminance] at hY
  norm_num at hr0 hr1 hg0 hg1 hb0 hb1 hY
  refine le_trans ?_ (h.lightness_ge (p := 0.958) (q := 0.966) ?_ ?_) <;> norm_num <;>
    linarith only [hr0, hr1, hg0, hg1, hb0, hb1, hY]

/-- Of full lightness there is nothing but white. -/
theorem white_of_lightness (h : Cones rgb L l m s) (hL : L = 1) :
    1 - 1 / 320 ≤ rgb.red ∧ 1 - 1 / 320 ≤ rgb.green ∧ 1 - 1 / 320 ≤ rgb.blue := by
  obtain ⟨⟨hl0, _⟩, ⟨hm0, _⟩, ⟨hs0, hs1⟩⟩ := h.root_mem
  norm_num at hl0 hm0 hs0 hs1
  have hlroot := le_of_tangent one_pos (x := l) (by linarith)
  have hmroot := le_of_tangent one_pos (x := m) (by linarith)
  have hsroot : s ^ 3 - 0.012 ≤ s := by
    have hsq : s ^ 2 ≤ 1.00001 := by nlinarith
    rcases le_total 0 s with hs | hs <;> norm_num at hsq ⊢ <;> nlinarith
  obtain ⟨⟨⟨hr0, hr1⟩, ⟨hg0, hg1⟩, ⟨hb0, hb1⟩⟩, hlong, hmedium, hshort, hlight⟩ := h
  rw [abs_le] at hlong hmedium hshort hlight
  norm_num at hr0 hr1 hg0 hg1 hb0 hb1 hlong hmedium hshort hlight hlroot hmroot hsroot ⊢
  refine ⟨?_, ?_, ?_⟩ <;>
    linarith only [hr0, hr1, hg0, hg1, hb0, hb1, hlong, hmedium, hshort, hlight, hlroot, hmroot,
      hsroot, hL]

end Cones

/-- The matrices of the two directions are inverse to each other up to the digits they are given
with. -/
theorem Oklab.cones {c : Oklab ℝ} (hfits : c.channels.Fits) (ha : |c.a| ≤ 5 / 4)
    (hb : |c.b| ≤ 5 / 4) (hL0 : 0 ≤ c.lightness) (hL1 : c.lightness ≤ 1) :
    Cones c.channels c.lightness c.long c.medium c.short := by
  refine ⟨hfits, ?long, ?medium, ?short, ?lightness⟩
  case lightness =>
    obtain ⟨ha0, ha1⟩ := abs_le.1 ha
    obtain ⟨hb0, hb1⟩ := abs_le.1 hb
    rw [long, medium, short, abs_le]
    norm_num
    constructor <;> linarith only [ha0, ha1, hb0, hb1, hL0, hL1]
  -- a row of one matrix times the columns of the other, within what the channels may be
  all_goals
    obtain ⟨⟨hr0, hr1⟩, ⟨hg0, hg1⟩, ⟨hb0, hb1⟩⟩ := hfits
    simp only [channels] at hr0 hr1 hg0 hg1 hb0 hb1 ⊢
    rw [abs_le]
    norm_num at hr0 hr1 hg0 hg1 hb0 hb1 ⊢
    constructor <;> linarith only [hr0, hr1, hg0, hg1, hb0, hb1]

/-- The rows that the light of a grey is the cube of also add up to one in the luminance. -/
theorem Oklab.abs_luminance_sub_le {c : Oklab ℝ} {ρ : ℝ} (ha : |c.a| ≤ ρ) (hb : |c.b| ≤ ρ)
    (hL : 0 ≤ c.lightness) : |c.channels.luminance - c.lightness ^ 3| ≤
      0.95 * (ρ * (c.lightness + 2 * ρ) ^ 2) := by
  obtain ⟨hlong, hmedium, hshort⟩ := abs_cones_sub_le ha hb hL
  have hρ : 0 ≤ ρ := (abs_nonneg _).trans ha
  have hE : 0 ≤ ρ * (c.lightness + 2 * ρ) ^ 2 := by positivity
  simp only [LinearRgb.luminance, channels]
  generalize ρ * (c.lightness + 2 * ρ) ^ 2 = E at *
  generalize c.lightness ^ 3 = G at *
  obtain ⟨hl0, hl1⟩ := abs_le.1 hlong
  obtain ⟨hm0, hm1⟩ := abs_le.1 hmedium
  obtain ⟨hs0, hs1⟩ := abs_le.1 hshort
  norm_num at hl0 hl1 hm0 hm1 hs0 hs1 ⊢
  rw [abs_le]
  constructor <;> linarith only [hl0, hl1, hm0, hm1, hs0, hs1, hE]

namespace Double
open Binary64 Transfer
variable {lib : Elementary}

/-! ## Colours on doubles -/

namespace Muted
variable {ρ : ℝ} {p : Oklch (Double lib)}

/-- What the gamut check accepts leaves sRGB by no more than its slack. -/
theorem fits_of_inGamut (acc : lib.Accurate) (h : Muted ρ p) (hρ : ρ ≤ 5 / 4)
    (hgamut : p.inGamut = true) : (exact p.toOklab).channels.Fits := by
  have hmem {x : Double lib} {r : ℝ} (hx : Near 500 (1 / 10 ^ 7) x r)
      (hinside : -LinearRgb.gamutSlack ≤ x ∧ x ≤ 1.0 + LinearRgb.gamutSlack) :
      r ∈ Set.Icc (-(1 / 10 ^ 6)) (1 + 1 / 10 ^ 6) := by
    rw [le_iff near_gamutSlack.neg.finite hx.finite, le_iff hx.finite near_gamutTop.finite]
      at hinside
    obtain ⟨hlow, hhigh⟩ := hinside
    have h0 := (@near_gamutSlack lib).neg.ge
    have h1 := (@near_gamutTop lib).le
    have hr0 := hx.le
    have hr1 := hx.ge
    norm_num [slip] at h0 h1 hr0 hr1 ⊢
    constructor <;> linarith
  obtain ⟨hr, hg, hb⟩ := h.near_toLight acc hρ
  obtain ⟨hr1, hg1, hb1⟩ := LinearRgb.inGamut_iff.1 hgamut
  exact ⟨hmem hr hr1, hmem hg hg1, hmem hb hb1⟩

/-- Greys are inside. -/
theorem fits_of_chroma (acc : lib.Accurate) (h : Muted ρ p) (hchroma : toReal p.chroma = 0) :
    (exact p.toOklab).channels.Fits := by
  have hgrey : Muted (1 / 10 ^ 9) p :=
    { h with chroma_le := by rw [hchroma, abs_zero, zero_add] }
  obtain ⟨_, _, ha1, hb1⟩ := hgrey.abs_opponent_le acc (by norm_num)
  obtain ⟨hr, hg, hb⟩ := @Oklab.channels_mem (exact p.toOklab) (1 / 10 ^ 9) ha1 hb1 h.nonneg
    h.le_one (by norm_num)
  have hmem : Set.Icc (-(15 * (1 / 10 ^ 9)) : ℝ) (1 + 15 * (1 / 10 ^ 9)) ⊆
      Set.Icc (-(1 / 10 ^ 6)) (1 + 1 / 10 ^ 6) := Set.Icc_subset_Icc (by norm_num) (by norm_num)
  exact ⟨hmem hr, hmem hg, hmem hb⟩

theorem fits_toGamut (acc : lib.Accurate) (h : Muted ρ p) (hρ : ρ ≤ 5 / 4) :
    (exact p.toGamut.toOklab).channels.Fits := by
  have hchroma := h.chroma_le
  obtain ⟨_, _, _, hfits⟩ := toGamut_chroma h.chroma (by linarith)
  rcases hfits with hzero | hfits
  · exact (h.toGamut hρ).fits_of_chroma acc hzero
  · exact (h.toGamut hρ).fits_of_inGamut acc hρ hfits

theorem cones (acc : lib.Accurate) (h : Muted ρ p) (hρ : ρ ≤ 5 / 4) :
    Cones (exact p.toGamut.toOklab).channels (toReal p.lightness) (exact p.toGamut.toOklab).long
      (exact p.toGamut.toOklab).medium (exact p.toGamut.toOklab).short := by
  have hmuted := h.toGamut hρ
  obtain ⟨_, _, ha, hb⟩ := hmuted.abs_opponent_le acc hρ
  have hcones := Oklab.cones (h.fits_toGamut acc hρ) (ha.trans hρ) (hb.trans hρ) hmuted.nonneg
    hmuted.le_one
  rwa [show (exact p.toGamut.toOklab).lightness = toReal p.lightness from h.toReal_toGamut]
    at hcones

theorem ofOklch_eq_white (acc : lib.Accurate) (h : Muted ρ p) (hρ : ρ ≤ 5 / 4)
    (hL : toReal p.lightness = 1) : (Color.ofOklch p).red = 255 ∧
      (Color.ofOklch p).green = 255 ∧ (Color.ofOklch p).blue = 255 := by
  obtain ⟨hr, hg, hb⟩ := (h.toGamut hρ).near_toLight acc hρ
  obtain ⟨hr1, hg1, hb1⟩ := (h.cones acc hρ).white_of_lightness hL
  exact ⟨toByte_ofLinear_eq acc hr hr1 le_rfl, toByte_ofLinear_eq acc hg hg1 le_rfl,
    toByte_ofLinear_eq acc hb hb1 le_rfl⟩

/-- Bytes lose little of the luminance. -/
theorem abs_light_sub_luminance_le (acc : lib.Accurate) (h : Muted ρ p) (hρ : ρ ≤ 5 / 4) :
    |(Color.ofOklch p).light - (exact p.toGamut.toOklab).channels.luminance| ≤ 0.0061 := by
  obtain ⟨hr, hg, hb⟩ := (h.toGamut hρ).near_toLight acc hρ
  obtain ⟨⟨hr0, hr1⟩, ⟨hg0, hg1⟩, ⟨hb0, hb1⟩⟩ := h.fits_toGamut acc hρ
  have hred : |light (Color.ofOklch p).red - _| ≤ _ :=
    abs_light_sub_le_of_mem acc hr le_rfl hr0 hr1
  have hgreen : |light (Color.ofOklch p).green - _| ≤ _ :=
    abs_light_sub_le_of_mem acc hg le_rfl hg0 hg1
  have hblue : |light (Color.ofOklch p).blue - _| ≤ _ :=
    abs_light_sub_le_of_mem acc hb le_rfl hb0 hb1
  obtain ⟨hred0, hred1⟩ := abs_le.1 hred
  obtain ⟨hgreen0, hgreen1⟩ := abs_le.1 hgreen
  obtain ⟨hblue0, hblue1⟩ := abs_le.1 hblue
  rw [Color.light, LinearRgb.luminance, abs_le]
  norm_num at hred0 hred1 hgreen0 hgreen1 hblue0 hblue1 ⊢
  constructor <;>
    linarith only [hred0, hred1, hgreen0, hgreen1, hblue0, hblue1]

/-- The light of a muted colour is that of the grey of its lightness. -/
theorem abs_light_sub_cube_le (acc : lib.Accurate) (h : Muted ρ p) (hρ : ρ ≤ 5 / 4) :
    |(Color.ofOklch p).light - toReal p.lightness ^ 3| ≤
      0.95 * (ρ * (toReal p.lightness + 2 * ρ) ^ 2) + 0.0061 := by
  have hmuted := h.toGamut hρ
  obtain ⟨_, _, ha, hb⟩ := hmuted.abs_opponent_le acc hρ
  have hluminance := @Oklab.abs_luminance_sub_le (exact p.toGamut.toOklab) ρ ha hb hmuted.nonneg
  rw [show (exact p.toGamut.toOklab).lightness = toReal p.lightness from h.toReal_toGamut]
    at hluminance
  refine (abs_sub_le _ (exact p.toGamut.toOklab).channels.luminance _).trans ?_
  linarith [h.abs_light_sub_luminance_le acc hρ]

end Muted

theorem Responses.cones {c : Color (Double lib)} {l m s : ℝ} (h : Responses c l m s) :
    Cones c.shown (toReal c.toOklab.lightness) l m s := by
  -- the conversion adds the channels in another order
  have reorder {cube blue red green : ℝ} (hcube : |cube - (blue + (red + green))| ≤ 1 / 10 ^ 8) :
      |cube - (red + green + blue)| ≤ 1 / 10 ^ 7 := by
    rw [add_comm (red + green)]
    exact hcube.trans (by norm_num)
  refine ⟨c.fits_shown, reorder h.long, reorder h.medium, reorder h.short, ?_⟩
  have := h.lightness.error
  rw [abs_le] at this ⊢
  norm_num at this ⊢
  constructor <;> linarith only [this.1, this.2]

/-- A colour shows something of the given lightness, up to the rounding of its bytes. -/
def Shows (c : Color (Double lib)) (L : ℝ) : Prop :=
  ∃ rgb l m s, Cones rgb L l m s ∧ |c.light - rgb.luminance| ≤ 0.0061

namespace Shows
variable {c : Color (Double lib)} {L : ℝ}

theorem self (acc : lib.Accurate) (c : Color (Double lib)) :
    Shows c (toReal c.toOklch.lightness) := by
  obtain ⟨l, m, s, h⟩ := exists_responses acc c
  refine ⟨_, l, m, s, h.cones, ?_⟩
  rw [c.luminance_shown, sub_self, abs_zero]
  norm_num

theorem ofOklch (acc : lib.Accurate) {ρ : ℝ} {p : Oklch (Double lib)} (h : Muted ρ p)
    (hρ : ρ ≤ 5 / 4) : Shows (Color.ofOklch p) (toReal p.lightness) :=
  ⟨_, _, _, _, h.cones acc hρ, h.abs_light_sub_luminance_le acc hρ⟩

theorem light_ge (h : Shows c L) (hL : 0.6799 ≤ L) : 0.2459 ≤ c.light := by
  obtain ⟨rgb, l, m, s, hcones, hclose⟩ := h
  have hY := hcones.luminance_ge hL
  have hlow := (abs_le.1 hclose).1
  norm_num at hY hlow ⊢
  linarith

theorem light_le (h : Shows c L) (hL : L < 0.501) : c.light ≤ 0.1561 := by
  obtain ⟨rgb, l, m, s, hcones, hclose⟩ := h
  have hY := mt hcones.lightness_ge_of_luminance_ge (not_le.2 hL)
  have hhigh := (abs_le.1 hclose).2
  norm_num at hY hhigh ⊢
  linarith

theorem lightness_ge (h : Shows c L) (hlight : 0.9451 ≤ c.light) : 0.951 ≤ L := by
  obtain ⟨rgb, l, m, s, hcones, hclose⟩ := h
  refine hcones.lightness_ge_of_pale ?_
  have hhigh := (abs_le.1 hclose).2
  norm_num at hhigh hlight ⊢
  linarith

end Shows

end Double

end ThemeTokens
