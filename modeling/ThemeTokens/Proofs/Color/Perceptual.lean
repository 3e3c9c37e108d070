import ThemeTokens.Proofs.Binary64.Interval
import ThemeTokens.Proofs.Color.Compression
import ThemeTokens.Proofs.Color.Transfer

/-!
# From perceptual colour to light

The light of a muted colour is close to that of the grey of its lightness. What leaves sRGB gets
less chroma, and at full lightness only white is left.
-/
namespace ThemeTokens

/-! ## Cones -/

namespace Oklab
variable {c : Oklab ℝ} {ρ : ℝ}

noncomputable def long (c : Oklab ℝ) : ℝ :=
  0.2158037573 * c.b + (0.3963377774 * c.a + c.lightness)

noncomputable def medium (c : Oklab ℝ) : ℝ :=
  0.0638541728 * -c.b + (0.1055613458 * -c.a + c.lightness)

noncomputable def short (c : Oklab ℝ) : ℝ :=
  1.2914855480 * -c.b + (0.0894841775 * -c.a + c.lightness)

/-- The linear light of a colour without rounding. -/
noncomputable def channels (c : Oklab ℝ) : LinearRgb ℝ where
  red := 0.2309699292 * c.short ^ 3 + (4.0767416621 * c.long ^ 3 + 3.3077115913 * -c.medium ^ 3)
  green := 0.3413193965 * -c.short ^ 3 + (-1.2684380046 * c.long ^ 3 + 2.6097574011 * c.medium ^ 3)
  blue := 1.7076147010 * c.short ^ 3 + (-0.0041960863 * c.long ^ 3 + 0.7034186147 * -c.medium ^ 3)

theorem abs_cube_sub_le {x L d e : ℝ} (h : |x - L| ≤ d) (hL : 0 ≤ L) (hde : L + d ≤ e) :
    |x ^ 3 - L ^ 3| ≤ 3 * d * e ^ 2 := by
  have hx : |x| ≤ e := by
    have := abs_add_le (x - L) L
    rw [sub_add_cancel, abs_of_nonneg hL] at this
    linarith
  have hd : 0 ≤ d := (abs_nonneg _).trans h
  have hsplit : x ^ 3 - L ^ 3 = (x - L) * (x ^ 2 + x * L + L ^ 2) := by ring
  have hfactor : |x ^ 2 + x * L + L ^ 2| ≤ 3 * e ^ 2 := by
    obtain ⟨h1, h2⟩ := abs_le.1 hx
    have hLe : L ≤ e := by linarith
    rw [abs_le]
    constructor <;> nlinarith
  calc |x ^ 3 - L ^ 3| = |x - L| * |x ^ 2 + x * L + L ^ 2| := by rw [hsplit, abs_mul]
    _ ≤ d * (3 * e ^ 2) := by gcongr
    _ = 3 * d * e ^ 2 := by ring

/-- Two of the cones bound the opponent channels. -/
theorem abs_add_abs_le {a b X : ℝ} (hlong : |0.2158037573 * b + 0.3963377774 * a| ≤ X)
    (hshort : |1.2914855480 * b + 0.0894841775 * a| ≤ X) : |a| + |b| ≤ 4.2 * X := by
  rw [abs_le] at hlong hshort
  norm_num at hlong hshort ⊢
  have ha : |a| ≤ 3.1 * X := by
    norm_num
    rw [abs_le]
    constructor <;> linarith
  have hb : |b| ≤ X := by
    rw [abs_le]
    constructor <;> linarith
  norm_num at ha
  linarith

section
variable (ha : |c.a| ≤ ρ) (hb : |c.b| ≤ ρ) (hL : 0 ≤ c.lightness)
include ha hb hL

/-- Each cone leaves the lightness in proportion to the chroma. -/
theorem abs_cones_sub_le :
    |c.long ^ 3 - c.lightness ^ 3| ≤ 1.839 * (ρ * (c.lightness + 2 * ρ) ^ 2) ∧
      |c.medium ^ 3 - c.lightness ^ 3| ≤ 0.51 * (ρ * (c.lightness + 2 * ρ) ^ 2) ∧
      |c.short ^ 3 - c.lightness ^ 3| ≤ 4.143 * (ρ * (c.lightness + 2 * ρ) ^ 2) := by
  obtain ⟨ha0, ha1⟩ := abs_le.1 ha
  obtain ⟨hb0, hb1⟩ := abs_le.1 hb
  have hρ : 0 ≤ ρ := (abs_nonneg _).trans ha
  have cube {x κ : ℝ} (hκ : κ ≤ 2) (hx : |x - c.lightness| ≤ κ * ρ) :
      |x ^ 3 - c.lightness ^ 3| ≤ 3 * κ * (ρ * (c.lightness + 2 * ρ) ^ 2) := by
    have hle : c.lightness + κ * ρ ≤ c.lightness + 2 * ρ := by gcongr
    refine (abs_cube_sub_le hx hL hle).trans_eq ?_
    ring
  have hlong : |c.long - c.lightness| ≤ 0.613 * ρ := by
    rw [long, abs_le]
    norm_num
    constructor <;> linarith only [ha0, ha1, hb0, hb1]
  have hmedium : |c.medium - c.lightness| ≤ 0.17 * ρ := by
    rw [medium, abs_le]
    norm_num
    constructor <;> linarith only [ha0, ha1, hb0, hb1]
  have hshort : |c.short - c.lightness| ≤ 1.381 * ρ := by
    rw [short, abs_le]
    norm_num
    constructor <;> linarith only [ha0, ha1, hb0, hb1]
  refine ⟨(cube (by norm_num) hlong).trans_eq ?_, (cube (by norm_num) hmedium).trans_eq ?_,
    (cube (by norm_num) hshort).trans_eq ?_⟩ <;> norm_num

/-- The rows of the matrix add up to one, so the light of a grey is the cube of its lightness. -/
theorem abs_channels_sub_le :
    |c.channels.red - c.lightness ^ 3| ≤ 10.2 * (ρ * (c.lightness + 2 * ρ) ^ 2) ∧
      |c.channels.green - c.lightness ^ 3| ≤ 5.1 * (ρ * (c.lightness + 2 * ρ) ^ 2) ∧
      |c.channels.blue - c.lightness ^ 3| ≤ 7.5 * (ρ * (c.lightness + 2 * ρ) ^ 2) := by
  obtain ⟨hlong, hmedium, hshort⟩ := abs_cones_sub_le ha hb hL
  have hρ : 0 ≤ ρ := (abs_nonneg _).trans ha
  have hE : 0 ≤ ρ * (c.lightness + 2 * ρ) ^ 2 := by positivity
  simp only [channels]
  generalize ρ * (c.lightness + 2 * ρ) ^ 2 = E at *
  generalize c.lightness ^ 3 = G at *
  obtain ⟨hl0, hl1⟩ := abs_le.1 hlong
  obtain ⟨hm0, hm1⟩ := abs_le.1 hmedium
  obtain ⟨hs0, hs1⟩ := abs_le.1 hshort
  norm_num at hl0 hl1 hm0 hm1 hs0 hs1 ⊢
  simp only [abs_le]
  refine ⟨⟨?_, ?_⟩, ⟨?_, ?_⟩, ⟨?_, ?_⟩⟩ <;>
    linarith only [hl0, hl1, hm0, hm1, hs0, hs1, hE]

/-- Near grey no channel is far outside. -/
theorem channels_mem (hL1 : c.lightness ≤ 1) (hρ : ρ ≤ 1 / 10) :
    c.channels.red ∈ Set.Icc (-(15 * ρ)) (1 + 15 * ρ) ∧
      c.channels.green ∈ Set.Icc (-(15 * ρ)) (1 + 15 * ρ) ∧
      c.channels.blue ∈ Set.Icc (-(15 * ρ)) (1 + 15 * ρ) := by
  obtain ⟨hr, hg, hb⟩ := abs_channels_sub_le ha hb hL
  have hρ0 : 0 ≤ ρ := (abs_nonneg _).trans ha
  have hcube : c.lightness ^ 3 ≤ 1 := pow_le_one₀ hL hL1
  have hcube0 : 0 ≤ c.lightness ^ 3 := pow_nonneg hL 3
  have hE : ρ * (c.lightness + 2 * ρ) ^ 2 ≤ ρ * 1.44 := by
    have : c.lightness + 2 * ρ ≤ 1.2 := by linarith
    have : (c.lightness + 2 * ρ) ^ 2 ≤ 1.2 ^ 2 := pow_le_pow_left₀ (by positivity) this 2
    norm_num at this ⊢
    gcongr
  have mem {x κ : ℝ} (hκ0 : 0 ≤ κ) (hκ : κ ≤ 10.2)
      (hx : |x - c.lightness ^ 3| ≤ κ * (ρ * (c.lightness + 2 * ρ) ^ 2)) :
      x ∈ Set.Icc (-(15 * ρ)) (1 + 15 * ρ) := by
    have hclose := abs_le.1 (hx.trans (mul_le_mul hκ hE (by positivity) (by norm_num)))
    norm_num at hclose
    constructor <;> linarith only [hclose.1, hclose.2, hcube, hcube0, hρ0]
  exact ⟨mem (by norm_num) le_rfl hr, mem (by norm_num) (by norm_num) hg,
    mem (by norm_num) (by norm_num) hb⟩

end

end Oklab

namespace Double
open Binary64 Transfer
variable {lib : Elementary}

/-! ## Cones on doubles -/

/-- The real numbers that the doubles of a colour stand for. -/
noncomputable def exact (c : Oklab (Double lib)) : Oklab ℝ :=
  ⟨toReal c.lightness, toReal c.a, toReal c.b, toReal c.alpha⟩

theorem near_cone {u v a b l : Double lib} {u' v' a' b' l' : ℝ} (hu : Near 1.3 slip u u')
    (hv : Near 0.4 slip v v') (ha : Near 1.25 0 a a') (hb : Near 1.25 0 b b')
    (hl : Near 1 0 l l') : Near 3.2 (1 / 10 ^ 11) (Number.mulAdd u b (Number.mulAdd v a l))
      (u' * b' + (v' * a' + l')) := by
  have hva := hv.mulAdd ha hl (by norm_num [slip])
  exact (hu.mulAdd hb hva (by norm_num [slip])).mono (by norm_num) (by norm_num [slip])

theorem near_cube {x : Double lib} {r : ℝ} (h : Near 3.2 (1 / 10 ^ 11) x r) :
    Near 33 (1 / 10 ^ 9) (x * x * x) (r ^ 3) := by
  have hsq := h.mul h (by norm_num)
  have hcube : Near 33 (1 / 10 ^ 9) (x * x * x) (r * r * r) :=
    (hsq.mul h (by norm_num [slip])).mono (by norm_num) (by norm_num [slip])
  rwa [show r * r * r = r ^ 3 by ring] at hcube

theorem near_toLight {c : Oklab (Double lib)} (hL : Finite c.lightness) (ha : Finite c.a)
    (hb : Finite c.b) (hL1 : |toReal c.lightness| ≤ 1) (ha1 : |toReal c.a| ≤ 5 / 4)
    (hb1 : |toReal c.b| ≤ 5 / 4) :
    Near 500 (2 / 10 ^ 8) c.toLinear.red (exact c).channels.red ∧
      Near 500 (2 / 10 ^ 8) c.toLinear.green (exact c).channels.green ∧
      Near 500 (2 / 10 ^ 8) c.toLinear.blue (exact c).channels.blue := by
  have hnearL := Near.self hL hL1
  have hneara : Near 1.25 0 c.a (toReal c.a) := Near.self ha (ha1.trans (by norm_num))
  have hnearb : Near 1.25 0 c.b (toReal c.b) := Near.self hb (hb1.trans (by norm_num))
  have hlong : Near 33 _ _ ((exact c).long ^ 3) := near_cube (near_cone
    (near_literal (by norm_num) (by norm_num) (by norm_num) (by norm_num))
    (near_literal (by norm_num) (by norm_num) (by norm_num) (by norm_num)) hneara hnearb hnearL)
  have hmedium : Near 33 _ _ ((exact c).medium ^ 3) := near_cube (near_cone
    (near_literal (by norm_num) (by norm_num) (by norm_num) (by norm_num))
    (near_literal (by norm_num) (by norm_num) (by norm_num) (by norm_num)) hneara.neg hnearb.neg
    hnearL)
  have hshort : Near 33 _ _ ((exact c).short ^ 3) := near_cube (near_cone
    (near_literal (by norm_num) (by norm_num) (by norm_num) (by norm_num))
    (near_literal (by norm_num) (by norm_num) (by norm_num) (by norm_num)) hneara.neg hnearb.neg
    hnearL)
  refine ⟨?_, ?_, ?_⟩
  · exact (near_dot (B := 5) (near_literal (by norm_num) (by norm_num) (by norm_num) (by norm_num))
      (near_literal (by norm_num) (by norm_num) (by norm_num) (by norm_num))
      (near_literal (by norm_num) (by norm_num) (by norm_num) (by norm_num)) hshort hlong
      hmedium.neg (by norm_num) (by norm_num) (by norm_num)).mono (by norm_num) (by norm_num)
  · exact (near_dot (B := 5) (near_literal (by norm_num) (by norm_num) (by norm_num) (by norm_num))
      (near_literal (by norm_num) (by norm_num) (by norm_num) (by norm_num)).neg
      (near_literal (by norm_num) (by norm_num) (by norm_num) (by norm_num)) hshort.neg hlong
      hmedium (by norm_num) (by norm_num) (by norm_num)).mono (by norm_num) (by norm_num)
  · exact (near_dot (B := 5) (near_literal (by norm_num) (by norm_num) (by norm_num) (by norm_num))
      (near_literal (by norm_num) (by norm_num) (by norm_num) (by norm_num)).neg
      (near_literal (by norm_num) (by norm_num) (by norm_num) (by norm_num)) hshort hlong
      hmedium.neg (by norm_num) (by norm_num) (by norm_num)).mono (by norm_num) (by norm_num)

/-! ## Hue and chroma -/

theorem near_degree : Near 0.04 (1 / 10 ^ 11) ((Number.pi : Double lib) / 180.0)
    (3.141592653589793 / 180.0) := by
  have hpi : Near 4 slip (Number.pi : Double lib) 3.141592653589793 :=
    near_literal (by norm_num) (by norm_num) (by norm_num) (by norm_num)
  have h180 : Near 180 slip (180.0 : Double lib) 180.0 :=
    near_literal (by norm_num) (by norm_num) (by norm_num) (by norm_num)
  exact (hpi.div h180 (show (100 : ℝ) ≤ 180.0 by norm_num) (by norm_num [slip])
    (by norm_num [slip])).mono (by norm_num) (by norm_num [slip])

theorem near_angle {h : Double lib} (hh : Finite h) (h1 : |toReal h| ≤ 800) :
    Near 32 (1 / 10 ^ 7) (h * (Number.pi / 180.0)) (toReal h * (3.141592653589793 / 180.0)) :=
  ((Near.self hh h1).mul near_degree (by norm_num)).mono (by norm_num) (by norm_num [slip])

/-- What the opponent channels are at a hue, whichever it is. -/
theorem abs_opponent_le (acc : lib.Accurate) {p : Oklch (Double lib)} (hc : Finite p.chroma)
    (hh : Finite p.hue) (hh1 : |toReal p.hue| ≤ 800) (hc1 : |toReal p.chroma| ≤ 2) :
    Finite p.toOklab.a ∧ Finite p.toOklab.b ∧
      |toReal p.toOklab.a| ≤ |toReal p.chroma| + 1 / 10 ^ 9 ∧
      |toReal p.toOklab.b| ≤ |toReal p.chroma| + 1 / 10 ^ 9 := by
  have hangle := near_angle hh hh1
  have habs : |toReal (p.hue * (Number.pi / 180.0))| ≤ 1000 :=
    hangle.abs_toReal.trans (by norm_num)
  have hchroma := Near.self hc (le_refl |toReal p.chroma|)
  have ha := hchroma.mul (acc.cos hangle.finite habs) (by norm_num [tolerance]; linarith)
  have hb := hchroma.mul (acc.sin hangle.finite habs) (by norm_num [tolerance]; linarith)
  have hloss : |toReal p.chroma| * 1 + (|toReal p.chroma| * tolerance + 1 * 0 + 0 * tolerance +
      slip) ≤ |toReal p.chroma| + 1 / 10 ^ 9 := by
    norm_num [tolerance, slip]
    linarith
  exact ⟨ha.finite, hb.finite, ha.abs_toReal.trans hloss, hb.abs_toReal.trans hloss⟩

/-! ## The gamut -/

theorem near_gamutSlack : Near 1 slip (LinearRgb.gamutSlack : Double lib) 1e-7 :=
  near_literal (by norm_num) (by norm_num) (by norm_num) (by norm_num)

theorem near_gamutTop :
    Near 2 (2 * slip) (1.0 + LinearRgb.gamutSlack : Double lib) (1 + 1e-7) := by
  have hone : Near 1 0 (1.0 : Double lib) 1 := by
    have := Near.self (A := 1) (@finite_one lib) (by rw [toReal_one, abs_one])
    rwa [toReal_one] at this
  exact (hone.add near_gamutSlack (by norm_num [slip])).mono (by norm_num) (by norm_num [slip])

theorem bisect_spec {fits : Double lib → Bool} (steps : ℕ) {u v low high : Double lib}
    (hu : Finite u) (hv : Finite v) (hlow : Finite low) (hhigh : Finite high)
    (hulow : toReal u ≤ toReal low) (hlv : toReal low ≤ toReal v) (huh : toReal u ≤ toReal high)
    (hhv : toReal high ≤ toReal v) (hu1 : |toReal u| ≤ 100) (hv1 : |toReal v| ≤ 100)
    (hfits : low = u ∨ fits low = true) :
    Finite (Oklch.bisect fits steps low high) ∧
      toReal u ≤ toReal (Oklch.bisect fits steps low high) ∧
      toReal (Oklch.bisect fits steps low high) ≤ toReal v ∧
      (Oklch.bisect fits steps low high = u ∨
        fits (Oklch.bisect fits steps low high) = true) := by
  induction steps generalizing low high with
  | zero => exact ⟨hlow, hulow, hlv, hfits⟩
  | succ steps ih =>
    obtain ⟨hmiddle, hum, hmv⟩ :=
      middle_mem hu hv hlow hhigh hulow huh hlv hhv hu1 hv1
    rw [Oklch.bisect]
    split
    · next hfit => exact ih hmiddle hhigh hum hmv huh hhv (Or.inr hfit)
    · exact ih hlow hmiddle hulow hlv hum hmv hfits

theorem finite_nonneg {x : Double lib} (h : Finite x) : Finite (Number.nonneg x) := by
  unfold Number.nonneg
  split
  · exact h
  · exact finite_zero

theorem toReal_nonneg {x : Double lib} (h : Finite x) :
    toReal (Number.nonneg x) = max 0 (toReal x) := by
  unfold Number.nonneg
  split
  · next hpos =>
    rw [lt_iff finite_zero h, toReal_zero] at hpos
    rw [max_eq_right hpos.le]
  · next hpos =>
    rw [lt_iff finite_zero h, toReal_zero, not_lt] at hpos
    rw [toReal_zero, max_eq_left hpos]

theorem nonneg_of_pos {x : Double lib} (h : Finite x) (hpos : 0 < toReal x) :
    Number.nonneg x = x :=
  if_pos ((lt_iff finite_zero h).2 (toReal_zero.trans_lt hpos))

/-- Chroma is only taken away, and what is left fits unless nothing is left. -/
theorem toGamut_chroma {p : Oklch (Double lib)} (hc : Finite p.chroma)
    (hc1 : |toReal p.chroma| ≤ 100) : Finite p.toGamut.chroma ∧ 0 ≤ toReal p.toGamut.chroma ∧
      toReal p.toGamut.chroma ≤ |toReal p.chroma| ∧
      (toReal p.toGamut.chroma = 0 ∨ p.toGamut.inGamut = true) := by
  have hfinite := finite_nonneg hc
  have hmax := toReal_nonneg hc
  have hle : toReal (Number.nonneg p.chroma) ≤ |toReal p.chroma| := by
    rw [hmax]
    exact max_le (abs_nonneg _) (le_abs_self _)
  have hge : 0 ≤ toReal (Number.nonneg p.chroma) := hmax ▸ le_max_left _ _
  unfold Oklch.toGamut
  dsimp only
  split
  · next hfits => exact ⟨hfinite, hge, hle, Or.inr hfits⟩
  · have hzero : toReal (0.0 : Double lib) ≤ toReal (Number.nonneg p.chroma) :=
      toReal_zero.trans_le hge
    obtain ⟨hf, h0, h1, hfits⟩ := bisect_spec Oklch.chromaSteps finite_zero hfinite finite_zero
      hfinite le_rfl hzero hzero le_rfl (by norm_num)
      ((abs_of_nonneg hge).trans_le (hle.trans hc1)) (Or.inl rfl)
    rw [toReal_zero] at h0
    refine ⟨hf, h0, h1.trans hle, ?_⟩
    rcases hfits with hzero | hfits
    · left
      rw [hzero, toReal_zero]
    · rcases h0.eq_or_lt with h0 | hpos
      · exact Or.inl h0.symm
      · right
        rwa [Oklch.withChroma, nonneg_of_pos hf hpos] at hfits

/-! ## Muted colours -/

/-- A lightness in `[0, 1]`, and a chroma that keeps the opponent channels within `ρ`. -/
structure Muted (ρ : ℝ) (p : Oklch (Double lib)) : Prop where
  lightness : Finite p.lightness
  nonneg : 0 ≤ toReal p.lightness
  le_one : toReal p.lightness ≤ 1
  chroma : Finite p.chroma
  chroma_le : |toReal p.chroma| + 1 / 10 ^ 9 ≤ ρ
  hue : Finite p.hue
  hue_le : |toReal p.hue| ≤ 800

namespace Muted
variable {ρ : ℝ} {p : Oklch (Double lib)}

theorem toReal_toGamut (h : Muted ρ p) : toReal p.toGamut.lightness = toReal p.lightness := by
  rw [Oklch.toGamut_lightness, clampOr_of_finite 0.0 h.lightness,
    InUnit.toReal_clamp ⟨h.lightness, h.nonneg, h.le_one⟩]

theorem toGamut (h : Muted ρ p) (hρ : ρ ≤ 5 / 4) : Muted ρ p.toGamut := by
  have hlightness := h.toReal_toGamut
  have hchroma := h.chroma_le
  obtain ⟨hc, hc0, hc1, _⟩ := toGamut_chroma h.chroma (by linarith)
  refine ⟨?_, hlightness.symm ▸ h.nonneg, hlightness.symm ▸ h.le_one, hc, ?_, ?_, ?_⟩
  · rw [Oklch.toGamut_lightness, clampOr_of_finite 0.0 h.lightness]
    exact finite_clamp h.lightness
  · rw [abs_of_nonneg hc0]
    linarith
  · rw [Oklch.toGamut_hue]
    exact h.hue
  · rw [Oklch.toGamut_hue]
    exact h.hue_le

theorem abs_opponent_le (acc : lib.Accurate) (h : Muted ρ p) (hρ : ρ ≤ 5 / 4) :
    Finite p.toOklab.a ∧ Finite p.toOklab.b ∧ |toReal p.toOklab.a| ≤ ρ ∧
      |toReal p.toOklab.b| ≤ ρ := by
  have hchroma := h.chroma_le
  obtain ⟨ha, hb, ha1, hb1⟩ := Double.abs_opponent_le acc h.chroma h.hue h.hue_le (by linarith)
  exact ⟨ha, hb, ha1.trans hchroma, hb1.trans hchroma⟩

theorem near_toLight (acc : lib.Accurate) (h : Muted ρ p) (hρ : ρ ≤ 5 / 4) :
    Near 500 (1 / 10 ^ 7) p.toOklab.toLinear.red (exact p.toOklab).channels.red ∧
      Near 500 (1 / 10 ^ 7) p.toOklab.toLinear.green (exact p.toOklab).channels.green ∧
      Near 500 (1 / 10 ^ 7) p.toOklab.toLinear.blue (exact p.toOklab).channels.blue := by
  obtain ⟨ha, hb, ha1, hb1⟩ := h.abs_opponent_le acc hρ
  obtain ⟨hred, hgreen, hblue⟩ := Double.near_toLight (c := p.toOklab) h.lightness ha hb
    (abs_le.2 ⟨h.nonneg.trans' (by norm_num), h.le_one⟩) (by linarith) (by linarith)
  exact ⟨hred.mono le_rfl (by norm_num), hgreen.mono le_rfl (by norm_num),
    hblue.mono le_rfl (by norm_num)⟩

/-- The light of a muted colour, channel by channel, between bounds for its lightness. -/
theorem light_mem (acc : lib.Accurate) {lo hi E : ℝ} (h : Muted ρ p) (hρ : ρ ≤ 5 / 4)
    (hlo0 : 0 ≤ lo) (hlo : lo ≤ toReal p.lightness) (hhi : toReal p.lightness ≤ hi)
    (hE : ρ * (hi + 2 * ρ) ^ 2 ≤ E) (hdark : 0.004 ≤ lo ^ 3 - 10.2 * E) :
    light (Color.ofOklch p).red ∈
        Set.Icc (lo ^ 3 - 10.2 * E - 3 / 500) (hi ^ 3 + 10.2 * E + 3 / 500) ∧
      light (Color.ofOklch p).green ∈
        Set.Icc (lo ^ 3 - 5.1 * E - 3 / 500) (hi ^ 3 + 5.1 * E + 3 / 500) ∧
      light (Color.ofOklch p).blue ∈
        Set.Icc (lo ^ 3 - 7.5 * E - 3 / 500) (hi ^ 3 + 7.5 * E + 3 / 500) := by
  have hmuted := h.toGamut hρ
  have hlightness := h.toReal_toGamut
  obtain ⟨hr, hg, hb⟩ := hmuted.near_toLight acc hρ
  obtain ⟨_, _, ha1, hb1⟩ := hmuted.abs_opponent_le acc hρ
  have hchannels := @Oklab.abs_channels_sub_le (exact p.toGamut.toOklab) ρ ha1 hb1 hmuted.nonneg
  have hL : (exact p.toGamut.toOklab).lightness = toReal p.lightness := hlightness
  rw [hL] at hchannels
  have hρ0 : 0 ≤ ρ := (abs_nonneg _).trans ha1
  have hE0 : 0 ≤ E := le_trans (by positivity) hE
  have hEL : ρ * (toReal p.lightness + 2 * ρ) ^ 2 ≤ E := by
    refine le_trans ?_ hE
    have := h.nonneg
    gcongr
  have hlo3 : lo ^ 3 ≤ toReal p.lightness ^ 3 := pow_le_pow_left₀ hlo0 hlo 3
  have hhi3 : toReal p.lightness ^ 3 ≤ hi ^ 3 := pow_le_pow_left₀ h.nonneg hhi 3
  have hone : toReal p.lightness ^ 3 ≤ 1 := pow_le_one₀ h.nonneg h.le_one
  have hdark' {κ : ℝ} (hκ : κ ≤ 10.2) : 0.004 ≤ lo ^ 3 - κ * E := by
    have := mul_le_mul_of_nonneg_right hκ hE0
    linarith only [this, hdark]
  obtain ⟨hr1, hg1, hb1⟩ := hchannels
  refine ⟨?_, ?_, ?_⟩
  · exact Double.light_mem acc hr (hr1.trans (by gcongr)) hlo3 hhi3 hone hdark le_rfl
  · exact Double.light_mem acc hg (hg1.trans (by gcongr)) hlo3 hhi3 hone
      (hdark' (by norm_num)) le_rfl
  · exact Double.light_mem acc hb (hb1.trans (by gcongr)) hlo3 hhi3 hone
      (hdark' (by norm_num)) le_rfl

end Muted

end Double

end ThemeTokens
