import ThemeTokens.Proofs.Binary64.Elementary
import ThemeTokens.Proofs.Binary64.Overflow
import ThemeTokens.Proofs.Color.Perceptual

/-!
# The chroma that fits

What the gamut check on doubles says of the chroma it is asked about, at any hue: almost grey
colours pass, and what passes is finite and of moderate size.
-/
namespace ThemeTokens.Double
open Binary64 Oklch
variable {lib : Elementary} {p : Oklch (Double lib)}

/-! ## What went into a channel -/

def longCone (c : Oklab (Double lib)) : Double lib :=
  Number.mulAdd 0.2158037573 c.b (Number.mulAdd 0.3963377774 c.a c.lightness)

def shortCone (c : Oklab (Double lib)) : Double lib :=
  Number.mulAdd 1.2914855480 (-c.b) (Number.mulAdd 0.0894841775 (-c.a) c.lightness)

theorem finite_cubes (h : p.inGamut = true) :
    Finite (longCone p.toOklab * longCone p.toOklab * longCone p.toOklab) ∧
      Finite (shortCone p.toOklab * shortCone p.toOklab * shortCone p.toOklab) := by
  obtain ⟨⟨h0, h1⟩, _⟩ := LinearRgb.inGamut_iff.1 h
  have hred : Finite p.toOklab.toLinear.red :=
    isFinite_of_between near_gamutSlack.neg.finite near_gamutTop.finite h0 h1
  exact ⟨(isFinite_of_mulAdd (isFinite_of_mulAdd hred).2.2).2.1, (isFinite_of_mulAdd hred).2.1⟩

theorem finite_opponents (h : p.inGamut = true) : Finite p.toOklab.a ∧ Finite p.toOklab.b := by
  have hlong : Finite (longCone p.toOklab) := (isFinite_of_mul (finite_cubes h).1).2
  exact ⟨(isFinite_of_mulAdd (isFinite_of_mulAdd hlong).2.2).2.1, (isFinite_of_mulAdd hlong).2.1⟩

/-- A check on the channels is a check on the chroma that they were computed from. -/
theorem finite_chroma_of_inGamut (h : p.inGamut = true) : Finite p.chroma :=
  (isFinite_of_mul (finite_opponents h).1).1

theorem finite_angle {hue : Double lib} (h : Finite hue) : Finite (hue * (Number.pi / 180.0)) := by
  have hdegree := (@near_degree lib).abs_toReal
  refine ((rounds_mul h near_degree.finite).isNearest_of_le ?_).isFinite
  change |toReal hue * toReal (Number.pi / 180.0 : Double lib)| ≤ 2 ^ 1023
  have hhue : |toReal hue| < 2 ^ 1024 := abs_floatValue_lt h
  rw [pow_succ] at hhue
  have hhalf : |toReal (Number.pi / 180.0 : Double lib)| ≤ 1 / 2 := hdegree.trans (by norm_num)
  rw [abs_mul]
  calc |toReal hue| * |toReal (Number.pi / 180.0 : Double lib)|
      ≤ 2 ^ 1023 * 2 * (1 / 2) := mul_le_mul hhue.le hhalf (abs_nonneg _) (by positivity)
    _ = 2 ^ 1023 := by rw [mul_assoc, mul_one_div_cancel two_ne_zero, mul_one]

/-! ## A bound for the chroma -/

theorem abs_cone_le {u v a b l : Double lib} {u' v' K : ℝ} (hu : Near 1.3 slip u u')
    (hv : Near 0.4 slip v v') (hl : |toReal l| ≤ 1)
    (hfinite : Finite (Number.mulAdd u b (Number.mulAdd v a l)))
    (hK : |toReal (Number.mulAdd u b (Number.mulAdd v a l))| ≤ K) :
    |u' * toReal b + v' * toReal a| ≤ 2 * K + 4 + (|toReal a| + |toReal b|) / 10 ^ 11 := by
  have hinner : Finite (Number.mulAdd v a l) := (isFinite_of_mulAdd hfinite).2.2
  set inner := Number.mulAdd v a l with hinnerEq
  have houter : |toReal u * toReal b + toReal inner| ≤ 2 * |toReal (Number.mulAdd u b inner)| + 1 :=
    (isNearest_mulAdd_of_isFinite hfinite).abs_le
  have hv1 : |toReal v| ≤ 1 := hv.abs_toReal.trans (by norm_num [slip])
  have hterm : |toReal v * toReal a + toReal l| ≤ |toReal a| + 1 := by
    refine (abs_add_le _ _).trans (add_le_add ?_ hl)
    rw [abs_mul]
    exact mul_le_of_le_one_left (abs_nonneg _) hv1
  have hround : |toReal inner - (toReal v * toReal a + toReal l)| ≤ |toReal a| / 2 ^ 53 + 2 := by
    refine (isNearest_mulAdd_of_isFinite hinner).error.trans (max_le ?_ ?_)
    · refine (div_le_div_of_nonneg_right hterm (by norm_num)).trans ?_
      rw [add_div]
      gcongr
      norm_num
    · have : (1 : ℝ) / 2 ^ 1075 ≤ 1 / 1 :=
        one_div_le_one_div_of_le (by norm_num) (one_le_pow₀ (by norm_num))
      refine this.trans ?_
      have := div_nonneg (abs_nonneg (toReal a)) (show (0 : ℝ) ≤ 2 ^ 53 by norm_num)
      linarith only [this]
  have hb : |(u' - toReal u) * toReal b| ≤ slip * |toReal b| := by
    rw [abs_mul, abs_sub_comm]
    gcongr
    exact hu.error
  have ha : |(v' - toReal v) * toReal a| ≤ slip * |toReal a| := by
    rw [abs_mul, abs_sub_comm]
    gcongr
    exact hv.error
  rw [slip] at ha hb
  rw [abs_le] at houter hround ha hb hl ⊢
  constructor <;> linarith

/-- Two cones whose cubes did not overflow bound the opponent channels. -/
theorem abs_opponents_le (hL : InUnit p.lightness) (h : p.inGamut = true) :
    |toReal p.toOklab.a| + |toReal p.toOklab.b| ≤ 9 * 2 ^ 513 + 17 := by
  obtain ⟨hlong, hshort⟩ := finite_cubes h
  have hL0 : 0 ≤ toReal p.toOklab.lightness := hL.nonneg
  have hL1 : |toReal p.toOklab.lightness| ≤ 1 := abs_le.2 ⟨by linarith, hL.le_one⟩
  have hlongLe := abs_cone_le (near_literal (by norm_num) (by norm_num) (by norm_num) (by norm_num))
    (near_literal (by norm_num) (by norm_num) (by norm_num) (by norm_num)) hL1
    (isFinite_of_mul hlong).2 (abs_le_of_finite_square (isFinite_of_mul hlong).1)
  have hshortLe := abs_cone_le
    (near_literal (by norm_num) (by norm_num) (by norm_num) (by norm_num))
    (near_literal (by norm_num) (by norm_num) (by norm_num) (by norm_num)) hL1
    (isFinite_of_mul hshort).2 (abs_le_of_finite_square (isFinite_of_mul hshort).1)
  rw [toReal_neg, toReal_neg, abs_neg, abs_neg, mul_neg, mul_neg, ← neg_add, abs_neg] at hshortLe
  have hopponents := Oklab.abs_add_abs_le hlongLe hshortLe
  have hone : (1 : ℝ) ≤ 2 ^ 513 := one_le_pow₀ one_le_two
  generalize (2 : ℝ) ^ 513 = K at hone hopponents ⊢
  norm_num at hopponents
  linarith [abs_nonneg (toReal p.toOklab.a), abs_nonneg (toReal p.toOklab.b)]

/-- A colour that fits has a chroma of moderate size: a large one would make some cone so large that
its cube overflows. -/
theorem abs_chroma_le (circ : lib.Circular) (hL : InUnit p.lightness) (hhue : Finite p.hue)
    (h : p.inGamut = true) : |toReal p.chroma| ≤ 2 ^ 520 := by
  have hopponents := abs_opponents_le hL h
  have ha : |toReal p.chroma * toReal (Number.cos (p.hue * (Number.pi / 180.0)))| ≤
      2 * |toReal p.toOklab.a| + 1 := (isNearest_mul_of_isFinite (finite_opponents h).1).abs_le
  have hb : |toReal p.chroma * toReal (Number.sin (p.hue * (Number.pi / 180.0)))| ≤
      2 * |toReal p.toOklab.b| + 1 := (isNearest_mul_of_isFinite (finite_opponents h).2).abs_le
  have ha0 := abs_nonneg (toReal p.toOklab.a)
  have hb0 := abs_nonneg (toReal p.toOklab.b)
  have hone : (1 : ℝ) ≤ 2 ^ 513 := one_le_pow₀ one_le_two
  rw [abs_mul] at ha hb
  rw [show (2 : ℝ) ^ 520 = 128 * 2 ^ 513 by rw [show (128 : ℝ) = 2 ^ 7 by norm_num, ← pow_add]]
  generalize (2 : ℝ) ^ 513 = K at hone hopponents ⊢
  have half_le {t x : ℝ} (ht : 1 / 2 ≤ t) (hx : |toReal p.chroma| * t ≤ 2 * x + 1) :
      |toReal p.chroma| ≤ 4 * x + 2 := by
    have := mul_le_mul_of_nonneg_left ht (abs_nonneg (toReal p.chroma))
    linarith
  rcases circ.large (finite_angle hhue) with hcos | hsin
  · linarith [half_le hcos ha]
  · linarith [half_le hsin hb]

/-! ## Grey -/

theorem inUnit_clampOr_zero (x : Double lib) : InUnit (Number.clampOr 0.0 x) := by
  obtain ⟨h0, h1⟩ := @clampOr_mem lib x 0.0 (by
    rw [le_iff finite_zero finite_zero, le_iff finite_zero finite_one, toReal_zero, toReal_one]
    exact ⟨le_rfl, zero_le_one⟩)
  have hfinite := finite_of_mem h0 h1
  rw [le_iff finite_zero hfinite, toReal_zero] at h0
  rw [le_iff hfinite finite_one, toReal_one] at h1
  exact ⟨hfinite, h0, h1⟩

theorem clampOr_clampOr_zero (x : Double lib) :
    Number.clampOr 0.0 (Number.clampOr 0.0 x) = Number.clampOr 0.0 x := by
  have h := inUnit_clampOr_zero x
  refine clampOr_of_mem _ ((le_iff finite_zero h.finite).2 ?_) ((le_iff h.finite finite_one).2 ?_)
  · exact toReal_zero.trans_le h.nonneg
  · exact h.le_one.trans_eq toReal_one.symm

/-- Almost grey colours are inside, at any hue. -/
theorem fits_of_le (circ : lib.Circular) (hhue : Finite p.hue) {chroma : Double lib}
    (hchroma : Finite chroma) (hle : toReal chroma ≤ 1 / 10 ^ 9) : p.fits chroma = true := by
  set c := (p.bounded.withChroma chroma).toOklab with hc
  obtain ⟨hcos, hcos1⟩ := circ.cos (finite_angle hhue)
  obtain ⟨hsin, hsin1⟩ := circ.sin (finite_angle hhue)
  have hnonneg : |toReal (Number.nonneg chroma)| ≤ 1 / 10 ^ 9 := by
    rw [toReal_nonneg hchroma, abs_of_nonneg (le_max_left _ _)]
    exact max_le (by norm_num) hle
  have hnear := Near.self (finite_nonneg hchroma) hnonneg
  have ha : Near _ _ c.a _ := hnear.mul (Near.self hcos hcos1) (by norm_num)
  have hb : Near _ _ c.b _ := hnear.mul (Near.self hsin hsin1) (by norm_num)
  have ha2 : |toReal c.a| ≤ 2 / 10 ^ 9 := ha.abs_toReal.trans (by norm_num [slip])
  have hb2 : |toReal c.b| ≤ 2 / 10 ^ 9 := hb.abs_toReal.trans (by norm_num [slip])
  have hL : InUnit c.lightness := inUnit_clampOr_zero p.lightness
  obtain ⟨hred, hgreen, hblue⟩ := near_toLight hL.finite ha.finite hb.finite
    (abs_le.2 ⟨by linarith [hL.nonneg], hL.le_one⟩) (ha2.trans (by norm_num))
    (hb2.trans (by norm_num))
  obtain ⟨hr, hg, hb⟩ := @Oklab.channels_mem (exact c) (2 / 10 ^ 9) ha2 hb2 hL.nonneg hL.le_one
    (by norm_num)
  have inside {x : Double lib} {r : ℝ} (hx : Near 500 (2 / 10 ^ 8) x r)
      (hr : r ∈ Set.Icc (-(15 * (2 / 10 ^ 9)) : ℝ) (1 + 15 * (2 / 10 ^ 9))) :
      -LinearRgb.gamutSlack ≤ x ∧ x ≤ 1.0 + LinearRgb.gamutSlack := by
    rw [le_iff near_gamutSlack.neg.finite hx.finite, le_iff hx.finite near_gamutTop.finite]
    have h0 := (@near_gamutSlack lib).neg.le
    have h1 := (@near_gamutTop lib).ge
    have hx0 := hx.le
    have hx1 := hx.ge
    norm_num [slip] at h0 h1 hr hx0 hx1 ⊢
    constructor <;> linarith
  exact LinearRgb.inGamut_iff.2 ⟨inside hred hr, inside hgreen hg, inside hblue hb⟩

theorem fits_zero (circ : lib.Circular) (hhue : Finite p.hue) : p.fits 0.0 = true :=
  fits_of_le circ hhue finite_zero (by rw [toReal_zero]; norm_num)

theorem finite_of_fits {chroma : Double lib} (hpos : 0.0 < chroma) (h : p.fits chroma = true) :
    Finite chroma := by
  have hfinite := finite_chroma_of_inGamut h
  rwa [bounded, withChroma, show Number.nonneg chroma = chroma from if_pos hpos] at hfinite

end ThemeTokens.Double
