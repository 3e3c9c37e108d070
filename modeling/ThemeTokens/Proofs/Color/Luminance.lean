import ThemeTokens.Contrast
import ThemeTokens.Proofs.Binary64.Byte
import ThemeTokens.Proofs.Binary64.Elementary
import ThemeTokens.Proofs.Color.Power

/-!
# Luminance

The light of a byte, the luminance of a colour and the contrast of two, as real numbers, and how
close the computations on doubles come to them.
-/
namespace ThemeTokens

/-- The light of an encoded sRGB channel. -/
noncomputable def Transfer.decoded (x : ℝ) : ℝ :=
  if x ≤ 0.04045 then x / 12.92 else ((x + 0.055) / 1.055) ^ (2.4 : ℝ)

/-- The light of a byte. -/
noncomputable def Transfer.light (b : UInt8) : ℝ := decoded (b.toNat / 255)

/-- The relative luminance without rounding. -/
noncomputable def Color.light {R : Type} (c : Color R) : ℝ :=
  0.2126 * Transfer.light c.red + (0.7152 * Transfer.light c.green + 0.0722 * Transfer.light c.blue)

/-- The contrast of two colours without rounding. -/
noncomputable def Color.contrast {R : Type} (a b : Color R) : ℝ :=
  (max a.light b.light + 0.05) / (min a.light b.light + 0.05)

/-- Equal but for the alpha. -/
def Color.SameChannels {R : Type} (c d : Color R) : Prop :=
  c.red = d.red ∧ c.green = d.green ∧ c.blue = d.blue

namespace Color.SameChannels
variable {R : Type} {c d e : Color R}

theorem refl (c : Color R) : c.SameChannels c := ⟨rfl, rfl, rfl⟩

theorem symm (h : c.SameChannels d) : d.SameChannels c := ⟨h.1.symm, h.2.1.symm, h.2.2.symm⟩

theorem trans (h : c.SameChannels d) (h' : d.SameChannels e) : c.SameChannels e :=
  ⟨h.1.trans h'.1, h.2.1.trans h'.2.1, h.2.2.trans h'.2.2⟩

theorem eq_of_alpha (h : c.SameChannels d) (halpha : c.alpha = d.alpha) : c = d := by
  cases c
  cases d
  obtain ⟨rfl, rfl, rfl⟩ := h
  obtain rfl := halpha
  rfl

theorem light_eq (h : c.SameChannels d) : c.light = d.light := by
  rw [Color.light, Color.light, h.1, h.2.1, h.2.2]

variable [Number R]

theorem luminance_eq (h : c.SameChannels d) : c.luminance = d.luminance := by
  rw [Color.luminance, Color.luminance, Color.linear, Color.linear, h.1, h.2.1, h.2.2]

theorem ratio_eq (h : c.SameChannels d) (background : Color R) :
    Contrast.ratio c background = Contrast.ratio d background := by
  rw [Contrast.ratio, Contrast.ratio, h.luminance_eq]

end Color.SameChannels

namespace Double
open Binary64 Transfer
variable {lib : Elementary}

/-! ## Constants -/

/-- The slope of the linear part of the transfer function. -/
theorem near_slope : Near 13 slip (12.92 : Double lib) 12.92 :=
  near_literal (by norm_num) (by norm_num) (by norm_num) (by norm_num)

theorem near_scale : Near 1.055 slip (1.055 : Double lib) 1.055 :=
  near_literal (by norm_num) (by norm_num) (by norm_num) (by norm_num)

theorem near_offset : Near 0.055 slip (0.055 : Double lib) 0.055 :=
  near_literal (by norm_num) (by norm_num) (by norm_num) (by norm_num)

theorem near_exponent : Near 3 slip (2.4 : Double lib) 2.4 :=
  near_literal (by norm_num) (by norm_num) (by norm_num) (by norm_num)

/-- What is added to a luminance before luminances are divided. -/
theorem near_flare : Near 0.05 slip (0.05 : Double lib) 0.05 :=
  near_literal (by norm_num) (by norm_num) (by norm_num) (by norm_num)

/-- The ratio that text is asked for. -/
theorem near_textRatio : Near 5 slip (4.5 : Double lib) 4.5 :=
  near_literal (by norm_num) (by norm_num) (by norm_num) (by norm_num)

/-! ## Bytes -/

/-- The threshold of the transfer function lies between two bytes. -/
theorem ofByte_le_threshold (b : UInt8) :
    (Number.ofByte b : Double lib) ≤ 0.04045 ↔ (b.toNat : ℝ) / 255 ≤ 0.04045 := by
  have hx := @near_ofByte lib b
  have hlit : Near 1 slip (0.04045 : Double lib) 0.04045 :=
    near_literal (by norm_num) (by norm_num) (by norm_num) (by norm_num)
  rw [le_iff hx.finite hlit.finite]
  have hle := hx.le
  have hge := hx.ge
  have hle' := hlit.le
  have hge' := hlit.ge
  norm_num [slip] at hle hge hle' hge' ⊢
  rcases le_or_gt b.toNat 10 with h | h
  · have h' : (b.toNat : ℝ) ≤ 10 := by exact_mod_cast h
    constructor <;> intro <;> linarith
  · have h' : (11 : ℝ) ≤ b.toNat := by exact_mod_cast h
    constructor <;> intro <;> linarith

/-- Powers with the exponent of the decoding, on the bases that it is used for. -/
theorem near_decodingPower (acc : lib.Accurate) {x : Double lib} {r : ℝ}
    (hbase : Near 2 (2 / 10 ^ 11) x r) (hr0 : 0.09 ≤ r) (hr1 : r ≤ 1) :
    Near 1 (1 / 10 ^ 9) (Number.pow x 2.4) (r ^ (2.4 : ℝ)) := by
  have hexp := @near_exponent lib
  have hxle := hbase.le
  have hxge := hbase.ge
  have hexple := hexp.le
  have hexpge := hexp.ge
  norm_num [slip] at hxle hxge hexple hexpge hr0
  have hx0 : 0.08 ≤ toReal x := by
    norm_num
    linarith only [hxge, hr0]
  have hx2 : toReal x ≤ 2 := by linarith only [hxle, hr1]
  have hy1 : 1 ≤ toReal (2.4 : Double lib) := by linarith only [hexpge]
  have hy3 : toReal (2.4 : Double lib) ≤ 3 := by linarith only [hexple]
  have hx00 : 0 < toReal x := lt_of_lt_of_le (by norm_num) hx0
  have hr00 : 0 < r := lt_of_lt_of_le (by norm_num) hr0
  have hy0 : 0 ≤ toReal (2.4 : Double lib) := zero_le_one.trans hy1
  have hpow := acc.pow hbase.finite hexp.finite hx00.le hx2 hy0 hy3
  have hbasepow := @abs_rpow_sub_rpow_le r (toReal x) (toReal (2.4 : Double lib)) hr00 hx00
    (hr1.trans one_le_two) hx2 hy1 hy3
  have hexppow := @abs_rpow_sub_rpow_exponent r 2.4 (toReal (2.4 : Double lib)) hr00 hr1
    (by norm_num) hy0
  refine ⟨hpow.finite, ?_, ?_⟩
  · rw [abs_of_nonneg (Real.rpow_nonneg hr00.le _)]
    exact Real.rpow_le_one hr00.le hr1 (by norm_num)
  · have hstep : |toReal (2.4 : Double lib) - 2.4| / r ≤ slip / 0.09 :=
      div_le_div₀ (by norm_num [slip]) hexp.error (by norm_num) (by norm_num; exact hr0)
    have herror := hpow.error
    have hbaseerror := hbase.error
    have htriangle := abs_sub_le (toReal (Number.pow x (2.4 : Double lib)))
      (toReal x ^ toReal (2.4 : Double lib)) (r ^ (2.4 : ℝ))
    have htriangle' := abs_sub_le (toReal x ^ toReal (2.4 : Double lib))
      (r ^ toReal (2.4 : Double lib)) (r ^ (2.4 : ℝ))
    refine htriangle.trans (le_trans (add_le_add herror (htriangle'.trans
      (add_le_add (hbasepow.trans (mul_le_mul_of_nonneg_left hbaseerror (by norm_num)))
        (hexppow.trans hstep)))) ?_)
    norm_num [slip, tolerance]

theorem near_toLinear (acc : lib.Accurate) (b : UInt8) :
    Near 1 (1 / 10 ^ 9) (toLinear (Number.ofByte b : Double lib)) (light b) := by
  have hx := @near_ofByte lib b
  have hb1 : (b.toNat : ℝ) / 255 ≤ 1 := by
    rw [div_le_one (by norm_num)]
    exact toNat_le b
  unfold toLinear light decoded
  by_cases h : (b.toNat : ℝ) / 255 ≤ 0.04045
  · rw [if_pos ((ofByte_le_threshold b).2 h), if_pos h]
    exact (hx.div near_slope (show (1 : ℝ) ≤ 12.92 by norm_num) (by norm_num [slip])
      (by norm_num [slip])).mono (by norm_num) (by norm_num [slip])
  · have hbase : Near 2 (2 / 10 ^ 11) (((Number.ofByte b + 0.055) / 1.055 : Double lib))
        ((b.toNat / 255 + 0.055) / 1.055) :=
      ((hx.add near_offset (by norm_num [slip])).div near_scale (show (1 : ℝ) ≤ 1.055 by norm_num)
        (by norm_num [slip]) (by norm_num [slip])).mono (by norm_num) (by norm_num [slip])
    rw [if_neg fun h' => h ((ofByte_le_threshold b).1 h'), if_neg h]
    rw [not_le] at h
    refine near_decodingPower acc hbase ?_ ?_
    · rw [le_div_iff₀ (by norm_num)]
      linarith
    · rw [div_le_one (by norm_num)]
      linarith

theorem near_dot {u v w x y z : Double lib} {u' v' w' x' y' z' A B ε : ℝ} (hu : Near B slip u u')
    (hv : Near B slip v v') (hw : Near B slip w w') (hx : Near A ε x x') (hy : Near A ε y y')
    (hz : Near A ε z z') (hA : A ≤ 40) (hB : B ≤ 5) (hε : ε ≤ 1 / 1000) :
    Near (3 * (B * A)) (3 * (B * ε) + 2 / 10 ^ 10) (Number.dot u x v y w z)
      (u' * x' + (v' * y' + w' * z')) := by
  have hA0 := hx.bound_nonneg
  have hB0 := hu.bound_nonneg
  have hε0 := hx.error_nonneg
  have hBA : B * A ≤ 200 := by nlinarith
  have hBε : B * ε ≤ 1 / 200 := by nlinarith
  have hwz := hw.mul hz (by norm_num [slip]; linarith)
  have hvy := hv.mulAdd hy hwz (by norm_num [slip]; linarith)
  have hux := hu.mulAdd hx hvy (by norm_num [slip]; linarith)
  exact hux.mono (by linarith) (by norm_num [slip]; linarith)

theorem light_nonneg (b : UInt8) : 0 ≤ light b := by
  unfold light decoded
  split
  · positivity
  · positivity

/-- A bound on the light of a byte from one on the power that decodes it. -/
theorem light_le_of_power {b : UInt8} {n base bound : ℝ} (hb : (b.toNat : ℝ) ≤ n)
    (hbase : (n / 255 + 0.055) / 1.055 ≤ base) (hpower : base ^ (2.4 : ℝ) ≤ bound)
    (hlinear : 0.04045 / 12.92 ≤ bound) : light b ≤ bound := by
  unfold light decoded
  split
  · next h => exact (div_le_div_of_nonneg_right h (by norm_num)).trans hlinear
  · have hle : ((b.toNat : ℝ) / 255 + 0.055) / 1.055 ≤ base := le_trans (by gcongr) hbase
    exact (Real.rpow_le_rpow (by positivity) hle (by norm_num)).trans hpower

theorem light_le_one (b : UInt8) : light b ≤ 1 :=
  light_le_of_power (toNat_le b) (by norm_num) (Real.one_rpow _).le (by norm_num)

theorem color_light_nonneg {R : Type} (c : Color R) : 0 ≤ c.light := by
  unfold Color.light
  have := light_nonneg c.red
  have := light_nonneg c.green
  have := light_nonneg c.blue
  positivity

theorem color_light_le_one {R : Type} (c : Color R) : c.light ≤ 1 := by
  unfold Color.light
  have := light_le_one c.red
  have := light_le_one c.green
  have := light_le_one c.blue
  norm_num
  linarith

theorem near_luminance (acc : lib.Accurate) (c : Color (Double lib)) :
    Near 1 (1 / 10 ^ 8) c.luminance c.light := by
  have hlit {m : ℕ} (hm : m < 10000) :
      Near 1 slip (OfScientific.ofScientific m true 4 : Double lib)
        (OfScientific.ofScientific m true 4 : ℝ) := by
    refine near_literal (hm.trans (by norm_num)) (by norm_num) ?_ (by norm_num)
    have : (m : ℝ) < 10000 := by exact_mod_cast hm
    rw [real_literal, div_le_one (by norm_num)]
    norm_num
    linarith
  have hdot := near_dot (hlit (m := 2126) (by norm_num)) (hlit (m := 7152) (by norm_num))
    (hlit (m := 722) (by norm_num)) (near_toLinear acc c.red) (near_toLinear acc c.green)
    (near_toLinear acc c.blue) (by norm_num) (by norm_num) (by norm_num)
  refine ⟨hdot.finite, ?_, hdot.error.trans (by norm_num)⟩
  rw [abs_of_nonneg (color_light_nonneg c)]
  exact color_light_le_one c

/-! ## Contrast -/

theorem near_contrast (acc : lib.Accurate) (a b : Color (Double lib)) :
    Near 21 (1 / 10 ^ 5) ((a.luminance + 0.05) / (b.luminance + 0.05))
      ((a.light + 0.05) / (b.light + 0.05)) := by
  have ha := (near_luminance acc a).add near_flare (by norm_num [slip])
  have hb := (near_luminance acc b).add near_flare (by norm_num [slip])
  have hb0 : (0.05 : ℝ) ≤ b.light + 0.05 := by linarith [color_light_nonneg b]
  exact (ha.div hb hb0 (by norm_num [slip]) (by norm_num [slip])).mono (by norm_num)
    (by norm_num [slip])

theorem contrast_comm {R : Type} (a b : Color R) : a.contrast b = b.contrast a := by
  rw [Color.contrast, Color.contrast, max_comm, min_comm]

theorem contrast_of_le {R : Type} {a b : Color R} (h : b.light ≤ a.light) :
    a.contrast b = (a.light + 0.05) / (b.light + 0.05) := by
  rw [Color.contrast, max_eq_left h, min_eq_right h]

/-- Which of two colours is lighter is decided up to rounding, and then it hardly matters. -/
theorem near_quotient_of_le (acc : lib.Accurate) {a b : Color (Double lib)}
    (h : toReal b.luminance ≤ toReal a.luminance) :
    Near 21 (1 / 10 ^ 4) ((a.luminance + 0.05) / (b.luminance + 0.05)) (a.contrast b) := by
  have hquot := near_contrast acc a b
  rcases le_or_gt b.light a.light with hle | hlt
  · rw [contrast_of_le hle]
    exact hquot.mono le_rfl (by norm_num)
  · have ha := (near_luminance acc a).le
    have hb := (near_luminance acc b).ge
    have ha0 := color_light_nonneg a
    have hb1 := color_light_le_one b
    have hclose : b.light - a.light ≤ 2 / 10 ^ 8 := by linarith
    have hx : (0 : ℝ) < a.light + 0.05 := by positivity
    have hy : (0 : ℝ) < b.light + 0.05 := by linarith
    have hdiff : |(a.light + 0.05) / (b.light + 0.05) - (b.light + 0.05) / (a.light + 0.05)| ≤
        1 / 10 ^ 5 := by
      have hone : (a.light + 0.05) / (b.light + 0.05) ≤ 1 := (div_le_one hy).2 (by linarith)
      have hone' : 1 ≤ (b.light + 0.05) / (a.light + 0.05) := (one_le_div hx).2 (by linarith)
      have hlow : 1 - 1 / 10 ^ 6 ≤ (a.light + 0.05) / (b.light + 0.05) := by
        rw [le_div_iff₀ hy]
        norm_num at hclose ⊢
        linarith only [hclose, ha0, hlt]
      have hhigh : (b.light + 0.05) / (a.light + 0.05) ≤ 1 + 1 / 10 ^ 6 := by
        rw [div_le_iff₀ hx]
        norm_num at hclose ⊢
        linarith only [hclose, ha0]
      rw [abs_le]
      constructor <;> linarith
    rw [contrast_comm, contrast_of_le hlt.le]
    refine ⟨hquot.finite, ?_, ?_⟩
    · rw [abs_of_nonneg (div_nonneg hy.le hx.le), div_le_iff₀ hx]
      linarith
    · refine (abs_sub_le _ ((a.light + 0.05) / (b.light + 0.05)) _).trans ?_
      refine (add_le_add hquot.error hdiff).trans ?_
      norm_num

theorem near_ratio (acc : lib.Accurate) (a b : Color (Double lib)) :
    Near 21 (1 / 10 ^ 4) (Contrast.ratio a b) (a.contrast b) := by
  have ha := (near_luminance acc a).finite
  have hb := (near_luminance acc b).finite
  unfold Contrast.ratio
  dsimp only
  split
  · next h =>
    rw [le_iff hb ha] at h
    exact near_quotient_of_le acc h
  · next h =>
    rw [le_iff hb ha, not_le] at h
    rw [contrast_comm]
    exact near_quotient_of_le acc h.le

/-- Contrast is always a number. -/
theorem finite_ratio (acc : lib.Accurate) (a b : Color (Double lib)) :
    Finite (Contrast.ratio a b) :=
  (near_ratio acc a b).finite

theorem light_black : (Color.black : Color (Double lib)).light = 0 := by
  have hzero : light 0 = 0 := by
    rw [light, decoded, if_pos] <;> norm_num
  change 0.2126 * light 0 + (0.7152 * light 0 + 0.0722 * light 0) = 0
  rw [hzero]
  norm_num

theorem light_white : (Color.white : Color (Double lib)).light = 1 := by
  have hone : light 255 = 1 := by
    have hnat : (255 : UInt8).toNat = 255 := rfl
    rw [light, decoded, hnat, if_neg] <;> norm_num
  change 0.2126 * light 255 + (0.7152 * light 255 + 0.0722 * light 255) = 1
  rw [hone]
  norm_num

theorem meets_of_le (acc : lib.Accurate) {a b : Color (Double lib)} {m : Double lib}
    (hm : Finite m) (h : toReal m + 1 / 10 ^ 4 ≤ a.contrast b) : Contrast.meets a b m = true := by
  have hratio := near_ratio acc a b
  refine decide_eq_true ((le_iff hm hratio.finite).2 ?_)
  linarith [hratio.ge]

/-- A pair either meets a ratio or falls short of it. -/
theorem ratio_lt_iff_not_meets (acc : lib.Accurate) (a b : Color (Double lib)) {m : Double lib}
    (hm : Number.isNaN m = false) :
    Contrast.ratio a b < m ↔ Contrast.meets a b m = false := by
  rw [Contrast.meets, decide_eq_false_iff_not,
    ← not_lt_iff_le (finite_ratio acc a b).isNaN_eq_false hm, not_not]

end Double

end ThemeTokens
