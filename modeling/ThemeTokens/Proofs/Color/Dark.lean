import ThemeTokens.Proofs.Color.Cube
import ThemeTokens.Proofs.Color.Encode

/-!
# Dark channels

Where the transfer function is linear, a byte shows at most twice the light that it was written for,
and only what is nearly no light is written as zero. So a colour without lightness is black, and no
dark colour shows much more than its luminance.
-/
namespace ThemeTokens.Double
open Transfer
variable {lib : Binary64.Elementary} {A ε r : ℝ} {x : Double lib}

/-! ## Bytes -/

theorem toNat_toByte_le (hx : Finite x) (hx1 : toReal x ≤ 0.0031) :
    ((Number.toByte (ofLinear x)).toNat : ℝ) ≤ 255 * (12.92 * max 0 (toReal x)) + 0.5001 := by
  have hclamp : Finite (Number.clamp x) := finite_clamp hx
  have hvalue : toReal (Number.clamp x) = max 0 (toReal x) := by
    rw [toReal_clamp hx, min_eq_right (by norm_num at hx1 ⊢; linarith)]
  have h0 : 0 ≤ max 0 (toReal x) := le_max_left _ _
  have h1 : max 0 (toReal x) ≤ 0.0031 := max_le (by norm_num) hx1
  have hlit := @near_linearEnd lib
  have hself : Near 0.0031 0 (Number.clamp x) (toReal (Number.clamp x)) :=
    .self hclamp (by rw [hvalue, abs_of_nonneg h0]; exact h1)
  have hbranch : Number.clamp x ≤ (0.0031308 : Double lib) := by
    have hge := hlit.ge
    rw [le_iff hclamp hlit.finite, hvalue]
    refine h1.trans (le_trans ?_ hge)
    norm_num [slip]
  have hproduct := hself.mul near_slope (by norm_num [slip])
  rw [hvalue, mul_comm (max 0 (toReal x))] at hproduct
  rw [ofLinear, clampOr_of_finite 0.0 hx, if_pos hbranch]
  generalize max 0 (toReal x) = y at *
  have hbyte := abs_toByte_sub_le hproduct (by positivity) (by norm_num at h1 ⊢; linarith)
    (by norm_num [slip])
  have hle := (abs_le.1 hbyte).2
  norm_num [slip] at hle ⊢
  linarith

theorem toByte_ofLinear_eq_zero (h : Near A ε x r) (hr : r ≤ 1 / 10 ^ 4) (hε : ε ≤ 1 / 10 ^ 7) :
    Number.toByte (ofLinear x) = 0 := by
  have hx1 : toReal x ≤ 1.01 / 10 ^ 4 := by
    have := h.le
    norm_num at hr hε ⊢
    linarith
  have hbyte := toNat_toByte_le h.finite (hx1.trans (by norm_num))
  have hmax : max 0 (toReal x) ≤ 1.01 / 10 ^ 4 := max_le (by norm_num) hx1
  generalize max 0 (toReal x) = y at hbyte hmax
  have hlt : ((Number.toByte (ofLinear x)).toNat : ℝ) < 1 := by
    norm_num at hbyte hmax
    linarith
  have hzero : (Number.toByte (ofLinear x)).toNat < 1 := by exact_mod_cast hlt
  exact UInt8.toNat_inj.1 (Nat.lt_one_iff.1 hzero)

/-- Half a byte is rounded up to at most a whole one. -/
theorem light_toByte_le_of_linear (hx : Finite x) (hx1 : toReal x ≤ 0.0031) :
    light (Number.toByte (ofLinear x)) ≤ 2 * max 0 (toReal x) + 1 / 10 ^ 6 := by
  have hbyte := toNat_toByte_le hx hx1
  have h0 : 0 ≤ max 0 (toReal x) := le_max_left _ _
  have h1 : max 0 (toReal x) ≤ 0.0031 := max_le (by norm_num) hx1
  generalize max 0 (toReal x) = y at *
  have hsmall : ((Number.toByte (ofLinear x)).toNat : ℝ) < 11 := by
    norm_num at hbyte h1
    linarith
  have hle : (Number.toByte (ofLinear x)).toNat ≤ 10 :=
    Nat.le_of_lt_succ (by exact_mod_cast hsmall)
  rw [light_eq_of_toNat_le hle, div_le_iff₀ (by norm_num)]
  rcases Nat.eq_zero_or_pos (Number.toByte (ofLinear x)).toNat with hzero | hpos
  · rw [hzero]
    norm_num
    linarith
  · have hone : (1 : ℝ) ≤ (Number.toByte (ofLinear x)).toNat := by exact_mod_cast hpos
    norm_num at hbyte ⊢
    linarith

/-- The bytes around the end of the linear part. -/
theorem light_le_of_toNat_le_eighteen {b : UInt8} (h : b.toNat ≤ 18) : light b ≤ 0.008 := by
  have hb : (b.toNat : ℝ) ≤ 18 := by exact_mod_cast h
  have hpower : (0.1191 : ℝ) ^ (2.4 : ℝ) ≤ 0.008 := by
    rw [decodingExponent_eq]
    exact rpow_le_of_le_pow (by norm_num) (by norm_num) (by norm_num) (by norm_num)
  exact light_le_of_power hb (by norm_num) hpower (by norm_num)

theorem light_toByte_le_of_dim (acc : lib.Accurate) (h : Near A ε x r) (hr : 0.004 ≤ r)
    (hr1 : r ≤ 0.006) (hε : ε ≤ 1 / 10 ^ 7) : light (Number.toByte (ofLinear x)) ≤ 0.008 := by
  have hr0 : (0 : ℝ) ≤ r := le_trans (by norm_num) hr
  have hbyte := (abs_le.1 (abs_byte_sub_le acc h hr hε)).2
  have hroot : r ^ (1 / 2.4 : ℝ) ≤ 0.12 := by
    refine (Real.rpow_le_rpow hr0 hr1 (by norm_num)).trans ?_
    rw [exponent_eq]
    exact rpow_le_of_le_pow (by norm_num) (by norm_num) (by norm_num) (by norm_num)
  rw [encoded_of_le_one (hr1.trans (by norm_num))] at hbyte
  have hlt : ((Number.toByte (ofLinear x)).toNat : ℝ) < 19 := by
    norm_num at hbyte hroot
    linarith
  exact light_le_of_toNat_le_eighteen (Nat.le_of_lt_succ (by exact_mod_cast hlt))

/-- Whatever sRGB holds is shown by its byte up to twice as light. -/
theorem light_toByte_le_twice (acc : lib.Accurate) (h : Near A ε x r) (hε : ε ≤ 1 / 10 ^ 7)
    (hr : -(1 / 10 ^ 6) ≤ r) : light (Number.toByte (ofLinear x)) ≤ 2 * r + 1 / 10 ^ 5 := by
  have hle := h.le
  have hge := h.ge
  rcases le_or_gt (toReal x) 0.0031 with hlinear | hcurved
  · have hlight := light_toByte_le_of_linear h.finite hlinear
    have hmax : max 0 (toReal x) ≤ r + 2 / 10 ^ 6 :=
      max_le (by norm_num at hr ⊢; linarith) (by norm_num at hε ⊢; linarith)
    generalize max 0 (toReal x) = y at hlight hmax
    norm_num at hlight hmax ⊢
    linarith
  rcases le_or_gt (toReal x) 0.0041 with hdark | hbright
  · have hlight := light_toByte_le_of_dark acc h.finite hdark
    norm_num at hlight hcurved hε ⊢
    linarith
  have hr0 : 0.004 ≤ r := by
    norm_num at hbright hε ⊢
    linarith
  rcases le_or_gt r 0.006 with hdim | hbright'
  · have hlight := light_toByte_le_of_dim acc h hr0 hdim hε
    norm_num at hlight hr0 ⊢
    linarith
  · have hlight := (abs_le.1 (abs_light_sub_le acc h hr0 hε)).2
    have hmin := min_le_right 1 r
    norm_num at hlight hbright' ⊢
    linarith

/-! ## Colours -/

namespace Muted
variable {ρ : ℝ} {p : Oklch (Double lib)}

theorem ofOklch_eq_black (acc : lib.Accurate) (h : Muted ρ p) (hρ : ρ ≤ 5 / 4)
    (hL : toReal p.lightness = 0) : (Color.ofOklch p).red = 0 ∧
      (Color.ofOklch p).green = 0 ∧ (Color.ofOklch p).blue = 0 := by
  obtain ⟨hr, hg, hb⟩ := (h.toGamut hρ).near_toLight acc hρ
  obtain ⟨hr1, hg1, hb1⟩ := (h.cones acc hρ).black_of_lightness hL
  exact ⟨toByte_ofLinear_eq_zero hr hr1 le_rfl, toByte_ofLinear_eq_zero hg hg1 le_rfl,
    toByte_ofLinear_eq_zero hb hb1 le_rfl⟩

theorem light_le_twice (acc : lib.Accurate) (h : Muted ρ p) (hρ : ρ ≤ 5 / 4) :
    (Color.ofOklch p).light ≤
      2 * (exact p.toGamut.toOklab).channels.luminance + 1 / 10 ^ 5 := by
  obtain ⟨hr, hg, hb⟩ := (h.toGamut hρ).near_toLight acc hρ
  obtain ⟨⟨hr0, _⟩, ⟨hg0, _⟩, ⟨hb0, _⟩⟩ := h.fits_toGamut acc hρ
  have hred : light (Color.ofOklch p).red ≤ _ := light_toByte_le_twice acc hr le_rfl hr0
  have hgreen : light (Color.ofOklch p).green ≤ _ := light_toByte_le_twice acc hg le_rfl hg0
  have hblue : light (Color.ofOklch p).blue ≤ _ := light_toByte_le_twice acc hb le_rfl hb0
  rw [Color.light, LinearRgb.luminance]
  norm_num at hred hgreen hblue ⊢
  linarith only [hred, hgreen, hblue]

end Muted

end ThemeTokens.Double
