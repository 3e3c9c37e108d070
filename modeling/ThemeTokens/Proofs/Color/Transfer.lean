import ThemeTokens.Proofs.Color.Luminance

/-!
# The transfer function

Encoding an amount of light as a byte and decoding the byte gives the amount back up to the
rounding of the byte.
-/
namespace ThemeTokens
open Transfer

/-- The encoded channel of an amount of light above the linear part. -/
noncomputable def Transfer.encoded (x : ℝ) : ℝ := 1.055 * (min 1 x) ^ (1 / 2.4 : ℝ) - 0.055

/-- The exponents of the two directions as fractions. -/
theorem Transfer.exponent_eq : (1 / 2.4 : ℝ) = ((5 : ℕ) : ℝ) / (12 : ℕ) := by norm_num

theorem Transfer.decodingExponent_eq : (2.4 : ℝ) = ((12 : ℕ) : ℝ) / (5 : ℕ) := by norm_num

/-- Where the amount is no less than this, its byte is decoded by the power too. -/
theorem root_of_le {r : ℝ} (hr : 0.004 ≤ r) : 0.1 ≤ r ^ (1 / 2.4 : ℝ) := by
  have hr0 : (0 : ℝ) ≤ r := by linarith
  rw [exponent_eq]
  refine le_rpow_of_pow_le (by norm_num) hr0 (by norm_num) ?_
  calc (0.1 : ℝ) ^ 12 ≤ 0.004 ^ 5 := by norm_num
    _ ≤ r ^ 5 := by gcongr

theorem root_le_one {r : ℝ} (hr0 : 0 ≤ r) (hr1 : r ≤ 1) : r ^ (1 / 2.4 : ℝ) ≤ 1 :=
  Real.rpow_le_one hr0 hr1 (by norm_num)

theorem encoded_of_le_one {r : ℝ} (hr1 : r ≤ 1) :
    encoded r = 1.055 * r ^ (1 / 2.4 : ℝ) - 0.055 := by
  rw [encoded, min_eq_right hr1]

/-- A channel near the encoded one is decoded near the amount of light. -/
theorem abs_decoded_sub_le {r e : ℝ} (hr : 0.004 ≤ r) (hr1 : r ≤ 1) (he1 : e ≤ 1)
    (h : |e - encoded r| ≤ 1 / 400) : |decoded e - r| ≤ 3 / 500 := by
  have hr0 : (0 : ℝ) ≤ r := by linarith
  have hroot := root_of_le hr
  have hroot1 := root_le_one hr0 hr1
  rw [encoded_of_le_one hr1] at h
  obtain ⟨hlow, hhigh⟩ := abs_le.1 h
  have hthreshold : ¬ e ≤ 0.04045 := by
    norm_num at hroot ⊢
    linarith
  have hinverse : (r ^ (1 / 2.4 : ℝ)) ^ (2.4 : ℝ) = r := by
    rw [← Real.rpow_mul hr0]
    norm_num
  have hclose : |(e + 0.055) / 1.055 - r ^ (1 / 2.4 : ℝ)| ≤ 1 / 420 := by
    have hsplit : (e + 0.055) / 1.055 - r ^ (1 / 2.4 : ℝ) =
        (e - (1.055 * r ^ (1 / 2.4 : ℝ) - 0.055)) / 1.055 := by
      field_simp
      ring
    rw [hsplit, abs_div, div_le_iff₀ (by norm_num)]
    refine h.trans ?_
    norm_num
  have hbase : 0 < (e + 0.055) / 1.055 := by
    rw [not_le] at hthreshold
    exact div_pos (by linarith) (by norm_num)
  have hbase1 : (e + 0.055) / 1.055 ≤ 1 := by
    rw [div_le_one (by norm_num)]
    linarith
  have hpower := abs_rpow_sub_rpow_of_le_one (show (0 : ℝ) < r ^ (1 / 2.4 : ℝ) by linarith) hbase
    hroot1 hbase1 (show (1 : ℝ) ≤ 2.4 by norm_num)
  rw [hinverse] at hpower
  rw [decoded, if_neg hthreshold]
  refine hpower.trans ?_
  calc (2.4 : ℝ) * |(e + 0.055) / 1.055 - r ^ (1 / 2.4 : ℝ)| ≤ 2.4 * (1 / 420) := by gcongr
    _ ≤ 3 / 500 := by norm_num

namespace Double
open Binary64
variable {lib : Elementary} {A ε r : ℝ} {x : Double lib}

/-! ## Encoding on doubles -/

/-- Where the linear part of the encoding ends. -/
theorem near_linearEnd : Near 1 slip (0.0031308 : Double lib) 0.0031308 :=
  near_literal (by norm_num) (by norm_num) (by norm_num) (by norm_num)

theorem near_rootExponent : Near 1 (1 / 10 ^ 11) ((1.0 : Double lib) / 2.4) (1 / 2.4) := by
  have hone : Near 1 0 (1.0 : Double lib) 1 := by
    have := Near.self (A := 1) (@finite_one lib) (by rw [toReal_one, abs_one])
    rwa [toReal_one] at this
  exact (hone.div near_exponent (le_refl (2.4 : ℝ)) (by norm_num [slip]) (by norm_num [slip])).mono
    (by norm_num) (by norm_num [slip])

theorem near_root_self (acc : lib.Accurate) (hx : Finite x) (hx0 : 0.003 ≤ toReal x)
    (hx1 : toReal x ≤ 1) : Near 1 (tolerance + 1 / 10 ^ 11 / toReal x) (Number.pow x (1.0 / 2.4))
      (toReal x ^ (1 / 2.4 : ℝ)) := by
  have hpos : 0 < toReal x := lt_of_lt_of_le (by norm_num) hx0
  have hexp := @near_rootExponent lib
  have hlow := hexp.ge
  have hhigh := hexp.le
  norm_num at hlow hhigh
  have hpow := acc.pow hx hexp.finite hpos.le (by linarith) (by linarith) (by linarith)
  have hexponent := @abs_rpow_sub_rpow_exponent (toReal x) (1 / 2.4)
    (toReal ((1.0 : Double lib) / 2.4)) hpos hx1 (by norm_num) (by linarith)
  refine ⟨hpow.finite, ?_, ?_⟩
  · rw [abs_of_nonneg (Real.rpow_nonneg hpos.le _)]
    exact root_le_one hpos.le hx1
  · exact (abs_sub_le _ (toReal x ^ toReal ((1.0 : Double lib) / 2.4)) _).trans
      (add_le_add hpow.error (hexponent.trans (div_le_div_of_nonneg_right hexp.error hpos.le)))

theorem near_root (acc : lib.Accurate) (h : Near A ε x r) (hr : 0.004 ≤ r) (hr1 : r ≤ 1)
    (hx1 : toReal x ≤ 1) (hε : ε ≤ 1 / 10 ^ 6) :
    Near 1 (260 * ε + 3 / 10 ^ 9) (Number.pow x (1.0 / 2.4)) (r ^ (1 / 2.4 : ℝ)) := by
  have hr0 : (0 : ℝ) ≤ r := by linarith
  have hxlow : 0.0039 ≤ toReal x := by
    have := h.ge
    norm_num at this hr ⊢
    linarith
  have hself := near_root_self acc h.finite (hxlow.trans' (by norm_num)) hx1
  have hbase := abs_root_sub_root_le (show (0 : ℝ) < 0.0039 by norm_num)
    (show (0.0039 : ℝ) ≤ r by norm_num at hr ⊢; linarith) hxlow hr1 hx1
    (show (0 : ℝ) ≤ 1 / 2.4 by norm_num) (by norm_num)
  refine ⟨hself.finite, ?_, ?_⟩
  · rw [abs_of_nonneg (Real.rpow_nonneg hr0 _)]
    exact root_le_one hr0 hr1
  · have hexpstep : 1 / 10 ^ 11 / toReal x ≤ 1 / 10 ^ 11 / 0.0039 :=
      div_le_div_of_nonneg_left (by norm_num) (by norm_num) hxlow
    have hbasestep : |toReal x - r| / 0.0039 ≤ ε / 0.0039 :=
      div_le_div_of_nonneg_right h.error (by norm_num)
    have htriangle := abs_sub_le (toReal (Number.pow x ((1.0 : Double lib) / 2.4)))
      (toReal x ^ (1 / 2.4 : ℝ)) (r ^ (1 / 2.4 : ℝ))
    have herror := hself.error
    have hε0 := h.error_nonneg
    calc |toReal (Number.pow x ((1.0 : Double lib) / 2.4)) - r ^ (1 / 2.4 : ℝ)|
        ≤ tolerance + (1 / 10 ^ 11 / 0.0039 + ε / 0.0039) := by linarith
      _ ≤ 260 * ε + 3 / 10 ^ 9 := by
        rw [tolerance]
        norm_num
        linarith

theorem near_ofLinear (acc : lib.Accurate) (h : Near A ε x r) (hr : 0.004 ≤ r)
    (hε : ε ≤ 1 / 10 ^ 6) :
    Near 1 (300 * ε + 1 / 10 ^ 8) (ofLinear x) (encoded r) := by
  have hε0 := h.error_nonneg
  have hclamp := h.clamp
  rw [max_eq_right (le_min zero_le_one (by linarith))] at hclamp
  have hx1 : toReal (Number.clamp x) ≤ 1 := by
    rw [toReal_clamp h.finite]
    exact max_le zero_le_one (min_le_left _ _)
  rw [ofLinear, clampOr_of_finite 0.0 h.finite, encoded]
  have hρ : 0.004 ≤ min 1 r := le_min (by norm_num) hr
  have hρ1 : min 1 r ≤ 1 := min_le_left 1 r
  generalize min 1 r = ρ at hclamp hρ hρ1 ⊢
  generalize Number.clamp x = y at hclamp hx1 ⊢
  have hlit := @near_linearEnd lib
  have hbranch : ¬ y ≤ (0.0031308 : Double lib) := by
    rw [le_iff hclamp.finite hlit.finite, not_le]
    have h1 := hclamp.ge
    have h2 := hlit.le
    norm_num [slip] at h1 h2 hρ ⊢
    linarith
  have hroot := near_root acc hclamp hρ hρ1 hx1 hε
  have hlow := root_of_le hρ
  have hhigh := root_le_one (by linarith) hρ1
  have hsum := near_scale.mulAdd hroot near_offset.neg (by norm_num [slip]; linarith)
  rw [if_neg hbranch, sub_eq_add_neg]
  refine ⟨hsum.finite, ?_, hsum.error.trans (by norm_num [slip]; linarith)⟩
  rw [abs_le]
  norm_num at hlow hhigh ⊢
  constructor <;> linarith

/-! ## Bytes of light -/

theorem abs_byte_sub_le (acc : lib.Accurate) (h : Near A ε x r) (hr : 0.004 ≤ r)
    (hε : ε ≤ 1 / 10 ^ 7) :
    |((Number.toByte (ofLinear x)).toNat : ℝ) - 255 * encoded r| ≤ 0.51 := by
  have hε0 := h.error_nonneg
  have hencoded := near_ofLinear acc h hr (hε.trans (by norm_num))
  have hroot := root_of_le (show 0.004 ≤ min 1 r from le_min (by norm_num) hr)
  have hroot1 := root_le_one (show 0 ≤ min 1 r from le_min zero_le_one (by linarith))
    (min_le_left 1 r)
  have h0 : 0 ≤ encoded r := by
    rw [encoded]
    norm_num at hroot ⊢
    linarith
  have h1 : encoded r ≤ 1 := by
    rw [encoded]
    norm_num at hroot1 ⊢
    linarith
  have hbyte := abs_toByte_sub_le hencoded h0 h1 (by norm_num; linarith)
  refine hbyte.trans ?_
  norm_num [slip]
  linarith

/-- Rounding to a byte moves an amount of light by less than a hundredth. -/
theorem abs_light_sub_le (acc : lib.Accurate) (h : Near A ε x r) (hr : 0.004 ≤ r)
    (hε : ε ≤ 1 / 10 ^ 7) : |light (Number.toByte (ofLinear x)) - min 1 r| ≤ 3 / 500 := by
  have hbyte := abs_byte_sub_le acc h hr hε
  refine abs_decoded_sub_le (le_min (by norm_num) hr) (min_le_left 1 r)
    ((div_le_one (by norm_num)).2 (toNat_le _)) ?_
  have hsplit : ((Number.toByte (ofLinear x)).toNat : ℝ) / 255 - encoded (min 1 r) =
      ((Number.toByte (ofLinear x)).toNat - 255 * encoded r) / 255 := by
    rw [encoded, encoded, min_eq_right (min_le_left 1 r)]
    field_simp
  rw [hsplit, abs_div, div_le_iff₀ (by norm_num)]
  refine hbyte.trans ?_
  norm_num

/-- The light of the byte of a channel that is close to an amount of light. -/
theorem light_mem (acc : lib.Accurate) {lo hi G e : ℝ} (h : Near A ε x r) (hrG : |r - G| ≤ e)
    (hlo : lo ≤ G) (hhi : G ≤ hi) (hG : G ≤ 1) (hdark : 0.004 ≤ lo - e) (hε : ε ≤ 1 / 10 ^ 7) :
    light (Number.toByte (ofLinear x)) ∈ Set.Icc (lo - e - 3 / 500) (hi + e + 3 / 500) := by
  have he : 0 ≤ e := (abs_nonneg _).trans hrG
  obtain ⟨hr0, hr1⟩ := abs_le.1 hrG
  have hlor : lo - e ≤ r := by linarith
  obtain ⟨h0, h1⟩ := abs_le.1 (abs_light_sub_le acc h (hdark.trans hlor) hε)
  have hlow : lo - e ≤ min 1 r := le_min (by linarith) hlor
  have hhigh : min 1 r ≤ hi + e := (min_le_right 1 r).trans (by linarith)
  constructor <;> linarith

/-! ## Dark channels -/

/-- The first bytes hold hardly any light. -/
theorem light_le_of_toNat_le {b : UInt8} (h : b.toNat ≤ 16) : light b ≤ 0.006 := by
  have hb : (b.toNat : ℝ) ≤ 16 := by exact_mod_cast h
  have hpower : (0.1117 : ℝ) ^ (2.4 : ℝ) ≤ 0.006 := by
    rw [decodingExponent_eq]
    exact rpow_le_of_le_pow (by norm_num) (by norm_num) (by norm_num) (by norm_num)
  exact light_le_of_power hb (by norm_num) hpower (by norm_num)

/-- Powers with the exponent of the encoding, on the dark amounts that it is used for. -/
theorem near_darkRoot (acc : lib.Accurate) (hx : Finite x) (hx0 : 0.0031 ≤ toReal x)
    (hx1 : toReal x ≤ 0.0041) : ∃ p, 0.055 ≤ p ∧ p ≤ 0.1115 ∧
      Near 1 tolerance (Number.pow x (1.0 / 2.4)) p := by
  have hexp := @near_rootExponent lib
  have hlow := hexp.ge
  have hhigh := hexp.le
  norm_num at hlow hhigh hx0 hx1
  have hpos : 0 < toReal x := by linarith
  have hpow := acc.pow hx hexp.finite hpos.le (by linarith) (by linarith) (by linarith)
  have hle : toReal x ^ toReal ((1.0 : Double lib) / 2.4) ≤ 0.1115 := by
    have hroot : (0.0041 : ℝ) ^ (((2 : ℕ) : ℝ) / (5 : ℕ)) ≤ 0.1115 :=
      rpow_le_of_le_pow (by norm_num) (by norm_num) (by norm_num) (by norm_num)
    refine le_trans ?_ hroot
    calc toReal x ^ toReal ((1.0 : Double lib) / 2.4)
        ≤ 0.0041 ^ toReal ((1.0 : Double lib) / 2.4) :=
          Real.rpow_le_rpow hpos.le (by norm_num; linarith) (by linarith)
      _ ≤ 0.0041 ^ (((2 : ℕ) : ℝ) / (5 : ℕ)) :=
          Real.rpow_le_rpow_of_exponent_ge (by norm_num) (by norm_num) (by norm_num; linarith)
  have hge : 0.055 ≤ toReal x ^ toReal ((1.0 : Double lib) / 2.4) := by
    have hroot : 0.055 ≤ toReal x ^ (((1 : ℕ) : ℝ) / (2 : ℕ)) :=
      le_rpow_of_pow_le (by norm_num) hpos.le (by norm_num) (by norm_num; linarith)
    exact hroot.trans (Real.rpow_le_rpow_of_exponent_ge hpos (by linarith) (by norm_num; linarith))
  refine ⟨_, hge, hle, hpow.finite, ?_, hpow.error⟩
  rw [abs_of_nonneg (by positivity)]
  exact hle.trans (by norm_num)

theorem near_ofLinear_dark (acc : lib.Accurate) (hx : Finite x) (hx1 : toReal x ≤ 0.0041) :
    ∃ e, 0 ≤ e ∧ e ≤ 0.0627 ∧ Near 1 (1 / 10 ^ 8) (ofLinear x) e := by
  have hclamp : Finite (Number.clamp x) := finite_clamp hx
  have hvalue := toReal_clamp hx
  have h0 : 0 ≤ toReal (Number.clamp x) := hvalue ▸ le_max_left _ _
  have h1 : toReal (Number.clamp x) ≤ 0.0041 := by
    rw [hvalue]
    exact max_le (by norm_num) ((min_le_right _ _).trans hx1)
  rw [ofLinear, clampOr_of_finite 0.0 hx]
  generalize Number.clamp x = y at hclamp h0 h1 ⊢
  have hlit := @near_linearEnd lib
  have hself : Near 0.0041 0 y (toReal y) := Near.self hclamp (abs_le.2 ⟨by linarith, h1⟩)
  by_cases hbranch : y ≤ (0.0031308 : Double lib)
  · have hproduct := hself.mul near_slope (by norm_num [slip])
    rw [le_iff hclamp hlit.finite] at hbranch
    have hle := hlit.le
    norm_num [slip] at hle hbranch
    rw [if_pos ((le_iff hclamp hlit.finite).2 hbranch)]
    refine ⟨_, by positivity, ?_, hproduct.mono (by norm_num) (by norm_num [slip])⟩
    norm_num
    linarith
  · have hge := hlit.ge
    have hlarge := hbranch
    rw [le_iff hclamp hlit.finite, not_le] at hlarge
    norm_num [slip] at hge hlarge
    obtain ⟨p, hp0, hp1, hpow⟩ := near_darkRoot acc hclamp (by norm_num; linarith) h1
    have hsum := near_scale.mulAdd hpow near_offset.neg (by norm_num [slip, tolerance])
    norm_num at hp0 hp1
    rw [if_neg hbranch]
    refine ⟨1.055 * p + -0.055, by norm_num; linarith, by norm_num; linarith, hsum.finite, ?_,
      hsum.error.trans (by norm_num [slip, tolerance])⟩
    rw [abs_of_nonneg (by norm_num; linarith)]
    norm_num
    linarith

theorem light_toByte_le_of_dark (acc : lib.Accurate) (hx : Finite x) (hx1 : toReal x ≤ 0.0041) :
    light (Number.toByte (ofLinear x)) ≤ 0.006 := by
  obtain ⟨e, he0, he1, hnear⟩ := near_ofLinear_dark acc hx hx1
  norm_num at he1
  have hbyte := (abs_le.1 (abs_toByte_sub_le hnear he0 (by linarith) (by norm_num))).2
  norm_num [slip] at hbyte
  have hlt : ((Number.toByte (ofLinear x)).toNat : ℝ) < 17 := by linarith
  exact light_le_of_toNat_le (Nat.le_of_lt_succ (by exact_mod_cast hlt))

/-- Whatever sRGB holds is shown by its byte up to less than a hundredth. -/
theorem abs_light_sub_le_of_mem (acc : lib.Accurate) (h : Near A ε x r) (hε : ε ≤ 1 / 10 ^ 7)
    (hr0 : -(1 / 10 ^ 6) ≤ r) (hr1 : r ≤ 1 + 1 / 10 ^ 6) :
    |light (Number.toByte (ofLinear x)) - r| ≤ 0.0061 := by
  rcases le_or_gt 0.004 r with hr | hr
  · obtain ⟨h0, h1⟩ := abs_le.1 (abs_light_sub_le acc h hr hε)
    have hmin0 : r - 1 / 10 ^ 6 ≤ min 1 r := le_min (by linarith) (by linarith)
    have hmin1 := min_le_right 1 r
    generalize min 1 r = shown at h0 h1 hmin0 hmin1
    rw [abs_le]
    norm_num at h0 h1 hmin0 ⊢
    constructor <;> linarith
  · have hx := h.le
    have hlight := light_toByte_le_of_dark acc h.finite (by norm_num at hr hε ⊢; linarith)
    have hlight0 := light_nonneg (Number.toByte (ofLinear x))
    rw [abs_le]
    norm_num at hr hr0 hlight ⊢
    constructor <;> linarith

/-- Nearly all the light is written as the whole byte. -/
theorem toByte_ofLinear_eq (acc : lib.Accurate) (h : Near A ε x r) (hr : 1 - 1 / 320 ≤ r)
    (hε : ε ≤ 1 / 10 ^ 7) : Number.toByte (ofLinear x) = 255 := by
  have hbyte := abs_byte_sub_le acc h (by norm_num at hr ⊢; linarith) hε
  have hmin : 1 - 1 / 320 ≤ min 1 r := le_min (by norm_num) hr
  have hroot : 1 - 0.0014 ≤ (min 1 r) ^ (1 / 2.4 : ℝ) := by
    rw [exponent_eq]
    refine le_rpow_of_pow_le (by norm_num) (by norm_num at hmin ⊢; linarith) (by norm_num) ?_
    calc (1 - 0.0014 : ℝ) ^ 12 ≤ (1 - 1 / 320) ^ 5 := by norm_num
      _ ≤ (min 1 r) ^ 5 := by
        have : (0 : ℝ) ≤ 1 - 1 / 320 := by norm_num
        gcongr
  have hlarge : (254 : ℝ) < (Number.toByte (ofLinear x)).toNat := by
    have := (abs_le.1 hbyte).1
    rw [encoded] at this
    norm_num at this hroot
    linarith
  have hlarge' : 254 < (Number.toByte (ofLinear x)).toNat := by exact_mod_cast hlarge
  have hlt := (Number.toByte (ofLinear x)).toNat_lt
  exact UInt8.toNat_inj.1 (show (Number.toByte (ofLinear x)).toNat = 255 by omega)

end Double

end ThemeTokens
