import ThemeTokens.Proofs.Color.Transfer

/-!
# Encoding against bytes

Where the encoding changes from linear to a power it steps down a little, so it is not monotone. It
is monotone against the light of bytes, which stays away from the step: less light than a byte holds
is never encoded above that byte, and more never below.
-/
namespace ThemeTokens.Transfer

/-- The encoded channel of an amount of light in `[0, 1]`. -/
noncomputable def encode (x : ℝ) : ℝ := if x ≤ 0.0031308 then x * 12.92 else encoded x

variable {b : UInt8} {x δ : ℝ}

/-! ## Bytes on either side of the step -/

theorem light_eq_of_toNat_le (h : b.toNat ≤ 10) : light b = b.toNat / (255 * 12.92) := by
  have hb : (b.toNat : ℝ) ≤ 10 := by exact_mod_cast h
  rw [light, decoded, if_pos, div_div]
  rw [div_le_iff₀ (by norm_num)]
  norm_num
  linarith

theorem light_eq_of_le_toNat (h : 11 ≤ b.toNat) :
    light b = ((b.toNat / 255 + 0.055) / 1.055) ^ (2.4 : ℝ) := by
  have hb : (11 : ℝ) ≤ b.toNat := by exact_mod_cast h
  rw [light, decoded, if_neg]
  rw [not_le, lt_div_iff₀ (by norm_num)]
  norm_num
  linarith

theorem light_ge_of_le_toNat (h : 11 ≤ b.toNat) : 0.0033 ≤ light b := by
  have hb : (11 : ℝ) ≤ b.toNat := by exact_mod_cast h
  rw [light_eq_of_le_toNat h, decodingExponent_eq]
  refine le_rpow_of_pow_le (by norm_num) (by positivity) (by norm_num) ?_
  calc (0.0033 : ℝ) ^ 5 ≤ 0.093 ^ 12 := by norm_num
    _ ≤ (((b.toNat : ℝ) / 255 + 0.055) / 1.055) ^ 12 := by
      gcongr
      rw [le_div_iff₀ (by norm_num)]
      norm_num
      linarith

theorem root_light (h : 11 ≤ b.toNat) :
    1.055 * light b ^ (1 / 2.4 : ℝ) - 0.055 = b.toNat / 255 := by
  rw [light_eq_of_le_toNat h, ← Real.rpow_mul (by positivity)]
  norm_num
  ring

/-- Close to each other, two roots of amounts above the step are close too. -/
theorem root_le_add {y : ℝ} (hx : 0.003 ≤ x) (hy : 0.003 ≤ y) (hx1 : x ≤ 1) (hy1 : y ≤ 1)
    (hδ : 0 ≤ δ) (h : x ≤ y + δ) : x ^ (1 / 2.4 : ℝ) ≤ y ^ (1 / 2.4 : ℝ) + δ / 0.003 := by
  have hx0 : 0 ≤ x := le_trans (by norm_num) hx
  rcases le_total x y with hle | hle
  · have := Real.rpow_le_rpow hx0 hle (show (0 : ℝ) ≤ 1 / 2.4 by norm_num)
    exact this.trans (le_add_of_nonneg_right (by positivity))
  · have hroot := abs_root_sub_root_le (by norm_num) hy hx hy1 hx1
      (show (0 : ℝ) ≤ 1 / 2.4 by norm_num) (by norm_num)
    have hdiff : |x - y| / 0.003 ≤ δ / 0.003 := by
      rw [abs_of_nonneg (sub_nonneg.2 hle)]
      gcongr
      linarith
    linarith [(abs_le.1 hroot).2]

/-! ## Encoding next to the light of a byte -/

section
variable (hδ0 : 0 ≤ δ) (hδ : δ ≤ 1 / 10 ^ 5)
include hδ0 hδ

theorem encode_le (hx1 : x ≤ 1) (h : x ≤ light b + δ) : encode x ≤ b.toNat / 255 + 400 * δ := by
  norm_num at hδ
  unfold encode
  rcases le_or_gt b.toNat 10 with hb | hb
  · have hb' : (b.toNat : ℝ) ≤ 10 := by exact_mod_cast hb
    rw [light_eq_of_toNat_le hb] at h
    norm_num at h
    rw [if_pos (by norm_num; linarith)]
    norm_num
    linarith
  · have hb' : (11 : ℝ) ≤ b.toNat := by exact_mod_cast hb
    split
    · next hlinear =>
      norm_num at hlinear ⊢
      linarith
    · next hpower =>
      have hlight := light_ge_of_le_toNat hb
      have hone := Double.light_le_one b
      rw [encoded_of_le_one hx1, ← root_light hb]
      have hroot : x ^ (1 / 2.4 : ℝ) ≤ light b ^ (1 / 2.4 : ℝ) + δ / 0.003 :=
        root_le_add (by norm_num at hpower ⊢; linarith) (by norm_num at hlight ⊢; linarith) hx1
          hone hδ0 h
      norm_num at hroot ⊢
      linarith

theorem le_encode (hx1 : x ≤ 1) (h : light b - δ ≤ x) : b.toNat / 255 - 400 * δ ≤ encode x := by
  norm_num at hδ
  unfold encode
  rcases le_or_gt b.toNat 10 with hb | hb
  · have hb' : (b.toNat : ℝ) ≤ 10 := by exact_mod_cast hb
    rw [light_eq_of_toNat_le hb] at h
    split
    · norm_num at h ⊢
      linarith
    · next hpower =>
      rw [not_le] at hpower
      have hroot : 0.0894 ≤ x ^ (1 / 2.4 : ℝ) := by
        rw [exponent_eq]
        refine le_rpow_of_pow_le (by norm_num) (by norm_num at hpower; linarith) (by norm_num) ?_
        calc (0.0894 : ℝ) ^ 12 ≤ 0.0031308 ^ 5 := by norm_num
          _ ≤ x ^ 5 := by gcongr
      rw [encoded_of_le_one hx1]
      norm_num at hroot ⊢
      linarith
  · have hlight := light_ge_of_le_toNat hb
    have hone := Double.light_le_one b
    rw [if_neg (by norm_num at hlight ⊢; linarith), encoded_of_le_one hx1, ← root_light hb]
    have hroot : light b ^ (1 / 2.4 : ℝ) ≤ x ^ (1 / 2.4 : ℝ) + δ / 0.003 :=
      root_le_add (by norm_num at hlight ⊢; linarith) (by norm_num at hlight ⊢; linarith) hone hx1
        hδ0 (by linarith)
    norm_num at hroot ⊢
    linarith

end

theorem light_zero : light 0 = 0 := by
  rw [light_eq_of_toNat_le (by decide), UInt8.toNat_zero, Nat.cast_zero, zero_div]

theorem light_whole : light 255 = 1 := by
  rw [light_eq_of_le_toNat (by decide), show (UInt8.toNat 255 : ℝ) = 255 from rfl]
  norm_num

theorem encode_nonneg (hx0 : 0 ≤ x) (hx1 : x ≤ 1) : 0 ≤ encode x := by
  have := le_encode (b := 0) le_rfl (by norm_num) hx1 (by rwa [light_zero, sub_zero])
  rwa [UInt8.toNat_zero, Nat.cast_zero, zero_div, mul_zero, sub_zero] at this

theorem encode_le_one (hx1 : x ≤ 1) : encode x ≤ 1 := by
  have := encode_le (b := 255) le_rfl (by norm_num) hx1 (by rwa [light_whole, add_zero])
  rwa [mul_zero, add_zero, show (UInt8.toNat 255 : ℝ) = 255 from rfl,
    div_self (by norm_num)] at this

/-! ## The height of the step -/

theorem abs_encoded_sub_linear (h0 : 0.0031308 - 1 / 10 ^ 6 ≤ x)
    (h1 : x ≤ 0.0031308 + 1 / 10 ^ 6) : |encoded x - x * 12.92| ≤ 1 / 10 ^ 4 := by
  norm_num at h0 h1
  have hx0 : 0 ≤ x := by linarith
  have hroot : 0.0904 ≤ x ^ (1 / 2.4 : ℝ) := by
    rw [exponent_eq]
    refine le_rpow_of_pow_le (by norm_num) hx0 (by norm_num) ?_
    calc (0.0904 : ℝ) ^ 12 ≤ 0.0031298 ^ 5 := by norm_num
      _ ≤ x ^ 5 := by
        gcongr
        norm_num
        linarith
  have hroot1 : x ^ (1 / 2.4 : ℝ) ≤ 0.0905 := by
    rw [exponent_eq]
    refine rpow_le_of_le_pow (by norm_num) hx0 (by norm_num) ?_
    calc x ^ 5 ≤ (0.0031318 : ℝ) ^ 5 := by
          gcongr
          norm_num
          linarith
      _ ≤ 0.0905 ^ 12 := by norm_num
  rw [encoded_of_le_one (by linarith), abs_le]
  norm_num at hroot hroot1 ⊢
  constructor <;> linarith

theorem abs_linear_sub_encode (h : x ≤ 0.0031308 + 1 / 10 ^ 6) :
    |x * 12.92 - encode x| ≤ 1 / 10 ^ 4 := by
  unfold encode
  split
  · rw [sub_self, abs_zero]
    positivity
  · next hpower =>
    rw [abs_sub_comm]
    exact abs_encoded_sub_linear (by linarith) h

theorem abs_encoded_sub_encode (h : 0.0031308 - 1 / 10 ^ 6 ≤ x) :
    |encoded x - encode x| ≤ 1 / 10 ^ 4 := by
  unfold encode
  split
  · next hlinear => exact abs_encoded_sub_linear h (by linarith)
  · rw [sub_self, abs_zero]
    positivity

end ThemeTokens.Transfer

namespace ThemeTokens.Double
open Transfer
variable {lib : Binary64.Elementary} {x : Double lib}

/-! ## On doubles -/

/-- Whichever branch the rounded threshold takes. -/
theorem near_ofLinear_encode (acc : lib.Accurate) (hx : Finite x) :
    Near 1 (1 / 8000) (ofLinear x) (encode (max 0 (min 1 (toReal x)))) := by
  obtain ⟨hfinite, hx0, hx1⟩ := InUnit.clamp hx
  rw [ofLinear, clampOr_of_finite 0.0 hx, ← toReal_clamp hx]
  generalize Number.clamp x = y at hfinite hx0 hx1
  have hbound : |encode (toReal y)| ≤ 1 := by
    rw [abs_of_nonneg (encode_nonneg hx0 hx1)]
    exact encode_le_one hx1
  have hlit := @near_linearEnd lib
  have hle := hlit.le
  have hge := hlit.ge
  split
  · next hlinear =>
    rw [le_iff hfinite hlit.finite] at hlinear
    have hproduct := (Near.self (A := 1) hfinite (by rwa [abs_of_nonneg hx0])).mul near_slope
      (by norm_num [slip])
    have hstep := abs_linear_sub_encode (hlinear.trans (hle.trans (by norm_num [slip])))
    refine ⟨hproduct.finite, hbound, ?_⟩
    exact (abs_sub_le _ _ _).trans ((add_le_add hproduct.error hstep).trans (by norm_num [slip]))
  · next hpower =>
    rw [le_iff hfinite hlit.finite, not_le] at hpower
    have hlow := hge.trans hpower.le
    norm_num [slip] at hlow
    have hroot := near_root_self acc hfinite (by norm_num; linarith) hx1
    have hroot : Near 1 (1 / 10 ^ 8) _ _ := hroot.mono le_rfl <| by
      have : 1 / 10 ^ 11 / toReal y ≤ 1 / 10 ^ 11 / 0.003 :=
        div_le_div_of_nonneg_left (by norm_num) (by norm_num) (by norm_num; linarith)
      rw [tolerance]
      norm_num at this ⊢
      linarith
    have hsum := near_scale.mulAdd hroot near_offset.neg (by norm_num [slip])
    have hstep := @abs_encoded_sub_encode (toReal y) (by norm_num; linarith)
    rw [encoded_of_le_one hx1, sub_eq_add_neg] at hstep
    refine ⟨hsum.finite, hbound, ?_⟩
    exact (abs_sub_le _ _ _).trans ((add_le_add hsum.error hstep).trans (by norm_num [slip]))

/-- The byte of an amount of light is next to its encoding. -/
theorem abs_byte_sub_encode_le (acc : lib.Accurate) (hx : Finite x) :
    |((Number.toByte (ofLinear x)).toNat : ℝ) - 255 * encode (max 0 (min 1 (toReal x)))| ≤ 0.6 := by
  have hle : max 0 (min 1 (toReal x)) ≤ 1 := max_le zero_le_one (min_le_left _ _)
  refine (abs_toByte_sub_le (near_ofLinear_encode acc hx) (encode_nonneg (le_max_left _ _) hle)
    (encode_le_one hle) (by norm_num)).trans ?_
  norm_num [slip]

end ThemeTokens.Double
