import ThemeTokens.Proofs.Color.Perceptual

/-!
# From light to perceptual colour

Every colour has a perceptual form with a hue in range, and a light colour whose channels are close
together is muted.
-/
namespace ThemeTokens.Double
open Binary64 Transfer
variable {lib : Elementary} {A B C ε δ ζ r s t : ℝ} {x y z : Double lib}

/-! ## Signs -/

theorem Near.nonneg_mul (hx : Near A ε x r) (hy : Near B δ y s) (h : (A + ε) * (B + δ) ≤ 1000)
    (hx0 : 0 ≤ toReal x) (hy0 : 0 ≤ toReal y) : 0 ≤ toReal (x * y) :=
  (isNearest_mul hx.finite hy.finite (Near.inRange ((Near.abs_mul_le hx hy).trans h))).nonneg
    (mul_nonneg hx0 hy0)

theorem Near.nonneg_mulAdd (hx : Near A ε x r) (hy : Near B δ y s) (hz : Near C ζ z t)
    (h : (A + ε) * (B + δ) + C + ζ ≤ 1000) (hx0 : 0 ≤ toReal x) (hy0 : 0 ≤ toReal y)
    (hz0 : 0 ≤ toReal z) : 0 ≤ toReal (Number.mulAdd x y z) := by
  have hsum : |toReal x * toReal y + toReal z| ≤ 1000 := by
    linarith [abs_add_le (toReal x * toReal y) (toReal z), Near.abs_mul_le hx hy, hz.abs_toReal]
  exact (isNearest_mulAdd hx.finite hy.finite hz.finite (Near.inRange hsum)).nonneg
    (add_nonneg (mul_nonneg hx0 hy0) hz0)

/-- Every byte but zero holds some light. -/
theorem light_ge_of_ne_zero {b : UInt8} (h : b ≠ 0) : 1 / 4000 ≤ light b := by
  have hpos : 0 < b.toNat := Nat.pos_of_ne_zero fun hzero => h (UInt8.toNat_inj.1 hzero)
  have hb : (1 : ℝ) ≤ b.toNat := by exact_mod_cast hpos
  unfold light decoded
  split
  · rw [le_div_iff₀ (by norm_num), le_div_iff₀ (by norm_num)]
    norm_num
    linarith
  · next hlarge =>
    rw [not_le] at hlarge
    have hbase : (0.09 : ℝ) ≤ ((b.toNat : ℝ) / 255 + 0.055) / 1.055 := by
      rw [le_div_iff₀ (by norm_num)]
      norm_num at hlarge ⊢
      linarith
    calc (1 / 4000 : ℝ) ≤ 0.09 ^ (3 : ℝ) := by norm_num
      _ ≤ 0.09 ^ (2.4 : ℝ) :=
        Real.rpow_le_rpow_of_exponent_ge (by norm_num) (by norm_num) (by norm_num)
      _ ≤ _ := Real.rpow_le_rpow (by norm_num) hbase (by norm_num)

theorem toLinear_nonneg (acc : lib.Accurate) (b : UInt8) :
    0 ≤ toReal (toLinear (Number.ofByte b : Double lib)) := by
  by_cases hzero : b = 0
  · have hvalue : toLinear (Number.ofByte b : Double lib) = 0.0 := by
      rw [hzero]
      have hbyte : (Number.ofByte 0 : Double lib) = 0.0 := by
        have : (Float.ofNat 0 / 255.0 : Float) = 0.0 := by decide
        exact this
      have hle : (0.0 : Double lib) ≤ 0.04045 := by
        have : (0.0 : Float) ≤ 0.04045 := by decide
        exact this
      rw [hbyte, toLinear, if_pos hle]
      have : (0.0 / 12.92 : Float) = 0.0 := by decide
      exact this
    rw [hvalue, toReal_zero]
  · linarith [(near_toLinear acc b).ge, light_ge_of_ne_zero hzero,
      show (1 : ℝ) / 10 ^ 9 ≤ 1 / 4000 by norm_num]

/-! ## Cones -/

/-- How much a cone sees of the light of a colour. -/
theorem cone_mem (acc : lib.Accurate) (c : Color (Double lib)) {u v w : Double lib}
    {u' v' w' : ℝ} (hu : Near 1 slip u u') (hv : Near 1 slip v v') (hw : Near 1 slip w w')
    (hu0 : slip ≤ u') (hv0 : slip ≤ v') (hw0 : slip ≤ w') (hsum : u' + v' + w' ≤ 1) :
    Finite (Number.dot u c.linear.blue v c.linear.red w c.linear.green) ∧
      0 ≤ toReal (Number.dot u c.linear.blue v c.linear.red w c.linear.green) ∧
      toReal (Number.dot u c.linear.blue v c.linear.red w c.linear.green) ≤ 2 ∧
      |toReal (Number.dot u c.linear.blue v c.linear.red w c.linear.green) -
        (u' * light c.blue + (v' * light c.red + w' * light c.green))| ≤ 1 / 10 ^ 8 := by
  have hb := near_toLinear acc c.blue
  have hr := near_toLinear acc c.red
  have hg := near_toLinear acc c.green
  have hnear := near_dot hu hv hw hb hr hg (by norm_num) (by norm_num) (by norm_num)
  have hpos {x : Double lib} {x' : ℝ} (hx : Near 1 slip x x') (hx0 : slip ≤ x') :
      0 ≤ toReal x := by linarith [hx.ge]
  have hwg := hw.mul hg (by norm_num [slip])
  have hvr := hv.mulAdd hr hwg (by norm_num [slip])
  have hnonneg := hu.nonneg_mulAdd hb hvr (by norm_num [slip]) (hpos hu hu0)
    (toLinear_nonneg acc c.blue) (hv.nonneg_mulAdd hr hwg (by norm_num [slip]) (hpos hv hv0)
      (toLinear_nonneg acc c.red) (hw.nonneg_mul hg (by norm_num [slip]) (hpos hw hw0)
        (toLinear_nonneg acc c.green)))
  have hslip : 0 < slip := by norm_num [slip]
  have hub := mul_le_of_le_one_right (hslip.le.trans hu0) (light_le_one c.blue)
  have hvr1 := mul_le_of_le_one_right (hslip.le.trans hv0) (light_le_one c.red)
  have hwg1 := mul_le_of_le_one_right (hslip.le.trans hw0) (light_le_one c.green)
  have herror := hnear.error.trans (show 3 * (1 * (1 / 10 ^ 9)) + 2 / 10 ^ 10 ≤ 1 / 10 ^ 8 by
    norm_num)
  refine ⟨hnear.finite, hnonneg, (sub_le_iff_le_add.1 (abs_le.1 herror).2).trans ?_, herror⟩
  norm_num
  linarith

theorem exists_root (acc : lib.Accurate) (hx : Finite x) (hx0 : 0 ≤ toReal x)
    (hx2 : toReal x ≤ 2) : ∃ p, 0 ≤ p ∧ p ^ 3 = toReal x ∧ Near 2 tolerance (Number.cbrt x) p := by
  refine ⟨toReal x ^ (1 / 3 : ℝ), Real.rpow_nonneg hx0 _, ?_, acc.cbrt hx hx0 hx2⟩
  rw [← Real.rpow_natCast, ← Real.rpow_mul hx0]
  norm_num

/-- The roots of what the cones see, which the perceptual form combines. -/
structure Responses (c : Color (Double lib)) (l m s : ℝ) : Prop where
  long_nonneg : 0 ≤ l
  medium_nonneg : 0 ≤ m
  short_nonneg : 0 ≤ s
  long : |l ^ 3 - (0.0514459929 * light c.blue + (0.4122214708 * light c.red +
    0.5363325363 * light c.green))| ≤ 1 / 10 ^ 8
  medium : |m ^ 3 - (0.1073969566 * light c.blue + (0.2119034982 * light c.red +
    0.6806995451 * light c.green))| ≤ 1 / 10 ^ 8
  short : |s ^ 3 - (0.6299787005 * light c.blue + (0.0883024619 * light c.red +
    0.2817188376 * light c.green))| ≤ 1 / 10 ^ 8
  lightness : Near 6 (1 / 10 ^ 8) c.toOklab.lightness
    (0.0040720468 * -s + (0.2104542553 * l + 0.7936177850 * m))
  a : Near 20 (1 / 10 ^ 8) c.toOklab.a (0.4505937099 * s + (1.9779984951 * l + 2.4285922050 * -m))
  b : Near 6 (1 / 10 ^ 8) c.toOklab.b (0.8086757660 * -s + (0.0259040371 * l + 0.7827717662 * m))

theorem exists_responses (acc : lib.Accurate) (c : Color (Double lib)) :
    ∃ l m s, Responses c l m s := by
  obtain ⟨hl, hl0, hl2, hlong⟩ := cone_mem acc c
    (near_fraction (m := 514459929) (e := 10) (by norm_num) (by norm_num) (by norm_num))
    (near_fraction (m := 4122214708) (e := 10) (by norm_num) (by norm_num) (by norm_num))
    (near_fraction (m := 5363325363) (e := 10) (by norm_num) (by norm_num) (by norm_num))
    (by norm_num [slip]) (by norm_num [slip]) (by norm_num [slip]) (by norm_num)
  obtain ⟨hm, hm0, hm2, hmedium⟩ := cone_mem acc c
    (near_fraction (m := 1073969566) (e := 10) (by norm_num) (by norm_num) (by norm_num))
    (near_fraction (m := 2119034982) (e := 10) (by norm_num) (by norm_num) (by norm_num))
    (near_fraction (m := 6806995451) (e := 10) (by norm_num) (by norm_num) (by norm_num))
    (by norm_num [slip]) (by norm_num [slip]) (by norm_num [slip]) (by norm_num)
  obtain ⟨hs, hs0, hs2, hshort⟩ := cone_mem acc c
    (near_fraction (m := 6299787005) (e := 10) (by norm_num) (by norm_num) (by norm_num))
    (near_fraction (m := 883024619) (e := 10) (by norm_num) (by norm_num) (by norm_num))
    (near_fraction (m := 2817188376) (e := 10) (by norm_num) (by norm_num) (by norm_num))
    (by norm_num [slip]) (by norm_num [slip]) (by norm_num [slip]) (by norm_num)
  obtain ⟨l, hl0', hl3, hlroot⟩ := exists_root acc hl hl0 hl2
  obtain ⟨m, hm0', hm3, hmroot⟩ := exists_root acc hm hm0 hm2
  obtain ⟨s, hs0', hs3, hsroot⟩ := exists_root acc hs hs0 hs2
  refine ⟨l, m, s, hl0', hm0', hs0', hl3 ▸ hlong, hm3 ▸ hmedium, hs3 ▸ hshort, ?_, ?_, ?_⟩
  · exact (near_dot (B := 1) (near_fraction (by norm_num) (by norm_num) (by norm_num))
      (near_fraction (by norm_num) (by norm_num) (by norm_num))
      (near_fraction (by norm_num) (by norm_num) (by norm_num)) hsroot.neg hlroot hmroot
      (by norm_num) (by norm_num) (by norm_num [tolerance])).mono (by norm_num)
      (by norm_num [tolerance])
  · exact (near_dot (B := 3)
      (near_literal (by norm_num) (by norm_num) (by norm_num) (by norm_num))
      (near_literal (by norm_num) (by norm_num) (by norm_num) (by norm_num))
      (near_literal (by norm_num) (by norm_num) (by norm_num) (by norm_num)) hsroot hlroot
      hmroot.neg (by norm_num) (by norm_num) (by norm_num [tolerance])).mono (by norm_num)
      (by norm_num [tolerance])
  · exact (near_dot (B := 1) (near_fraction (by norm_num) (by norm_num) (by norm_num))
      (near_fraction (by norm_num) (by norm_num) (by norm_num))
      (near_fraction (by norm_num) (by norm_num) (by norm_num)) hsroot.neg hlroot hmroot
      (by norm_num) (by norm_num) (by norm_num [tolerance])).mono (by norm_num)
      (by norm_num [tolerance])

theorem finite_lightness (acc : lib.Accurate) (c : Color (Double lib)) :
    Finite c.toOklch.lightness := by
  obtain ⟨l, m, s, h⟩ := exists_responses acc c
  exact h.lightness.finite

/-! ## Hues -/

theorem normalizeHue_mem {h : Double lib} (hh : Finite h) :
    Finite (normalizeHue h) ∧ |toReal (normalizeHue h)| ≤ 730 := by
  have hunpack : (360.0 : Float).toModel.unpack =
      .finite .positive 6333186975989760 (-44) (by decide) := rfl
  have hturn : floatValue (360.0 : Float) = 360 := by
    rw [floatValue, hunpack, value_positive]
    norm_num
  obtain ⟨hrem, hle⟩ := abs_rem_le hh hunpack (by
    rw [hturn]
    exact (le_abs_self 360).trans_lt (lt_range (by norm_num)))
  rw [hturn] at hle
  have hfinite : Finite (Number.rem h 360.0) := hrem
  have hle : |toReal (Number.rem h 360.0)| ≤ 360 := hle
  unfold normalizeHue
  dsimp only
  split
  · have hlit : Near 360 slip (360.0 : Double lib) 360.0 :=
      near_literal (by norm_num) (by norm_num) (by norm_num) (by norm_num)
    have hsum := (Near.self hfinite hle).add hlit (by norm_num [slip])
    exact ⟨hsum.finite, hsum.abs_toReal.trans (by norm_num [slip])⟩
  · exact ⟨hfinite, hle.trans (by norm_num)⟩

/-- The hue of every colour is in range, also where it means nothing. -/
theorem hue_toOklch_le (acc : lib.Accurate) (c : Color (Double lib)) :
    Finite c.toOklch.hue ∧ |toReal c.toOklch.hue| ≤ 730 := by
  obtain ⟨l, m, s, h⟩ := exists_responses acc c
  change Finite (if c.toOklch.chroma < Oklab.achromatic then 0.0
      else normalizeHue (Number.atan2 c.toOklab.b c.toOklab.a * (180.0 / Number.pi))) ∧
    |toReal (if c.toOklch.chroma < Oklab.achromatic then 0.0
      else normalizeHue (Number.atan2 c.toOklab.b c.toOklab.a * (180.0 / Number.pi)))| ≤ 730
  split
  · refine ⟨finite_zero, ?_⟩
    rw [toReal_zero]
    norm_num
  · obtain ⟨hfinite, hangle⟩ := acc.atan2 h.a.finite h.b.finite
    have hpi : Near 4 slip (Number.pi : Double lib) 3.141592653589793 :=
      near_literal (by norm_num) (by norm_num) (by norm_num) (by norm_num)
    have h180 : Near 180 slip (180.0 : Double lib) 180.0 :=
      near_literal (by norm_num) (by norm_num) (by norm_num) (by norm_num)
    have hdegrees := h180.div hpi (show (3 : ℝ) ≤ 3.141592653589793 by norm_num)
      (by norm_num [slip]) (by norm_num [slip])
    exact normalizeHue_mem ((Near.self hfinite hangle).mul hdegrees (by norm_num [slip])).finite

theorem hue_toOklch_mem (acc : lib.Accurate) (c : Color (Double lib)) :
    Finite c.toOklch.hue ∧ |toReal c.toOklch.hue| ≤ 800 :=
  (hue_toOklch_le acc c).imp_right (le_trans · (by norm_num))

/-! ## Chroma -/

theorem le_of_cube_le {x y : ℝ} (h : x ^ 3 ≤ y ^ 3) : x ≤ y :=
  (Odd.strictMono_pow (by decide : Odd 3)).le_iff_le.1 h

namespace Responses
variable {c : Color (Double lib)} {l m s : ℝ}

/-- The roots of what two cones see are in proportion, as every light is seen by both. -/
theorem long_medium (h : Responses c l m s) : l ≤ 1.249 * m + 0.02 ∧ 0.782 * m ≤ l + 0.016 := by
  have hr := light_nonneg c.red
  have hg := light_nonneg c.green
  have hb := light_nonneg c.blue
  obtain ⟨hl0, hl1⟩ := abs_le.1 h.long
  obtain ⟨hm0, hm1⟩ := abs_le.1 h.medium
  have hlnonneg := h.long_nonneg
  have hmnonneg := h.medium_nonneg
  norm_num at hl0 hl1 hm0 hm1
  constructor <;> refine le_of_cube_le ?_
  · have hcube : 1.249 ^ 3 * m ^ 3 + 0.02 ^ 3 ≤ (1.249 * m + 0.02) ^ 3 := by
      have : 0 ≤ 3 * (1.249 * m) ^ 2 * 0.02 + 3 * (1.249 * m) * 0.02 ^ 2 := by positivity
      linarith only [this, show (1.249 * m + 0.02) ^ 3 = 1.249 ^ 3 * m ^ 3 + 0.02 ^ 3 +
        (3 * (1.249 * m) ^ 2 * 0.02 + 3 * (1.249 * m) * 0.02 ^ 2) by ring]
    refine le_trans ?_ hcube
    norm_num
    linarith only [hl1, hm0, hr, hg, hb]
  · have hcube : l ^ 3 + 0.016 ^ 3 ≤ (l + 0.016) ^ 3 := by
      have : 0 ≤ 3 * l ^ 2 * 0.016 + 3 * l * 0.016 ^ 2 := by positivity
      linarith only [this, show (l + 0.016) ^ 3 = l ^ 3 + 0.016 ^ 3 +
        (3 * l ^ 2 * 0.016 + 3 * l * 0.016 ^ 2) by ring]
    refine le_trans ?_ hcube
    rw [mul_pow]
    norm_num
    linarith only [hl0, hm1, hr, hg, hb]

theorem root_le (h : Responses c l m s) : l ≤ 1.00001 ∧ m ≤ 1.00001 ∧ s ≤ 1.00001 := by
  have hr := light_le_one c.red
  have hg := light_le_one c.green
  have hb := light_le_one c.blue
  obtain ⟨_, hl1⟩ := abs_le.1 h.long
  obtain ⟨_, hm1⟩ := abs_le.1 h.medium
  obtain ⟨_, hs1⟩ := abs_le.1 h.short
  norm_num at hl1 hm1 hs1
  refine ⟨le_of_cube_le ?_, le_of_cube_le ?_, le_of_cube_le ?_⟩ <;> norm_num
  · linarith only [hl1, hr, hg, hb]
  · linarith only [hm1, hr, hg, hb]
  · linarith only [hs1, hr, hg, hb]

/-- How colourful a colour can be. -/
theorem abs_opponent_le_one (h : Responses c l m s) :
    |toReal c.toOklab.a| ≤ 0.95 ∧ |toReal c.toOklab.b| ≤ 0.81 := by
  obtain ⟨hlm0, hlm1⟩ := h.long_medium
  obtain ⟨hl, hm, hs⟩ := h.root_le
  have hm0 := h.medium_nonneg
  have hs0 := h.short_nonneg
  have hl0 := h.long_nonneg
  obtain ⟨ha0, ha1⟩ := abs_le.1 h.a.error
  obtain ⟨hb0, hb1⟩ := abs_le.1 h.b.error
  norm_num at hlm0 hlm1 hl hm hs ha0 ha1 hb0 hb1
  rw [abs_le, abs_le]
  norm_num
  refine ⟨⟨?_, ?_⟩, ⟨?_, ?_⟩⟩
  · linarith only [ha0, hlm1, hm, hs0]
  · linarith only [ha1, hlm0, hm, hs]
  · linarith only [hb0, hs, hl0, hm0]
  · linarith only [hb1, hs0, hl, hm]

theorem chroma_le (acc : lib.Accurate) (h : Responses c l m s) {α β γ : ℝ}
    (ha : |toReal c.toOklab.a| ≤ α) (hb : |toReal c.toOklab.b| ≤ β) (hα : α ≤ 1) (hβ : β ≤ 1)
    (hγ : 0 ≤ γ) (hsum : α ^ 2 + β ^ 2 ≤ γ ^ 2) :
    Finite c.toOklch.chroma ∧ |toReal c.toOklch.chroma| ≤ γ + tolerance := by
  have hchroma := acc.hypot h.a.finite h.b.finite (ha.trans hα) (hb.trans hβ)
  have hroot : Real.sqrt (toReal c.toOklab.a ^ 2 + toReal c.toOklab.b ^ 2) ≤ γ := by
    rw [Real.sqrt_le_left hγ]
    have ha2 := sq_le_sq' (abs_le.1 ha).1 (abs_le.1 ha).2
    have hb2 := sq_le_sq' (abs_le.1 hb).1 (abs_le.1 hb).2
    linarith
  refine ⟨hchroma.finite, ?_⟩
  change |toReal (Number.hypot c.toOklab.a c.toOklab.b)| ≤ _
  have hge := hchroma.ge
  have hle := hchroma.le
  have h0 := Real.sqrt_nonneg (toReal c.toOklab.a ^ 2 + toReal c.toOklab.b ^ 2)
  rw [abs_le]
  constructor <;> linarith

end Responses

theorem chroma_toOklch_le (acc : lib.Accurate) (c : Color (Double lib)) :
    Finite c.toOklch.chroma ∧ |toReal c.toOklch.chroma| + 1 / 10 ^ 9 ≤ 5 / 4 := by
  obtain ⟨l, m, s, h⟩ := exists_responses acc c
  obtain ⟨ha, hb⟩ := h.abs_opponent_le_one
  obtain ⟨hfinite, hle⟩ := h.chroma_le acc (γ := 1.249) ha hb (by norm_num) (by norm_num)
    (by norm_num) (by norm_num)
  refine ⟨hfinite, ?_⟩
  norm_num [tolerance] at hle ⊢
  linarith

/-- A colour that is as colourful as `ρ` allows stays so at every lightness. -/
theorem muted_withLightness (acc : lib.Accurate) {c : Color (Double lib)} {ρ : ℝ}
    (hchroma : Finite c.toOklch.chroma ∧ |toReal c.toOklch.chroma| + 1 / 10 ^ 9 ≤ ρ)
    {x : Double lib} (hx : InUnit x) : Muted ρ (c.toOklch.withLightness x) ∧
      toReal (c.toOklch.withLightness x).lightness = toReal x := by
  have hlightness : (c.toOklch.withLightness x).lightness = Number.clamp x :=
    clampOr_of_finite _ hx.finite
  have hclamp := InUnit.clamp hx.finite
  obtain ⟨hhue, hhue1⟩ := hue_toOklch_mem acc c
  refine ⟨⟨?_, ?_, ?_, hchroma.1, hchroma.2, hhue, hhue1⟩, ?_⟩
  · rw [hlightness]
    exact hclamp.finite
  · rw [hlightness]
    exact hclamp.nonneg
  · rw [hlightness]
    exact hclamp.le_one
  · rw [hlightness, hx.toReal_clamp]

/-! ## Light colours -/

/-- Above a bound, cubes are farther apart than their roots. -/
theorem abs_sub_le_of_cubes {x y d : ℝ} (hx : 0.928 ≤ x) (hy : 0.928 ≤ y)
    (h : |x ^ 3 - y ^ 3| ≤ 2.58 * d) : |x - y| ≤ d := by
  have hfactor : 2.58 ≤ x ^ 2 + x * y + y ^ 2 := by
    norm_num at hx hy ⊢
    nlinarith
  have hsplit : |x ^ 3 - y ^ 3| = (x ^ 2 + x * y + y ^ 2) * |x - y| := by
    rw [← abs_of_nonneg (show 0 ≤ x ^ 2 + x * y + y ^ 2 by linarith), ← abs_mul]
    congr 1
    ring
  have hle : 2.58 * |x - y| ≤ 2.58 * d := by
    rw [hsplit] at h
    exact (mul_le_mul_of_nonneg_right hfactor (abs_nonneg _)).trans h
  exact le_of_mul_le_mul_left hle (by norm_num)

/-- A light colour whose channels are close together. -/
structure Pale (c : Color (Double lib)) : Prop where
  red : light c.red ∈ Set.Icc 0.8 0.914
  green : light c.green ∈ Set.Icc 0.8 0.914
  blue : light c.blue ∈ Set.Icc 0.8 0.914

namespace Responses
variable {c : Color (Double lib)} {l m s : ℝ}

theorem root_mem (h : Responses c l m s) (hc : Pale c) :
    l ∈ Set.Icc 0.928 0.971 ∧ m ∈ Set.Icc 0.928 0.971 ∧ s ∈ Set.Icc 0.928 0.971 := by
  obtain ⟨⟨hr0, hr1⟩, ⟨hg0, hg1⟩, ⟨hb0, hb1⟩⟩ := hc
  have root {x y : ℝ} (hx : 0 ≤ x) (hxy : |x ^ 3 - y| ≤ 1 / 10 ^ 8) (hy0 : 0.7999 ≤ y)
      (hy1 : y ≤ 0.9141) : x ∈ Set.Icc 0.928 0.971 := by
    obtain ⟨h0, h1⟩ := abs_le.1 hxy
    constructor
    · refine le_of_cube_le ?_
      norm_num at h0 hy0 ⊢
      linarith
    · refine le_of_cube_le ?_
      norm_num at h1 hy1 ⊢
      linarith
  norm_num at hr0 hr1 hg0 hg1 hb0 hb1
  refine ⟨root h.long_nonneg h.long ?_ ?_, root h.medium_nonneg h.medium ?_ ?_,
    root h.short_nonneg h.short ?_ ?_⟩ <;> norm_num <;>
    linarith only [hr0, hr1, hg0, hg1, hb0, hb1]

/-- The roots of a pale colour are as close together as its channels. -/
theorem abs_root_sub_le (h : Responses c l m s) (hc : Pale c) :
    |l - m| ≤ 0.009 ∧ |m - s| ≤ 0.0232 := by
  obtain ⟨⟨hl, _⟩, ⟨hm, _⟩, ⟨hs, _⟩⟩ := h.root_mem hc
  obtain ⟨⟨hr0, hr1⟩, ⟨hg0, hg1⟩, ⟨hb0, hb1⟩⟩ := hc
  obtain ⟨hl0, hl1⟩ := abs_le.1 h.long
  obtain ⟨hm0, hm1⟩ := abs_le.1 h.medium
  obtain ⟨hs0, hs1⟩ := abs_le.1 h.short
  norm_num at hr0 hr1 hg0 hg1 hb0 hb1 hl0 hl1 hm0 hm1 hs0 hs1
  refine ⟨abs_sub_le_of_cubes hl hm (abs_le.2 ⟨?_, ?_⟩),
    abs_sub_le_of_cubes hm hs (abs_le.2 ⟨?_, ?_⟩)⟩ <;> norm_num
  · linarith only [hr0, hr1, hg0, hg1, hb0, hb1, hl0, hm1]
  · linarith only [hr0, hr1, hg0, hg1, hb0, hb1, hl1, hm0]
  · linarith only [hr0, hr1, hg0, hg1, hb0, hb1, hm0, hs1]
  · linarith only [hr0, hr1, hg0, hg1, hb0, hb1, hm1, hs0]

theorem lightness_mem (h : Responses c l m s) (hc : Pale c) :
    0.92 ≤ toReal c.toOklab.lightness ∧ toReal c.toOklab.lightness ≤ 0.98 := by
  obtain ⟨⟨hl0, hl1⟩, ⟨hm0, hm1⟩, ⟨hs0, hs1⟩⟩ := h.root_mem hc
  have hlow := h.lightness.ge
  have hhigh := h.lightness.le
  norm_num at hl0 hl1 hm0 hm1 hs0 hs1 hlow hhigh ⊢
  constructor <;> linarith

/-- Both opponent channels are differences of roots. -/
theorem abs_opponent_le (h : Responses c l m s) (hc : Pale c) :
    |toReal c.toOklab.a| ≤ 0.0284 ∧ |toReal c.toOklab.b| ≤ 0.0191 := by
  obtain ⟨_, ⟨hm0, hm1⟩, _⟩ := h.root_mem hc
  obtain ⟨hlm, hms⟩ := h.abs_root_sub_le hc
  obtain ⟨hlm0, hlm1⟩ := abs_le.1 hlm
  obtain ⟨hms0, hms1⟩ := abs_le.1 hms
  obtain ⟨ha0, ha1⟩ := abs_le.1 h.a.error
  obtain ⟨hb0, hb1⟩ := abs_le.1 h.b.error
  norm_num at hm0 hm1 hlm0 hlm1 hms0 hms1 ha0 ha1 hb0 hb1
  refine ⟨abs_le.2 ⟨?_, ?_⟩, abs_le.2 ⟨?_, ?_⟩⟩ <;> norm_num
  · linarith only [hlm0, hlm1, hms0, hms1, ha0, hm0, hm1]
  · linarith only [hlm0, hlm1, hms0, hms1, ha1, hm0, hm1]
  · linarith only [hlm0, hlm1, hms0, hms1, hb0, hm0, hm1]
  · linarith only [hlm0, hlm1, hms0, hms1, hb1, hm0, hm1]

end Responses

theorem lightness_toOklch_mem (acc : lib.Accurate) {c : Color (Double lib)} (hc : Pale c) :
    0.92 ≤ toReal c.toOklch.lightness ∧ toReal c.toOklch.lightness ≤ 0.98 := by
  obtain ⟨l, m, s, h⟩ := exists_responses acc c
  exact h.lightness_mem hc

theorem chroma_toOklch_le_of_pale (acc : lib.Accurate) {c : Color (Double lib)} (hc : Pale c) :
    Finite c.toOklch.chroma ∧ |toReal c.toOklch.chroma| + 1 / 10 ^ 9 ≤ 0.0346 := by
  obtain ⟨l, m, s, h⟩ := exists_responses acc c
  obtain ⟨ha, hb⟩ := h.abs_opponent_le hc
  obtain ⟨hfinite, hle⟩ := h.chroma_le acc (γ := 0.0345) ha hb (by norm_num) (by norm_num)
    (by norm_num) (by norm_num)
  refine ⟨hfinite, ?_⟩
  norm_num [tolerance] at hle ⊢
  linarith

end ThemeTokens.Double
