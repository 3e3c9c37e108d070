import ThemeTokens.Proofs.Binary64.Near

/-!
# Bytes as fractions

A byte stands for a fraction of 255, and a fraction is written as the nearest byte. What is written
for the fraction of a byte is that byte.
-/
namespace ThemeTokens.Double
open Binary64
variable {lib : Elementary} {A ε r : ℝ} {x : Double lib}

theorem near_ofNat {n : ℕ} {A : ℝ} (hn : n < 2 ^ 53) (hA : n ≤ A) :
    Near A 0 (Number.ofNat n : Double lib) n := by
  obtain ⟨hfinite, hvalue⟩ := floatValue_ofNat hn
  refine ⟨hfinite, by rwa [Nat.abs_cast], ?_⟩
  change |floatValue (Float.ofNat n) - n| ≤ 0
  rw [hvalue, sub_self, abs_zero]

theorem toNat_le (b : UInt8) : (b.toNat : ℝ) ≤ 255 := by
  exact_mod_cast Nat.le_of_lt_succ b.toNat_lt

theorem near_ofByte (b : UInt8) : Near 1 (1 / 10 ^ 11) (Number.ofByte b : Double lib)
    (b.toNat / 255) := by
  have hnat := @near_ofNat lib b.toNat 255 (b.toNat_lt.trans (by norm_num)) (toNat_le b)
  have hlit : Near 255 slip (255.0 : Double lib) 255.0 :=
    near_literal (by norm_num) (by norm_num) (by norm_num) (by norm_num)
  have := hnat.div hlit (show (255 : ℝ) ≤ 255.0 by norm_num) (by norm_num [slip])
    (by norm_num [slip])
  norm_num at this
  exact this.mono le_rfl (by norm_num [slip])

/-! ## The unit interval -/

theorem finite_of_mem (h0 : 0.0 ≤ x) (h1 : x ≤ 1.0) : Finite x :=
  isFinite_of_between finite_zero finite_one h0 h1

theorem clamp_of_mem (h0 : 0.0 ≤ x) (h1 : x ≤ 1.0) : Number.clamp x = x := by
  have hx := finite_of_mem h0 h1
  rw [Number.clamp, if_neg ((not_lt_iff_le hx.isNaN_eq_false finite_zero.isNaN_eq_false).2 h0),
    if_neg ((not_lt_iff_le finite_one.isNaN_eq_false hx.isNaN_eq_false).2 h1)]

theorem clampOr_of_finite (fallback : Double lib) (h : Finite x) :
    Number.clampOr fallback x = Number.clamp x := by
  rw [Number.clampOr, h.isNaN_eq_false]
  rfl

theorem clampOr_of_mem (fallback : Double lib) (h0 : 0.0 ≤ x) (h1 : x ≤ 1.0) :
    Number.clampOr fallback x = x := by
  rw [clampOr_of_finite fallback (finite_of_mem h0 h1), clamp_of_mem h0 h1]

theorem finite_clamp (h : Finite x) : Finite (Number.clamp x) := by
  unfold Number.clamp
  split
  · exact finite_zero
  · split
    · exact finite_one
    · exact h

theorem toReal_clamp (h : Finite x) : toReal (Number.clamp x) = max 0 (min 1 (toReal x)) := by
  unfold Number.clamp
  split
  · next hlt =>
    rw [lt_iff h finite_zero, toReal_zero] at hlt
    rw [toReal_zero, max_eq_left ((min_le_right _ _).trans hlt.le)]
  · next hlt =>
    rw [lt_iff h finite_zero, toReal_zero, not_lt] at hlt
    split
    · next hgt =>
      rw [lt_iff finite_one h, toReal_one] at hgt
      rw [toReal_one, min_eq_left hgt.le, max_eq_right zero_le_one]
    · next hgt =>
      rw [lt_iff finite_one h, toReal_one, not_lt] at hgt
      rw [min_eq_right hgt, max_eq_right hlt]

theorem clamp_mem (hx : Number.isNaN x = false) :
    0.0 ≤ Number.clamp x ∧ Number.clamp x ≤ 1.0 := by
  have hzero : Finite (0.0 : Double lib) := finite_zero
  have hone : Finite (1.0 : Double lib) := finite_one
  have hle : (0.0 : Double lib) ≤ 1.0 := by
    rw [le_iff hzero hone, toReal_zero, toReal_one]
    exact zero_le_one
  unfold Number.clamp
  split
  · exact ⟨(le_iff hzero hzero).2 le_rfl, hle⟩
  · next hlow =>
    split
    · exact ⟨hle, (le_iff hone hone).2 le_rfl⟩
    · next hhigh =>
      exact ⟨(not_lt_iff_le hx hzero.isNaN_eq_false).1 hlow,
        (not_lt_iff_le hone.isNaN_eq_false hx).1 hhigh⟩

theorem clampOr_mem {fallback : Double lib} (h : 0.0 ≤ fallback ∧ fallback ≤ 1.0) :
    0.0 ≤ Number.clampOr fallback x ∧ Number.clampOr fallback x ≤ 1.0 := by
  rw [Number.clampOr]
  split
  · exact h
  · next hx => exact clamp_mem (Bool.eq_false_iff.2 hx)

structure InUnit (x : Double lib) : Prop where
  finite : Finite x
  nonneg : 0 ≤ toReal x
  le_one : toReal x ≤ 1

theorem InUnit.of_mem (h0 : 0.0 ≤ x) (h1 : x ≤ 1.0) : InUnit x := by
  have hx := finite_of_mem h0 h1
  rw [le_iff finite_zero hx, toReal_zero] at h0
  rw [le_iff hx finite_one, toReal_one] at h1
  exact ⟨hx, h0, h1⟩

theorem InUnit.clamp (hx : Finite x) : InUnit (Number.clamp x) where
  finite := finite_clamp hx
  nonneg := toReal_clamp hx ▸ le_max_left _ _
  le_one := toReal_clamp hx ▸ max_le zero_le_one (min_le_left _ _)

theorem InUnit.toReal_clamp (h : InUnit x) : toReal (Number.clamp x) = toReal x := by
  rw [Double.toReal_clamp h.finite, min_eq_right h.le_one, max_eq_right h.nonneg]

theorem Near.clamp (h : Near A ε x r) : Near 1 ε (Number.clamp x) (max 0 (min 1 r)) := by
  refine ⟨finite_clamp h.finite, ?_, ?_⟩
  · rw [abs_of_nonneg (le_max_left _ _)]
    exact max_le zero_le_one (min_le_left _ _)
  · rw [toReal_clamp h.finite]
    have hmin := abs_min_sub_min_le_max 1 (toReal x) 1 r
    have hmax := abs_max_sub_max_le_max 0 (min 1 (toReal x)) 0 (min 1 r)
    rw [sub_self, abs_zero, max_eq_right (abs_nonneg (toReal x - r))] at hmin
    rw [sub_self, abs_zero, max_eq_right (abs_nonneg (min 1 (toReal x) - min 1 r))] at hmax
    exact hmax.trans (hmin.trans h.error)

/-! ## Rounding to a byte -/

/-- What is not a positive number is rounded to zero. -/
theorem round_eq_floor (x : Double lib) : Number.round x = ⌊max 0 (toReal x) + 1 / 2⌋₊ := by
  change Binary64.round x = _
  unfold Binary64.round
  split
  · next m e hm hx =>
    have hvalue : toReal x = m * 2 ^ e := by
      change Binary64.value (Float.toModel x).unpack = _
      rw [hx, value_positive]
    dsimp only
    rw [roundDiv_up _ (fraction_pos m e), fraction_value, hvalue,
      max_eq_right (magnitude_pos hm e).le]
  · next hx =>
    have hvalue : toReal x ≤ 0 := by
      change Binary64.value (Float.toModel x).unpack ≤ 0
      rcases hu : (Float.toModel x).unpack with _ | _ | _ | ⟨_ | _, m, e, hm⟩
      · exact le_rfl
      · exact le_rfl
      · exact le_rfl
      · rw [value_negative]
        linarith [magnitude_pos hm e]
      · exact absurd hu (hx m e hm)
    rw [max_eq_left hvalue, eq_comm, Nat.floor_eq_zero]
    norm_num

theorem abs_floor_half_sub_le {y : ℝ} (hy : 0 ≤ y) : |(⌊y + 1 / 2⌋₊ : ℝ) - y| ≤ 1 / 2 := by
  have hlow := Nat.lt_floor_add_one (y + 1 / 2)
  have hhigh := Nat.floor_le (show 0 ≤ y + 1 / 2 by positivity)
  rw [abs_le]
  constructor <;> linarith

theorem abs_round_sub_le (h : Near A ε x r) (hr : 0 ≤ r) :
    |(Number.round x : ℝ) - r| ≤ 1 / 2 + ε := by
  have hmax : |max 0 (toReal x) - r| ≤ ε := by
    have hmax := abs_max_sub_max_le_max 0 (toReal x) 0 r
    rw [sub_self, abs_zero, max_eq_right (abs_nonneg (toReal x - r)), max_eq_right hr] at hmax
    exact hmax.trans h.error
  rw [round_eq_floor]
  exact (abs_sub_le _ _ _).trans (add_le_add (abs_floor_half_sub_le (le_max_left _ _)) hmax)

theorem abs_toByte_sub_le (h : Near A ε x r) (hr0 : 0 ≤ r) (hr1 : r ≤ 1)
    (hε : ε ≤ 1 / 1000) :
    |((Number.toByte x).toNat : ℝ) - 255 * r| ≤ 1 / 2 + (255 * ε + 3 * slip) := by
  have hε0 := h.error_nonneg
  have hlit : Near 255 slip (255.0 : Double lib) 255.0 :=
    near_literal (by norm_num) (by norm_num) (by norm_num) (by norm_num)
  have hclamp := h.clamp
  rw [min_eq_right hr1, max_eq_right hr0] at hclamp
  have hscaled := hclamp.mul hlit (by norm_num [slip]; linarith)
  have hround := abs_round_sub_le hscaled (by positivity)
  rw [← clampOr_of_finite 0.0 h.finite] at hround
  have hbound : |(Number.round (Number.clampOr 0.0 x * 255.0) : ℝ) - 255 * r| ≤
      1 / 2 + (255 * ε + 3 * slip) := by
    have hr : 255 * r = r * 255.0 := by norm_num; ring
    rw [hr]
    refine hround.trans ?_
    norm_num [slip]
    linarith
  have hlt : Number.round (Number.clampOr 0.0 x * 255.0) < 256 := by
    have hle := (abs_le.1 hbound).2
    norm_num [slip] at hle
    have : (Number.round (Number.clampOr 0.0 x * 255.0) : ℝ) < 256 := by linarith
    exact_mod_cast this
  rw [Number.toByte, UInt8.toNat_ofNat_of_lt' hlt]
  exact hbound

theorem toByte_ofByte (b : UInt8) : Number.toByte (Number.ofByte b : Double lib) = b := by
  have hb1 : (b.toNat : ℝ) / 255 ≤ 1 := (div_le_one (by norm_num)).2 (toNat_le b)
  have h := abs_toByte_sub_le (@near_ofByte lib b) (by positivity) hb1 (by norm_num)
  rw [mul_div_cancel₀ _ (by norm_num)] at h
  have hlt : |((Number.toByte (Number.ofByte b : Double lib)).toNat : ℤ) - b.toNat| < 1 := by
    have : |((Number.toByte (Number.ofByte b : Double lib)).toNat : ℝ) - b.toNat| < 1 :=
      h.trans_lt (by norm_num [slip])
    exact_mod_cast this
  have heq := Int.abs_lt_one_iff.1 hlt
  exact UInt8.toNat_inj.1 (by omega)

/-! ## The fraction of a byte -/

theorem toReal_wholeByte : toReal (255.0 : Double lib) = 255 := by
  have hunpack : (255.0 : Float).toModel.unpack =
      .finite .positive 8972014882652160 (-45) (by decide) := rfl
  rw [toReal_of_unpack (x := (255.0 : Double lib)) (by decide) hunpack]
  norm_num

theorem finite_wholeByte : Finite (255.0 : Double lib) :=
  (near_literal (A := 255) (by norm_num) (by norm_num) (by norm_num) (by norm_num)).finite

theorem isNearest_ofByte (b : UInt8) :
    IsNearest (Number.ofByte b : Double lib) (b.toNat / 255) := by
  obtain ⟨hfinite, hvalue⟩ := floatValue_ofNat (n := b.toNat) (b.toNat_lt.trans (by norm_num))
  have hwhole : floatValue (255.0 : Double lib) = 255 := toReal_wholeByte
  have hb1 : |(b.toNat : ℝ) / 255| ≤ 1000 := by
    rw [abs_of_nonneg (by positivity), div_le_iff₀ (by norm_num)]
    linarith [toNat_le b]
  rw [← hvalue, ← hwhole] at hb1 ⊢
  exact isNearest_div hfinite finite_wholeByte (by rw [hwhole]; norm_num) (Near.inRange hb1)

theorem ofByte_nonneg (b : UInt8) : 0.0 ≤ (Number.ofByte b : Double lib) := by
  have h := @isNearest_ofByte lib b
  rw [le_iff finite_zero h.isFinite, toReal_zero]
  exact h.nonneg (by positivity)

theorem ofByte_le_one (b : UInt8) : (Number.ofByte b : Double lib) ≤ 1.0 := by
  have hb1 : (b.toNat : ℝ) / 255 ≤ 1 := (div_le_one (by norm_num)).2 (toNat_le b)
  have h := @isNearest_ofByte lib b
  rw [le_iff h.isFinite finite_one]
  exact h.le finite_one (hb1.trans toReal_one.ge)

theorem ofByte_whole : (Number.ofByte 255 : Double lib) = 1.0 := by
  have hwhole : (Float.ofNat 255 / 255.0 : Float) = 1.0 := by decide +kernel
  exact hwhole

theorem one_le_ofByte (b : UInt8) : 1.0 ≤ (Number.ofByte b : Double lib) ↔ b = 255 := by
  constructor
  · intro hle
    have h := @near_ofByte lib b
    rw [le_iff finite_one h.finite, toReal_one] at hle
    have hge : (254 : ℝ) < b.toNat := by linarith [h.le]
    have hge' : 254 < b.toNat := by exact_mod_cast hge
    have hlt := b.toNat_lt
    exact UInt8.toNat_inj.1 (show b.toNat = 255 by omega)
  · rintro rfl
    rw [ofByte_whole, le_iff finite_one finite_one]

/-! ## The byte of a fraction -/

/-- The byte next to a fraction. It is the nearest one but for the rounding of the product. -/
structure IsByteOf (x : Double lib) (b : UInt8) : Prop where
  /-- The product with 255 is a double. -/
  product : IsNearest (x * (255.0 : Double lib) : Double lib) (255 * toReal x)
  /-- It is rounded to a whole number, and a half goes up. -/
  whole : b.toNat = ⌊toReal (x * (255.0 : Double lib)) + 1 / 2⌋₊
  error : |255 * toReal x - b.toNat| ≤ 1 / 2 + 1 / 2 ^ 45

theorem InUnit.isNearest_product (h : InUnit x) :
    IsNearest (x * (255.0 : Double lib) : Double lib) (255 * toReal x) := by
  have hwhole : floatValue (255.0 : Double lib) = 255 := @toReal_wholeByte lib
  have hrange : |toReal x * 255| ≤ 1000 := by
    rw [abs_of_nonneg (mul_nonneg h.nonneg (by norm_num))]
    linarith [h.le_one]
  rw [← hwhole] at hrange
  have hproduct := isNearest_mul h.finite (@finite_wholeByte lib) (Near.inRange hrange)
  rw [hwhole, mul_comm (floatValue x)] at hproduct
  exact hproduct

theorem isByteOf_toByte (h0 : 0.0 ≤ x) (h1 : x ≤ 1.0) : IsByteOf x (Number.toByte x) := by
  have h := InUnit.of_mem h0 h1
  have hproduct := h.isNearest_product
  have hexact : 0 ≤ 255 * toReal x ∧ 255 * toReal x ≤ 255 :=
    ⟨mul_nonneg (by norm_num) h.nonneg, by linarith [h.le_one]⟩
  have hnonneg : 0 ≤ toReal (x * (255.0 : Double lib)) := hproduct.nonneg hexact.1
  have hle : toReal (x * (255.0 : Double lib)) ≤ 255 :=
    (hproduct.le (@finite_wholeByte lib) (hexact.2.trans_eq (@toReal_wholeByte lib).symm)).trans_eq
      (@toReal_wholeByte lib)
  have hlt : ⌊toReal (x * (255.0 : Double lib)) + 1 / 2⌋₊ < 256 := by
    rw [Nat.floor_lt (by positivity)]
    norm_num
    linarith
  have hbyte : (Number.toByte x).toNat = ⌊toReal (x * (255.0 : Double lib)) + 1 / 2⌋₊ := by
    rw [Number.toByte, clampOr_of_mem 0.0 h0 h1, round_eq_floor, max_eq_right hnonneg,
      UInt8.toNat_ofNat_of_lt' hlt]
  have herror : |toReal (x * (255.0 : Double lib)) - 255 * toReal x| ≤ 1 / 2 ^ 45 :=
    (hproduct.error_le (abs_le.2 ⟨by linarith, hexact.2⟩) (by norm_num)).trans (by norm_num)
  refine ⟨hproduct, hbyte, ?_⟩
  rw [hbyte, abs_sub_comm]
  exact (abs_sub_le _ _ _).trans (add_le_add (abs_floor_half_sub_le hnonneg) herror)

end ThemeTokens.Double
