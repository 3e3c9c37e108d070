import Mathlib.Algebra.Order.Floor.Semifield
import ThemeTokens.Proofs.Binary64.Value

/-!
# Rounding

Every operation on doubles computes its exact result as a count of units in the last place, with
what lies below kept as two bits or as a remainder. The count nearest to the result gives a double
that no other double comes closer than.
-/
namespace ThemeTokens.Binary64
open Float.Model Float.Model.UnpackedFloat

noncomputable def signed : Sign → ℝ → ℝ
  | .negative, x => -x
  | .positive, x => x

/-- `u` stands for a double nearest to `z`, and is as near as the unit in its last place allows. -/
structure Nearest (u : UnpackedFloat) (z : ℝ) : Prop where
  canonical : Canonical u
  isFinite : u.isFinite
  nearest (n e : ℤ) : |n| ≤ 2 ^ 53 → -1074 ≤ e → |value u - z| ≤ |n * 2 ^ e - z|
  error : |value u - z| ≤ max (|z| / 2 ^ 53) (1 / 2 ^ 1075)

/-- `u` is as near to `z` as a double without an upper bound on the exponent can be. -/
structure Rounded (u : UnpackedFloat) (z : ℝ) : Prop where
  normal : Normal u
  isFinite : u.isFinite
  nearest (n e : ℤ) : |n| ≤ 2 ^ 53 → -1074 ≤ e → |value u - z| ≤ |n * 2 ^ e - z|
  error : |value u - z| ≤ max (|z| / 2 ^ 53) (1 / 2 ^ 1075)

theorem Canonical.normal {u : UnpackedFloat} (h : Canonical u) : Normal u := by
  cases u with
  | finite s m e hm => exact ⟨h.1, h.2.1, h.2.2.2⟩
  | _ => trivial

theorem Nearest.rounded {u : UnpackedFloat} {z : ℝ} (h : Nearest u z) : Rounded u z :=
  ⟨h.canonical.normal, h.isFinite, h.nearest, h.error⟩

theorem Rounded.toNearest {u : UnpackedFloat} {z : ℝ} (h : Rounded u z) (hu : Canonical u) :
    Nearest u z :=
  ⟨hu, h.isFinite, h.nearest, h.error⟩

/-! ## Units -/

/-- `k * 2 ^ u` with a sign, where `k` may be one more than a mantissa can be. -/
def units (s : Sign) (k : ℕ) (u : ℤ) : UnpackedFloat :=
  if h : k = 0 then .zero s
  else if k = 2 ^ 53 then .finite s (2 ^ 52) (u + 1) (by decide)
  else .finite s k u (Nat.pos_of_ne_zero h)

theorem units_zero (s : Sign) (u : ℤ) : units s 0 u = .zero s := rfl

theorem units_carry (s : Sign) (u : ℤ) :
    units s (2 ^ 53) u = .finite s (2 ^ 52) (u + 1) (by decide) := rfl

theorem units_finite (s : Sign) {k : ℕ} (u : ℤ) (hk : 0 < k) (h : k ≠ 2 ^ 53) :
    units s k u = .finite s k u hk := (dif_neg hk.ne').trans (if_neg h)

theorem value_finite (s : Sign) {m : ℕ} (e : ℤ) (hm : 0 < m) :
    value (.finite s m e hm) = signed s (m * 2 ^ e) := by
  cases s
  · exact value_negative hm
  · exact value_positive hm

@[simp] theorem abs_signed (s : Sign) (x : ℝ) : |signed s x| = |x| := by
  cases s
  · exact abs_neg x
  · rfl

@[simp] theorem signed_zero (s : Sign) : signed s 0 = 0 := by cases s <;> simp [signed]

theorem signed_sub (s : Sign) (x y : ℝ) : signed s x - signed s y = signed s (x - y) := by
  cases s
  · exact neg_sub_neg x y |>.trans (neg_sub x y).symm
  · rfl

theorem value_units (s : Sign) (k : ℕ) (u : ℤ) : value (units s k u) = signed s (k * 2 ^ u) := by
  rcases Nat.eq_zero_or_pos k with rfl | hk
  · rw [units_zero, value_zero, Nat.cast_zero, zero_mul, signed_zero]
  · by_cases h : k = 2 ^ 53
    · rw [h, units_carry, value_finite, zpow_add_one₀ (by norm_num)]
      push_cast
      congr 1
      ring
    · rw [units_finite s u hk h, value_finite]

/-- A count of units within half a unit of `z` is nearest to `z` among all doubles. -/
theorem nearest_count {z : ℝ} {k u : ℤ} (hu : u = -1074 ∨ 2 ^ 52 * 2 ^ u ≤ z)
    (hk : |k * 2 ^ u - z| ≤ 2 ^ u / 2) {n e : ℤ} (hn : |n| ≤ 2 ^ 53) (he : -1074 ≤ e) :
    |(k : ℝ) * 2 ^ u - z| ≤ |n * 2 ^ e - z| := by
  have hpos := two_zpow_pos u
  have hgrid (j : ℤ) : |(k : ℝ) * 2 ^ u - z| ≤ |j * 2 ^ u - z| := by
    rcases eq_or_ne j k with rfl | hjk
    · rfl
    · have hone : (1 : ℝ) ≤ |(j : ℝ) - k| := by
        exact_mod_cast Int.one_le_abs (sub_ne_zero.2 hjk)
      have hsplit : |(j : ℝ) - k| * 2 ^ u ≤ |j * 2 ^ u - z| + |k * 2 ^ u - z| := by
        calc |(j : ℝ) - k| * 2 ^ u = |(j * 2 ^ u - z) - (k * 2 ^ u - z)| := by
              rw [sub_sub_sub_cancel_right, ← sub_mul, abs_mul, abs_of_pos hpos]
          _ ≤ _ := abs_sub _ _
      nlinarith
  rcases le_or_gt u e with h | h
  · obtain ⟨d, rfl⟩ : ∃ d : ℕ, e = u + d := ⟨(e - u).toNat, by omega⟩
    have := hgrid (n * 2 ^ d)
    rwa [zpow_add₀ (by norm_num), zpow_natCast, ← mul_assoc, mul_right_comm, ← Int.cast_ofNat,
      ← Int.cast_pow, ← Int.cast_mul]
  · have hbig : (2 : ℝ) ^ 52 * 2 ^ u ≤ z := hu.resolve_left (by omega)
    have hn' : (n : ℝ) ≤ 2 ^ 53 := by exact_mod_cast (le_abs_self n).trans hn
    have hlow : (n : ℝ) * 2 ^ e ≤ 2 ^ 52 * 2 ^ u := by
      calc (n : ℝ) * 2 ^ e ≤ 2 ^ 53 * 2 ^ (u - 1) :=
            mul_le_mul hn' (zpow_le_zpow_right₀ (by norm_num) (by omega)) (two_zpow_pos e).le
              (by norm_num)
        _ = 2 ^ 52 * 2 ^ u := by rw [zpow_sub_one₀ (by norm_num)]; ring
    have hcarry := hgrid 4503599627370496
    rw [show ((4503599627370496 : ℤ) : ℝ) = 2 ^ 52 by norm_num] at hcarry
    rw [abs_of_nonpos (sub_nonpos.2 hbig)] at hcarry
    rw [abs_of_nonpos (sub_nonpos.2 (hlow.trans hbig))]
    linarith

theorem isFinite_units (s : Sign) (k : ℕ) (u : ℤ) : (units s k u).isFinite = true := by
  rcases Nat.eq_zero_or_pos k with rfl | hk
  · rfl
  · by_cases h : k = 2 ^ 53
    · rw [h, units_carry]
      rfl
    · rw [units_finite s u hk h]
      rfl

/-- Rounding to units leaves a mantissa of full length unless the units are the smallest. -/
theorem normal_units (s : Sign) {z : ℝ} {k : ℕ} {u : ℤ} (hlow : -1074 ≤ u)
    (hu : u = -1074 ∨ 2 ^ 52 * 2 ^ u ≤ z) (hk53 : k ≤ 2 ^ 53) (hk : |k * 2 ^ u - z| ≤ 2 ^ u / 2) :
    Normal (units s k u) := by
  rcases Nat.eq_zero_or_pos k with rfl | hk0
  · trivial
  by_cases h53 : k = 2 ^ 53
  · rw [h53, units_carry]
    exact ⟨by norm_num, by omega, Or.inl le_rfl⟩
  rw [units_finite s u hk0 h53]
  refine ⟨lt_of_le_of_ne hk53 h53, hlow, ?_⟩
  rcases hu with rfl | hu
  · exact Or.inr rfl
  left
  have hcount : (2 : ℝ) ^ 52 - 1 / 2 ≤ k := by
    have hscaled : (2 ^ 52 - 1 / 2) * (2 : ℝ) ^ u ≤ k * 2 ^ u := by linarith [(abs_le.1 hk).1]
    exact le_of_mul_le_mul_right hscaled (two_zpow_pos u)
  by_contra hlt
  have hsucc : (k : ℝ) + 1 ≤ 2 ^ 52 := by
    have : k + 1 ≤ 2 ^ 52 := by omega
    exact_mod_cast this
  linarith

/-- A sign can be moved from what is rounded to a count. -/
theorem abs_sub_signed (s : Sign) (n e : ℤ) (z : ℝ) :
    |(n : ℝ) * 2 ^ e - signed s z| = |((s.apply n : ℤ) : ℝ) * 2 ^ e - z| := by
  cases s
  · simp only [signed, Sign.apply]
    push_cast
    rw [← abs_neg]
    congr 1
    ring
  · rfl

theorem abs_apply (s : Sign) (n : ℤ) : |s.apply n| = |n| := by
  cases s
  · rw [Sign.apply, abs_neg]
  · rfl

/-- A count of units within half a unit of `z`, with a sign. -/
theorem rounded_units (s : Sign) {z : ℝ} {k : ℕ} {u : ℤ} (hz : 0 ≤ z) (hlow : -1074 ≤ u)
    (hu : u = -1074 ∨ 2 ^ 52 * 2 ^ u ≤ z) (hk53 : k ≤ 2 ^ 53) (hk : |k * 2 ^ u - z| ≤ 2 ^ u / 2) :
    Rounded (units s k u) (signed s z) := by
  refine ⟨normal_units s hlow hu hk53 hk, isFinite_units s k u, fun n e hn he => ?_, ?_⟩
  · rw [value_units, signed_sub, abs_signed, abs_sub_signed]
    exact_mod_cast @nearest_count z k u hu (by exact_mod_cast hk) (s.apply n) e
      ((abs_apply s n).trans_le hn) he
  · rw [value_units, signed_sub, abs_signed, abs_signed, abs_of_nonneg hz]
    refine hk.trans ?_
    rcases hu with rfl | hu
    · refine le_max_of_le_right (le_of_eq ?_)
      rw [zpow_neg, zpow_ofNat, div_eq_mul_inv, one_div, pow_succ _ 1074, mul_inv]
    · refine le_max_of_le_left ?_
      rw [le_div_iff₀ (by norm_num)]
      linarith

/-! ## The target exponent -/

theorem targetExponent_eq (m : ℕ) (e : ℤ) :
    Format.binary64.targetExponent (totalExponent m e) = unitExponent m e := by
  simp only [Format.targetExponent, totalExponent, mantissaBits_binary64, Format.minExponent,
    unitExponent]
  norm_num
  omega

theorem shiftToTargetExponent_eq {m : ℕ} {e : ℤ} (acc : Accuracy) (he : e ≤ unitExponent m e) :
    shiftToTargetExponent .binary64 m e acc =
      (ExtendedMantissa.ofMantissaAndAccuracy m acc >>> (unitExponent m e - e).toNat,
        unitExponent m e) := by
  simp only [shiftToTargetExponent, shiftToExponent, targetExponent_eq]
  congr 1
  omega

/-- What rounding up to the next power of two leaves too long is shifted once more. -/
theorem carry {k : ℕ} {u : ℤ} (hk : k ≤ 2 ^ 53) (hu : -1074 ≤ u) :
    ((shiftToTargetExponent .binary64 k u .exact).1.mantissa,
      (shiftToTargetExponent .binary64 k u .exact).2) =
    if k = 2 ^ 53 then (2 ^ 52, u + 1) else (k, u) := by
  simp only [shiftToTargetExponent, shiftToExponent, targetExponent_eq]
  split
  · next h =>
    subst h
    have : unitExponent (2 ^ 53) u = u + 1 := by
      rw [unitExponent, Nat.log2_two_pow]
      omega
    rw [this, show (u + 1 - u).toNat = 1 by omega]
    rfl
  · next h =>
    have hlog : k.log2 ≤ 52 := by
      by_cases h0 : k = 0
      · simp [h0]
      · have := (Nat.log2_lt h0).2 (lt_of_le_of_ne hk h)
        omega
    have : (unitExponent k u - u).toNat = 0 := by
      rw [unitExponent]
      omega
    rw [this]
    simp only [Nat.cast_zero, add_zero]
    rfl

theorem carry_units (s : Sign) {k : ℕ} {u : ℤ} (hk : k ≤ 2 ^ 53) (hu : -1074 ≤ u) :
    (if h : (shiftToTargetExponent .binary64 k u .exact).1.mantissa = 0 then .zero s
      else .finite s (shiftToTargetExponent .binary64 k u .exact).1.mantissa
        (shiftToTargetExponent .binary64 k u .exact).2 (Nat.pos_of_ne_zero h)) = units s k u := by
  have hcarry := carry hk hu
  generalize shiftToTargetExponent .binary64 k u .exact = shifted at hcarry
  obtain ⟨⟨m, _, _⟩, e⟩ := shifted
  by_cases h53 : k = 2 ^ 53
  · rw [if_pos h53] at hcarry
    obtain ⟨rfl, rfl⟩ := Prod.mk.inj hcarry
    rw [h53, units_carry]
    exact dif_neg (by norm_num)
  · rw [if_neg h53] at hcarry
    obtain ⟨rfl, rfl⟩ := Prod.mk.inj hcarry
    rcases Nat.eq_zero_or_pos m with rfl | hm
    · rfl
    · rw [units_finite s e hm h53]
      exact dif_neg hm.ne'

theorem roundWithAccuracy_eq (s : Sign) {m : ℕ} {e : ℤ} {acc : Accuracy} {x : ℝ}
    (hx : Represents (ExtendedMantissa.ofMantissaAndAccuracy m acc) x)
    (he : e ≤ unitExponent m e) :
    ∃ k : ℕ, k ≤ 2 ^ 53 ∧ |k * (2 : ℝ) ^ unitExponent m e - x * 2 ^ e| ≤ 2 ^ unitExponent m e / 2 ∧
      roundWithAccuracy .binary64 s m e acc = units s k (unitExponent m e) := by
  have hpos := two_zpow_pos e
  set u := unitExponent m e with hu
  set em := ExtendedMantissa.ofMantissaAndAccuracy m acc >>> (u - e).toNat with hem
  have hscale : (2 : ℝ) ^ u = 2 ^ (u - e).toNat * 2 ^ e := by
    rw [← zpow_natCast, ← zpow_add₀ (by norm_num)]
    congr 1
    omega
  have hrep : Represents em (x / 2 ^ (u - e).toNat) := hx.shiftRight _
  have hk : em.roundedMantissa ≤ 2 ^ 53 := by
    have hm : (m : ℝ) + 1 ≤ 2 ^ (m.log2 + 1) := by exact_mod_cast Nat.lt_log2_self
    have hm' : (m : ℝ) + 1 ≤ 2 ^ 53 * 2 ^ (u - e).toNat := by
      rw [← pow_add]
      refine hm.trans (pow_le_pow_right₀ (by norm_num) ?_)
      rw [hu, unitExponent]
      omega
    have hx' : x / 2 ^ (u - e).toNat < 2 ^ 53 := by
      rw [div_lt_iff₀ (by positivity)]
      have := hx.bounds.2
      have hmant : (ExtendedMantissa.ofMantissaAndAccuracy m acc).mantissa = m := by
        rcases acc with _ | (_ | _ | _) <;> rfl
      rw [hmant] at this
      linarith
    have := (abs_le.1 hrep.rounded).2
    have : (em.roundedMantissa : ℝ) < 2 ^ 53 + 1 := by linarith
    have : em.roundedMantissa < 2 ^ 53 + 1 := by exact_mod_cast this
    omega
  refine ⟨em.roundedMantissa, hk, ?_, ?_⟩
  · have := hrep.rounded
    calc |(em.roundedMantissa : ℝ) * 2 ^ u - x * 2 ^ e|
        = |(em.roundedMantissa : ℝ) - x / 2 ^ (u - e).toNat| * 2 ^ u := by
          rw [← abs_of_pos (two_zpow_pos u), ← abs_mul, abs_of_pos (two_zpow_pos u), sub_mul]
          congr 2
          rw [hscale]
          field_simp
      _ ≤ 1 / 2 * 2 ^ u := mul_le_mul_of_nonneg_right this (two_zpow_pos u).le
      _ = 2 ^ u / 2 := by ring
  · have hlow : -1074 ≤ u := by rw [hu, unitExponent]; omega
    unfold roundWithAccuracy
    rw [shiftToTargetExponent_eq acc he]
    exact carry_units s hk hlow

theorem unitExponent_spec {m : ℕ} {e : ℤ} {x : ℝ} (hpos : 0 < m) (hm : m ≤ x) :
    unitExponent m e = -1074 ∨ (2 : ℝ) ^ 52 * 2 ^ unitExponent m e ≤ x * 2 ^ e := by
  rcases le_or_gt (m.log2 + e - 52) (-1074) with h | h
  · exact Or.inl (max_eq_right h)
  · right
    have hlog : ((2 ^ m.log2 : ℕ) : ℝ) ≤ x :=
      (Nat.cast_le.2 (Nat.log2_self_le hpos.ne')).trans hm
    rw [unitExponent, max_eq_left h.le]
    calc (2 : ℝ) ^ 52 * 2 ^ (m.log2 + e - 52) = (2 ^ m.log2 : ℕ) * 2 ^ e := by
          rw [zpow_sub₀ (by norm_num), zpow_add₀ (by norm_num), zpow_natCast]
          push_cast
          norm_num
          ring
      _ ≤ x * 2 ^ e := mul_le_mul_of_nonneg_right hlog (two_zpow_pos e).le

theorem unitExponent_zero {e : ℤ} (he : e ≤ unitExponent 0 e) : unitExponent 0 e = -1074 := by
  rw [unitExponent] at he ⊢
  simp at he ⊢
  omega

theorem rounded_roundWithAccuracy (s : Sign) {m : ℕ} {e : ℤ} {acc : Accuracy} {x : ℝ}
    (hx : Represents (ExtendedMantissa.ofMantissaAndAccuracy m acc) x)
    (he : e ≤ unitExponent m e) :
    Rounded (roundWithAccuracy .binary64 s m e acc) (signed s (x * 2 ^ e)) := by
  obtain ⟨k, hk53, hk, heq⟩ := roundWithAccuracy_eq s hx he
  have hm : (m : ℝ) ≤ x := by
    rcases acc with _ | (_ | _ | _) <;> exact hx.bounds.1
  have hlow : -1074 ≤ unitExponent m e := by
    rw [unitExponent]
    omega
  have hu : unitExponent m e = -1074 ∨ (2 : ℝ) ^ 52 * 2 ^ unitExponent m e ≤ x * 2 ^ e := by
    rcases Nat.eq_zero_or_pos m with rfl | hpos
    · exact Or.inl (unitExponent_zero he)
    · exact unitExponent_spec hpos hm
  rw [heq]
  exact rounded_units s (mul_nonneg (m.cast_nonneg.trans hm) (two_zpow_pos e).le) hlow hu hk53 hk

theorem decreaseExponent_value (m : ℕ) {e f : ℤ} (hf : f ≤ e) :
    ((decreaseExponent m e f).1 : ℝ) * 2 ^ f = m * 2 ^ e := by
  simp only [decreaseExponent, Nat.shiftLeft_eq]
  push_cast
  rw [← zpow_natCast, mul_assoc, ← zpow_add₀ (by norm_num), Int.toNat_of_nonneg (by omega)]
  congr 2
  omega

theorem log2_shiftLeft {m : ℕ} (hm : 0 < m) (n : ℕ) : (m <<< n).log2 = m.log2 + n := by
  rw [Nat.shiftLeft_eq, Nat.log2_eq_iff (by positivity)]
  have hm' := (Nat.log2_eq_iff hm.ne').1 rfl
  rw [show m.log2 + n + 1 = m.log2 + 1 + n by ring, pow_add _ m.log2, pow_add _ (m.log2 + 1)]
  exact ⟨Nat.mul_le_mul_right _ hm'.1, Nat.mul_lt_mul_of_pos_right hm'.2 (by positivity)⟩

theorem rounded_round (s : Sign) {m : ℕ} (hm : 0 < m) (e : ℤ) :
    Rounded (UnpackedFloat.round .binary64 s m e) (signed s (m * 2 ^ e)) := by
  unfold UnpackedFloat.round
  rw [targetExponent_eq]
  change Rounded (roundWithAccuracy .binary64 s (decreaseExponent m e (unitExponent m e)).1
    (decreaseExponent m e (unitExponent m e)).2 .exact) _
  rcases le_or_gt (unitExponent m e) e with h | h
  · have hsnd : (decreaseExponent m e (unitExponent m e)).2 = unitExponent m e := by
      simp only [decreaseExponent]
      omega
    have hvalue := decreaseExponent_value m h
    have hunit : unitExponent (decreaseExponent m e (unitExponent m e)).1 (unitExponent m e) =
        unitExponent m e := by
      simp only [decreaseExponent]
      rw [unitExponent, log2_shiftLeft hm, unitExponent] at *
      omega
    have := @rounded_roundWithAccuracy s (decreaseExponent m e (unitExponent m e)).1
      (unitExponent m e) .exact _ (represents_exact _) hunit.ge
    rw [hvalue] at this
    rwa [hsnd]
  · have : decreaseExponent m e (unitExponent m e) = (m, e) := by
      simp only [decreaseExponent, show (e - unitExponent m e).toNat = 0 by omega]
      simp
    rw [this]
    exact rounded_roundWithAccuracy s (represents_exact m) h.le

theorem nearest_zero (s : Sign) : Nearest (.zero s) 0 where
  canonical := trivial
  isFinite := rfl
  nearest n e _ _ := by
    rw [value_zero, sub_zero, abs_zero]
    exact abs_nonneg _
  error := by simp

theorem rounded_normalize (n e : ℤ) (s : Sign) :
    Rounded (UnpackedFloat.normalize .binary64 n e s) (n * 2 ^ e) := by
  unfold UnpackedFloat.normalize
  rcases lt_trichotomy n 0 with h | rfl | h
  · have hcast : (((-n).toNat : ℕ) : ℝ) = -n := by
      exact_mod_cast Int.toNat_of_nonneg (by omega : 0 ≤ -n)
    have := rounded_round .negative (show 0 < (-n).toNat by omega) e
    rw [compare_lt_iff_lt.2 h]
    rw [hcast, signed, neg_mul, neg_neg] at this
    exact this
  · rw [compare_eq_iff_eq.2 rfl]
    simpa using (nearest_zero s).rounded
  · have hcast : ((n.toNat : ℕ) : ℝ) = n := by exact_mod_cast Int.toNat_of_nonneg h.le
    have := rounded_round .positive (show 0 < n.toNat by omega) e
    rw [compare_gt_iff_gt.2 h]
    rw [hcast] at this
    exact this

/-! ## Quotients -/

theorem fraction_value (m : ℕ) (e : ℤ) :
    ((Decimal.fraction m e).1 : ℝ) / (Decimal.fraction m e).2 = m * 2 ^ e := by
  simp only [Decimal.fraction, Nat.pow_eq]
  push_cast
  rcases le_total 0 e with h | h
  · obtain ⟨n, rfl⟩ := Int.eq_ofNat_of_zero_le h
    simp
  · obtain ⟨n, rfl⟩ := Int.exists_eq_neg_ofNat h
    simp [div_eq_mul_inv]

theorem fraction_pos (m : ℕ) (e : ℤ) : 0 < (Decimal.fraction m e).2 :=
  Nat.pow_pos two_pos

theorem roundDiv_error (tie : Tie) (n : ℕ) {d : ℕ} (hd : 0 < d) :
    |(Decimal.roundDiv tie n d : ℝ) - n / d| ≤ 1 / 2 := by
  have hd' : (0 : ℝ) < d := by exact_mod_cast hd
  have hn : (n : ℝ) = d * (n / d : ℕ) + (n % d : ℕ) := by exact_mod_cast (Nat.div_add_mod n d).symm
  have hmod : ((n % d : ℕ) : ℝ) < d := by exact_mod_cast Nat.mod_lt n hd
  have hmod0 : (0 : ℝ) ≤ (n % d : ℕ) := Nat.cast_nonneg _
  have hq : (n : ℝ) / d = (n / d : ℕ) + (n % d : ℕ) / d := by
    rw [hn]
    field_simp
  rw [hq, abs_le]
  unfold Decimal.roundDiv
  dsimp only
  split
  · next h =>
    have h' : 2 * ((n % d : ℕ) : ℝ) < d := by exact_mod_cast h
    have : ((n % d : ℕ) : ℝ) / d ≤ 1 / 2 := by rw [div_le_iff₀ hd']; linarith
    have : (0 : ℝ) ≤ ((n % d : ℕ) : ℝ) / d := by positivity
    constructor <;> linarith
  · next h =>
    have h' : (d : ℝ) ≤ 2 * (n % d : ℕ) := by exact_mod_cast not_lt.1 h
    have hhalf : 1 / 2 ≤ ((n % d : ℕ) : ℝ) / d := by rw [le_div_iff₀ hd']; linarith
    have hone : ((n % d : ℕ) : ℝ) / d < 1 := by rw [div_lt_one hd']; exact hmod
    split
    · push_cast
      constructor <;> linarith
    · next h2 =>
      have h2' : 2 * ((n % d : ℕ) : ℝ) ≤ d := by exact_mod_cast not_lt.1 h2
      have hhalf' : ((n % d : ℕ) : ℝ) / d ≤ 1 / 2 := by rw [div_le_iff₀ hd']; linarith
      cases tie
      · push_cast
        constructor <;> linarith
      · have hparity : ((n / d % 2 : ℕ) : ℝ) ≤ 1 := by
          exact_mod_cast Nat.le_of_lt_succ (Nat.mod_lt _ two_pos)
        have hparity0 : (0 : ℝ) ≤ ((n / d % 2 : ℕ) : ℝ) := Nat.cast_nonneg _
        push_cast at hparity hparity0 ⊢
        constructor <;> linarith

/-- The natural number nearest to a quotient, where a half goes up. -/
theorem roundDiv_up (n : ℕ) {d : ℕ} (hd : 0 < d) :
    Decimal.roundDiv .up n d = ⌊(n / d : ℝ) + 1 / 2⌋₊ := by
  have hpos : (0 : ℝ) < d := by exact_mod_cast hd
  have hquotient : (n / d : ℝ) + 1 / 2 = (2 * n + d : ℕ) / (2 * d : ℕ) := by
    push_cast
    field_simp
  have hdivide : d * (n / d) + n % d = n := Nat.div_add_mod n d
  have hmod : n % d < d := Nat.mod_lt n hd
  rw [hquotient, Nat.floor_div_eq_div]
  unfold Decimal.roundDiv
  dsimp only
  generalize n / d = quotient at hdivide ⊢
  have hlow : quotient * (2 * d) = 2 * (d * quotient) := by ring
  have hhigh : (quotient + 1) * (2 * d) = 2 * (d * quotient) + 2 * d := by ring
  have hnext : (quotient + 1 + 1) * (2 * d) = 2 * (d * quotient) + 4 * d := by ring
  symm
  split
  · exact Nat.div_eq_of_lt_le (by omega) (by omega)
  · have hup : (2 * n + d) / (2 * d) = quotient + 1 :=
      Nat.div_eq_of_lt_le (by omega) (by omega)
    rw [hup]
    split
    · rfl
    · rfl

/-- `x` is a double nearest to `z`. -/
def IsNearest (x : Float) (z : ℝ) : Prop := Nearest x.toModel.unpack z

theorem Nearest.pack {u : UnpackedFloat} {z : ℝ} (h : Nearest u z) :
    IsNearest (.ofModel (Float.Model.pack u)) z := by
  unfold IsNearest
  rwa [unpack_pack h.canonical]

/-- What is less than twice the largest power of two among the doubles is a double. -/
theorem Normal.canonical {u : UnpackedFloat} (h : Normal u) (hrange : |value u| < 2 ^ 1024) :
    Canonical u := by
  cases u with
  | finite s m e hm =>
    obtain ⟨hm53, he, hm52⟩ := h
    refine ⟨hm53, he, ?_, hm52⟩
    rcases hm52 with hm52 | rfl
    · have hm52' : (2 : ℝ) ^ 52 ≤ m := by exact_mod_cast hm52
      rw [value_finite, abs_signed, abs_of_pos (magnitude_pos hm e)] at hrange
      have hpow : (2 : ℝ) ^ (52 + e) < 2 ^ (1024 : ℤ) := by
        rw [zpow_add₀ (by norm_num)]
        calc (2 : ℝ) ^ (52 : ℤ) * 2 ^ e ≤ m * 2 ^ e :=
              mul_le_mul_of_nonneg_right (by exact_mod_cast hm52') (two_zpow_pos e).le
          _ < 2 ^ (1024 : ℤ) := by exact_mod_cast hrange
      have := (zpow_lt_zpow_iff_right₀ (by norm_num)).1 hpow
      omega
    · decide
  | _ => trivial

theorem Rounded.pack_of_le {u : UnpackedFloat} {z : ℝ} (h : Rounded u z) (hz : |z| ≤ 2 ^ 1023) :
    IsNearest (.ofModel (Float.Model.pack u)) z := by
  refine (h.toNearest (h.normal.canonical ?_)).pack
  have hpos : (0 : ℝ) < 2 ^ 1022 := by positivity
  rw [pow_succ] at hz
  have herror : |value u - z| ≤ 2 ^ 1022 := by
    refine h.error.trans (max_le ?_ ?_)
    · rw [div_le_iff₀ (by norm_num)]
      exact hz.trans (mul_le_mul_of_nonneg_left (by norm_num) hpos.le)
    · exact ((div_le_one (by positivity)).2 (one_le_pow₀ (by norm_num))).trans
        (one_le_pow₀ (by norm_num))
  have hsplit := abs_add_le (value u - z) z
  rw [sub_add_cancel] at hsplit
  rw [pow_succ, pow_succ]
  generalize (2 : ℝ) ^ 1022 = bound at hz hpos herror ⊢
  linarith

theorem Rounded.pack {u : UnpackedFloat} {z : ℝ} (h : Rounded u z) (hz : |z| < range) :
    IsNearest (.ofModel (Float.Model.pack u)) z :=
  h.pack_of_le (hz.le.trans (pow_le_pow_right₀ (by norm_num) (by norm_num)))

theorem unpack_pack_of_exponent {s : Sign} {m : ℕ} {e : ℤ} (hm : 0 < m) (he : 971 < e) :
    (Float.Model.pack (.finite s m e hm)).unpack = .infinity s := by
  have hpack : UnpackedFloat.pack .binary64 (.finite s m e hm) =
      UnpackedFloat.pack .binary64 (.infinity s) :=
    (pack_finite s e hm).trans (if_pos (by omega))
  exact (congrArg (UnpackedFloat.unpack .binary64) hpack).trans
    (unpack_pack (u := .infinity s) trivial)

/-- What is packed as a finite double is packed as it is. -/
theorem Rounded.pack_of_isFinite {u : UnpackedFloat} {z : ℝ} (h : Rounded u z)
    (hfinite : Float.isFinite (.ofModel (Float.Model.pack u))) :
    IsNearest (.ofModel (Float.Model.pack u)) z := by
  refine (h.toNearest ?_).pack
  cases u with
  | finite s m e hm =>
    obtain ⟨hm53, he, hm52⟩ := h.normal
    refine ⟨hm53, he, ?_, hm52⟩
    by_contra hlarge
    change (Float.Model.pack (.finite s m e hm)).unpack.isFinite = true at hfinite
    rw [unpack_pack_of_exponent hm (not_le.1 hlarge)] at hfinite
    cases hfinite
  | _ => trivial

/-- `x` is what `z` is rounded to, which is infinite where `z` is beyond all doubles. -/
def Rounds (x : Float) (z : ℝ) : Prop := ∃ u, x = .ofModel (Float.Model.pack u) ∧ Rounded u z

namespace Rounds
variable {x : Float} {z : ℝ}

theorem isNearest (h : Rounds x z) (hz : |z| < range) : IsNearest x z := by
  obtain ⟨u, rfl, hu⟩ := h
  exact hu.pack hz

theorem isNearest_of_le (h : Rounds x z) (hz : |z| ≤ 2 ^ 1023) : IsNearest x z := by
  obtain ⟨u, rfl, hu⟩ := h
  exact hu.pack_of_le hz

theorem isNearest_of_isFinite (h : Rounds x z) (hx : x.isFinite) : IsNearest x z := by
  obtain ⟨u, rfl, hu⟩ := h
  exact hu.pack_of_isFinite hx

end Rounds

theorem ofUnits_eq (s : Sign) (k : ℕ) (u : ℤ) :
    ofUnits s k u = .ofModel (Float.Model.pack (units s k u)) := by
  rcases Nat.eq_zero_or_pos k with rfl | hk
  · rfl
  · by_cases h : k = 2 ^ 53
    · rw [h, units_carry]
      rfl
    · rw [units_finite s u hk h]
      exact (dif_neg hk.ne').trans (if_neg h)

theorem rounds_ofBinary (s : Sign) {m : ℕ} (hm : 0 < m) (e : ℤ) :
    Rounds (ofBinary s m e) (signed s (m * 2 ^ e)) := by
  set u := unitExponent m e with hu
  set k := Decimal.roundDiv .even (Decimal.fraction m (e - u)).1 (Decimal.fraction m (e - u)).2
    with hk
  have hpos := two_zpow_pos u
  have herror : |(k : ℝ) - m * 2 ^ (e - u)| ≤ 1 / 2 := by
    rw [← fraction_value]
    exact roundDiv_error _ _ (fraction_pos m _)
  have hk53 : k ≤ 2 ^ 53 := by
    have hlog : (m : ℝ) < 2 ^ ((m.log2 + 1 : ℕ) : ℤ) := by
      rw [zpow_natCast]
      exact_mod_cast Nat.lt_log2_self
    have hm53 : (m : ℝ) * 2 ^ (e - u) < 2 ^ (53 : ℤ) := by
      calc (m : ℝ) * 2 ^ (e - u) < 2 ^ ((m.log2 + 1 : ℕ) : ℤ) * 2 ^ (e - u) :=
            mul_lt_mul_of_pos_right hlog (two_zpow_pos _)
        _ = 2 ^ ((m.log2 + 1 : ℕ) + (e - u)) := (zpow_add₀ (by norm_num) _ _).symm
        _ ≤ 2 ^ (53 : ℤ) := by
          refine zpow_le_zpow_right₀ (by norm_num) ?_
          rw [hu, unitExponent]
          omega
    have : (k : ℝ) < 2 ^ 53 + 1 := by
      have hk' := (abs_le.1 herror).2
      rw [zpow_ofNat] at hm53
      linarith
    have : k < 2 ^ 53 + 1 := by exact_mod_cast this
    omega
  have hbound : |(k : ℝ) * 2 ^ u - m * 2 ^ e| ≤ 2 ^ u / 2 := by
    calc |(k : ℝ) * 2 ^ u - m * 2 ^ e| = |(k : ℝ) - m * 2 ^ (e - u)| * 2 ^ u := by
          rw [← abs_of_pos hpos, ← abs_mul, abs_of_pos hpos, sub_mul, mul_assoc,
            ← zpow_add₀ (by norm_num), sub_add_cancel]
      _ ≤ 1 / 2 * 2 ^ u := mul_le_mul_of_nonneg_right herror hpos.le
      _ = 2 ^ u / 2 := by ring
  have hlow : -1074 ≤ u := by
    rw [hu, unitExponent]
    omega
  exact ⟨_, ofUnits_eq s k u,
    rounded_units s (magnitude_pos hm e).le hlow (unitExponent_spec hm le_rfl) hk53 hbound⟩

theorem isNearest_ofBinary (s : Sign) {m : ℕ} (hm : 0 < m) (e : ℤ)
    (hrange : m * (2 : ℝ) ^ e < range) : IsNearest (ofBinary s m e) (signed s (m * 2 ^ e)) := by
  refine (rounds_ofBinary s hm e).isNearest ?_
  rwa [abs_signed, abs_of_pos (magnitude_pos hm e)]

end ThemeTokens.Binary64
