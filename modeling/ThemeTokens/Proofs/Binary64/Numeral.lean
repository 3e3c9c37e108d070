import ThemeTokens.Proofs.Binary64.Arithmetic
import ThemeTokens.Proofs.Exact

/-!
# Doubles of numerals

A numeral of any length is read as a double nearest to the number that it writes, unless that is
beyond all doubles. Numerals that are decided by their magnitude alone are no exception.
-/
namespace ThemeTokens.Binary64
open Float.Model Float.Model.UnpackedFloat

/-! ## Tiny numbers and signs -/

theorem IsNearest.neg {x : Float} {z : ℝ} (h : IsNearest x z) : IsNearest (-x) (-z) := by
  have hvalue : value (-x).toModel.unpack = -value x.toModel.unpack := floatValue_neg x
  refine ⟨canonical_unpack _, isFinite_neg h.isFinite, fun n e hn he => ?_, ?_⟩
  · have hnearest := Nearest.nearest h (-n) e (by rwa [abs_neg]) he
    rw [Int.cast_neg, neg_mul, ← neg_add', abs_neg] at hnearest
    rwa [hvalue, ← neg_sub', abs_neg, sub_neg_eq_add]
  · rw [hvalue, ← neg_sub', abs_neg, abs_neg]
    exact h.error

/-- Half of the least double is as near to zero as to any other. -/
theorem isNearest_zero {z : ℝ} (hz : |z| ≤ 1 / 2 ^ 1075) : IsNearest 0.0 z := by
  refine ⟨trivial, rfl, fun n e _ he => ?_, ?_⟩
  · change |0 - z| ≤ |n * 2 ^ e - z|
    rw [zero_sub, abs_neg]
    rcases eq_or_ne n 0 with rfl | hn
    · rw [Int.cast_zero, zero_mul, zero_sub, abs_neg]
    · have hunit : 1 / 2 ^ 1074 ≤ |(n : ℝ) * 2 ^ e| := by
        have hn1 : (1 : ℝ) ≤ |(n : ℝ)| := by exact_mod_cast Int.one_le_abs hn
        have hpower : (2 : ℝ) ^ (-1074 : ℤ) ≤ 2 ^ e := zpow_le_zpow_right₀ (by norm_num) he
        rw [abs_mul, abs_of_pos (two_zpow_pos e)]
        have hpower : 1 / 2 ^ 1074 ≤ (2 : ℝ) ^ e := by
          rwa [zpow_neg, zpow_ofNat, ← one_div] at hpower
        exact hpower.trans (le_mul_of_one_le_left (two_zpow_pos e).le hn1)
      have htwice : (1 : ℝ) / 2 ^ 1074 = 2 * (1 / 2 ^ 1075) := by
        rw [pow_succ _ 1074, ← div_div, mul_div_cancel₀ _ two_ne_zero]
      have hsplit := abs_sub_abs_le_abs_sub ((n : ℝ) * 2 ^ e) z
      rw [htwice] at hunit
      generalize (1 : ℝ) / 2 ^ 1075 = ε at hz hunit
      linarith
  · change |0 - z| ≤ _
    rw [zero_sub, abs_neg]
    exact hz.trans (le_max_right _ _)

theorem isFinite_of_neg {x : Float} (h : (-x).isFinite) : x.isFinite := by
  change (-x).toModel.unpack.isFinite = true at h
  rw [unpack_neg] at h
  change x.toModel.unpack.isFinite = true
  cases hx : x.toModel.unpack <;> rw [hx] at h <;> first | rfl | cases h

/-! ## Products and quotients with powers of ten -/

theorem rounds_div {x y : Float} (hx : x.isFinite) (hy : y.isFinite) (hy0 : floatValue y ≠ 0) :
    Rounds (x / y) (floatValue x / floatValue y) :=
  ⟨_, rfl, rounded_div hx hy hy0⟩

theorem rounded_ofScientific {m : ℕ} {e : ℤ} (hm : 0 < m) (hhigh : e ≤ 2 ^ 11)
    (hlow : -(2 ^ 11 + m.log2) ≤ e) :
    Rounded (UnpackedFloat.ofScientific .binary64 m e) (m * 10 ^ e) := by
  have hbits : Format.binary64.exponentBits = 11 := rfl
  unfold UnpackedFloat.ofScientific
  rw [dif_neg hm.ne', hbits, if_neg (not_lt.2 hhigh), if_neg (not_lt.2 hlow)]
  rcases le_or_gt 0 e with he | he
  · obtain ⟨k, rfl⟩ := Int.eq_ofNat_of_zero_le he
    rw [if_pos he]
    have hlarge : 2 ^ 53 ≤ m <<< 53 * 10 ^ k := by
      rw [Nat.shiftLeft_eq]
      exact (Nat.le_mul_of_pos_left _ hm).trans (Nat.le_mul_of_pos_right _ (by positivity))
    have hunit : -53 ≤ unitExponent (m <<< 53 * 10 ^ k) (-53) := by
      have hlog := (Nat.le_log2 (by omega)).2 hlarge
      rw [unitExponent]
      omega
    have hvalue : ((m <<< 53 * 10 ^ k : ℕ) : ℝ) * 2 ^ (-53 : ℤ) = m * 10 ^ (k : ℤ) := by
      rw [Nat.shiftLeft_eq]
      push_cast
      rw [zpow_neg, zpow_natCast, zpow_ofNat]
      ring
    rw [← hvalue]
    exact rounded_roundWithAccuracy .positive (represents_exact _) hunit
  · rw [if_neg (not_le.2 he)]
    have hexponent : ((-e).toNat : ℤ) = -e := by omega
    have hten : 0 < 10 ^ (-e).toNat := by positivity
    have hquotient := rounded_div_finite .positive .positive hm hten (e := 0) (f := 0)
    have hvalue : (m : ℝ) * 2 ^ (0 : ℤ) / ((10 ^ (-e).toNat : ℕ) * 2 ^ (0 : ℤ)) = m * 10 ^ e := by
      push_cast
      rw [zpow_zero, mul_one, mul_one, ← zpow_natCast, hexponent, zpow_neg, div_inv_eq_mul]
    rwa [signed, signed, hvalue] at hquotient

/-- A few digits are exact as a double, and so is a small power of ten. -/
theorem rounds_ofScientific {m k : ℕ} {down : Bool} {e : ℤ} (hm : 0 < m)
    (he : e = if down then -(k : ℤ) else k) (hhigh : e ≤ 2 ^ 11) (hlow : -(2 ^ 11 + m.log2) ≤ e) :
    Rounds (OfScientific.ofScientific m down k : Float) (m * 10 ^ e) := by
  change Rounds (Float.ofScientific m down k) _
  unfold Float.ofScientific
  split
  · next h =>
    have hpower := isNat_powersOfTen ⟨k, Nat.lt_succ_of_le h.2⟩
    have hsize : k < Float.exactlyRepresentablePowersOfTen.size := Nat.lt_succ_of_le h.2
    have hten : floatValue (Float.exactlyRepresentablePowersOfTen[k]) = (10 ^ k : ℕ) :=
      value_of_isNat hpower
    have hfinite : (Float.exactlyRepresentablePowersOfTen[k]).isFinite := isFinite_of_isNat hpower
    have hdigits := (isNearest_toFloat h.1).isFinite
    push_cast at hten
    cases down with
    | true =>
      have hten0 : floatValue (Float.exactlyRepresentablePowersOfTen[k]) ≠ 0 := by
        rw [hten]
        positivity
      have hquotient := rounds_div hdigits hfinite hten0
      rw [floatValue_toFloat h.1, hten] at hquotient
      rwa [he, if_pos rfl, if_pos rfl, zpow_neg, zpow_natCast, ← div_eq_mul_inv]
    | false =>
      have hproduct := rounds_mul hdigits hfinite
      rw [floatValue_toFloat h.1, hten] at hproduct
      rwa [he, if_neg Bool.false_ne_true, if_neg Bool.false_ne_true, zpow_natCast]
  · refine ⟨_, ?_, rounded_ofScientific hm hhigh hlow⟩
    subst he
    cases down <;> rfl

/-! ## Numerals -/

theorem lt_ten_pow_length (m : ℕ) : m < 10 ^ (Text.decimal m).length :=
  (Nat.length_toDigits_le_iff (by decide) Nat.length_toDigits_pos).1 le_rfl

theorem length_decimal_le (m : ℕ) : (Text.decimal m).length ≤ m.log2 + 1 :=
  (Nat.length_toDigits_le_iff (by decide) (Nat.succ_pos _)).2
    (Nat.lt_log2_self.trans_le (Nat.pow_le_pow_left (by decide) _))

/-- A number whose first digit stands this far behind the point is next to zero. -/
theorem abs_value_le {m : ℕ} {e : ℤ} (h : m = 0 ∨ e + (Text.decimal m).length < -400) :
    |(m : ℝ) * 10 ^ e| ≤ 1 / 2 ^ 1075 := by
  rcases h with rfl | h
  · rw [Nat.cast_zero, zero_mul, abs_zero]
    positivity
  · have hdigits : (m : ℝ) ≤ 10 ^ ((Text.decimal m).length : ℤ) := by
      rw [zpow_natCast]
      exact_mod_cast (lt_ten_pow_length m).le
    rw [abs_of_nonneg (by positivity)]
    calc (m : ℝ) * 10 ^ e ≤ 10 ^ ((Text.decimal m).length : ℤ) * 10 ^ e :=
          mul_le_mul_of_nonneg_right hdigits (by positivity)
      _ = 10 ^ (e + (Text.decimal m).length) := by rw [← zpow_add₀ (by norm_num), add_comm]
      _ ≤ 10 ^ (-400 : ℤ) := zpow_le_zpow_right₀ (by norm_num) h.le
      _ = 1 / 10 ^ 400 := by rw [zpow_neg, zpow_ofNat, one_div]
      _ ≤ 1 / (2 ^ 3) ^ 400 := one_div_le_one_div_of_le (by positivity)
        (pow_le_pow_left₀ (by norm_num) (by norm_num) 400)
      _ ≤ 1 / 2 ^ 1075 := by
        rw [← pow_mul]
        exact one_div_le_one_div_of_le (by positivity) (pow_le_pow_right₀ one_le_two (by norm_num))

theorem isNearest_magnitude {m : ℕ} {e : ℤ} (h : (ofNumeral ⟨false, m, e⟩).isFinite) :
    IsNearest (ofNumeral ⟨false, m, e⟩) (m * 10 ^ e) := by
  have hlength := length_decimal_le m
  simp only [ofNumeral, Bool.false_eq_true, if_false] at h ⊢
  split at h
  · next hsmall =>
    rw [if_pos hsmall]
    exact isNearest_zero (abs_value_le hsmall)
  split at h
  · exact absurd h (by decide)
  · next hsmall hlarge =>
    obtain ⟨hm, htop⟩ := not_or.1 hsmall
    rw [if_neg hsmall, if_neg hlarge]
    refine (rounds_ofScientific (Nat.pos_of_ne_zero hm) ?_ ?_ ?_).isNearest_of_isFinite h
    · simp only [decide_eq_true_eq]
      split <;> omega
    · omega
    · omega

/-- What is read from a numeral, whatever its length. -/
theorem isNearest_ofNumeral_of_isFinite {n : Numeral} (h : (ofNumeral n).isFinite) :
    IsNearest (ofNumeral n) (Exact.value n) := by
  obtain ⟨negative, m, e⟩ := n
  cases negative with
  | false =>
    have hvalue : Exact.value ⟨false, m, e⟩ = m * 10 ^ e := by simp [Exact.value]
    rw [hvalue]
    exact isNearest_magnitude h
  | true =>
    have hvalue : Exact.value ⟨true, m, e⟩ = -(m * 10 ^ e) := by simp [Exact.value]
    have hneg : ofNumeral ⟨true, m, e⟩ = -ofNumeral ⟨false, m, e⟩ := rfl
    rw [hneg] at h ⊢
    rw [hvalue]
    exact (isNearest_magnitude (isFinite_of_neg h)).neg

end ThemeTokens.Binary64
