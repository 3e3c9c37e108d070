import ThemeTokens.Proofs.Binary64.Arithmetic

/-!
# Ties

What lies halfway between two doubles goes to the one with the even mantissa. So a number below one
and the rounded rest make one again.
-/
namespace ThemeTokens.Binary64
open Float.Model Float.Model.UnpackedFloat

variable {k m : ℕ} {e u : ℤ} {x y z : Float}

/-! ## Halves of a unit -/

theorem unitExponent_of_mem (hu : -1074 ≤ u) (h0 : (2 : ℝ) ^ 52 * 2 ^ u ≤ m * 2 ^ e)
    (h1 : (m : ℝ) * 2 ^ e < 2 ^ 53 * 2 ^ u) : unitExponent m e = u := by
  have hm : m ≠ 0 := by
    rintro rfl
    have := two_zpow_pos u
    rw [Nat.cast_zero, zero_mul] at h0
    linarith
  have hlow : ((2 ^ m.log2 : ℕ) : ℝ) ≤ m := by exact_mod_cast Nat.log2_self_le hm
  have hhigh : (m : ℝ) < (2 ^ (m.log2 + 1) : ℕ) := by exact_mod_cast Nat.lt_log2_self
  have hlog : (2 : ℝ) ^ (m.log2 + e) < 2 ^ (53 + u) := by
    rw [zpow_add₀ two_ne_zero, zpow_add₀ two_ne_zero]
    refine lt_of_le_of_lt ?_ (h1.trans_eq (by norm_num))
    exact mul_le_mul_of_nonneg_right (by exact_mod_cast hlow) (two_zpow_pos e).le
  have hlog' : (2 : ℝ) ^ (52 + u) < 2 ^ (((m.log2 + 1 : ℕ) : ℤ) + e) := by
    rw [zpow_add₀ two_ne_zero, zpow_add₀ two_ne_zero]
    refine lt_of_le_of_lt (Eq.trans_le (by norm_num) h0) ?_
    exact mul_lt_mul_of_pos_right (by exact_mod_cast hhigh) (two_zpow_pos e)
  have := (zpow_lt_zpow_iff_right₀ one_lt_two).1 hlog
  have := (zpow_lt_zpow_iff_right₀ one_lt_two).1 hlog'
  rw [unitExponent]
  omega

theorem roundDiv_even_half {n d : ℕ} (hd : 0 < d) (h : (n : ℝ) / d = k + 1 / 2) :
    Decimal.roundDiv .even n d = k + k % 2 := by
  have hd' : (0 : ℝ) < d := by exact_mod_cast hd
  have htwice : 2 * n = (2 * k + 1) * d := by
    rw [div_eq_iff hd'.ne'] at h
    have : 2 * (n : ℝ) = (2 * k + 1) * d := by
      rw [h]
      ring
    exact_mod_cast this
  have hdiv : n / d = k := Nat.div_eq_of_lt_le (by nlinarith) (by nlinarith)
  have hmod : 2 * (n % d) = d := by
    have := Nat.div_add_mod n d
    rw [hdiv] at this
    nlinarith
  unfold Decimal.roundDiv
  rw [hdiv, hmod]
  simp

/-- A tie is decided by an even result. -/
theorem even_roundDiv {n d : ℕ} (hd : 0 < d)
    (h : |(n : ℝ) / d - Decimal.roundDiv .even n d| = 1 / 2) :
    Even (Decimal.roundDiv .even n d) := by
  have hpos : (0 : ℝ) ≤ n / d := by positivity
  rw [Nat.even_iff]
  generalize hr : Decimal.roundDiv .even n d = r at h ⊢
  rcases abs_eq (by norm_num) |>.1 h with hup | hdown
  · have hhalf := roundDiv_even_half (n := n) (k := r) hd (by linarith)
    omega
  · have hr1 : 1 ≤ r := by
      by_contra hzero
      obtain rfl : r = 0 := by omega
      rw [Nat.cast_zero] at hdown
      linarith
    have hhalf := roundDiv_even_half (n := n) (k := r - 1) hd (by
      rw [Nat.cast_sub hr1, Nat.cast_one]
      linarith)
    omega

theorem ofBinary_half (s : Sign) (hu : -1074 ≤ u) (hk : 2 ^ 52 ≤ k) (hk' : k < 2 ^ 53)
    (h : (m : ℝ) * 2 ^ e = (k + 1 / 2) * 2 ^ u) : ofBinary s m e = ofUnits s (k + k % 2) u := by
  have hpos := two_zpow_pos u
  have hlow : (2 : ℝ) ^ 52 ≤ k := by exact_mod_cast hk
  have hhigh : (k : ℝ) + 1 ≤ 2 ^ 53 := by exact_mod_cast hk'
  have hunit : unitExponent m e = u := by
    refine unitExponent_of_mem hu ?_ ?_ <;> rw [h]
    · exact mul_le_mul_of_nonneg_right (by linarith) hpos.le
    · exact mul_lt_mul_of_pos_right (by linarith) hpos
  have hfraction := fraction_value m (e - u)
  rw [zpow_sub₀ two_ne_zero, ← mul_div_assoc, h, mul_div_cancel_right₀ _ hpos.ne'] at hfraction
  simp only [ofBinary, hunit, roundDiv_even_half (fraction_pos m _) hfraction]

/-! ## Next to one -/

/-- No double lies between one and the double below it. -/
theorem le_of_lt_one (hx : x.isFinite) (h : floatValue x < 1) : floatValue x ≤ 1 - 1 / 2 ^ 53 := by
  obtain ⟨n, e, hn, -, hvalue⟩ := value_representable (canonical_unpack x.toModel) hx
  change floatValue x = _ at hvalue
  have hn' : (n : ℝ) ≤ 2 ^ 53 := by exact_mod_cast (le_abs_self n).trans hn
  rw [hvalue] at h ⊢
  rcases le_or_gt (-53) e with he | he
  · obtain ⟨j, rfl⟩ : ∃ j : ℕ, e = -53 + j := ⟨(e + 53).toNat, by omega⟩
    have hcount : (n : ℝ) * 2 ^ (-53 + j : ℤ) = (n * 2 ^ j : ℤ) / 2 ^ 53 := by
      rw [zpow_add₀ two_ne_zero, zpow_natCast, zpow_neg, zpow_ofNat]
      push_cast
      ring
    rw [hcount, div_lt_one (by norm_num)] at h
    have hlt : n * 2 ^ j + 1 ≤ (2 ^ 53 : ℤ) := by exact_mod_cast h
    have hlt' : ((n * 2 ^ j : ℤ) : ℝ) + 1 ≤ 2 ^ 53 := by exact_mod_cast hlt
    rw [hcount, div_le_iff₀ (by norm_num)]
    linarith
  · have hhalf : (2 : ℝ) ^ e ≤ 1 / 2 ^ 54 := by
      rw [one_div, ← zpow_natCast, ← zpow_neg]
      exact zpow_le_zpow_right₀ one_le_two (by push_cast; omega)
    have := mul_le_mul hn' hhalf (two_zpow_pos e).le (by norm_num)
    linarith

theorem abs_sub_le_of_isNearest {r : ℝ} (h : IsNearest x r) (h0 : 0 ≤ r) (h1 : r ≤ 1) :
    |floatValue x - r| ≤ 1 / 2 ^ 54 := by
  obtain ⟨n, hn⟩ : ∃ n : ℤ, |r * 2 ^ 53 - n| ≤ 1 / 2 := ⟨_, abs_sub_round _⟩
  have hcount : |n| ≤ 2 ^ 53 := by
    obtain ⟨hlow, hhigh⟩ := abs_le.1 hn
    have hlt : (n : ℝ) < (2 ^ 53 + 1 : ℤ) := by
      push_cast
      linarith
    have hgt : ((-1 : ℤ) : ℝ) < n := by
      push_cast
      linarith
    have hlt := Int.cast_lt.1 hlt
    have hgt := Int.cast_lt.1 hgt
    exact abs_le.2 ⟨by omega, by omega⟩
  calc |floatValue x - r| ≤ |n * 2 ^ (-53 : ℤ) - r| :=
        Nearest.nearest h n (-53) hcount (by norm_num)
    _ = |n / 2 ^ 53 - r * 2 ^ 53 / 2 ^ 53| := by
        rw [zpow_neg, zpow_ofNat, ← div_eq_mul_inv, mul_div_cancel_right₀ _ (by norm_num)]
    _ = |r * 2 ^ 53 - n| / 2 ^ 53 := by
        rw [← sub_div, abs_div, abs_sub_comm, abs_of_pos (show (0 : ℝ) < 2 ^ 53 by norm_num)]
    _ ≤ 1 / 2 ^ 54 := by
        rw [div_le_iff₀ (by norm_num)]
        exact hn.trans (by norm_num)

theorem IsNearest.one_le {r : ℝ} (h : IsNearest x r) (hone : y.isFinite) (hy : floatValue y = 1)
    (hr : 1 - 1 / 2 ^ 54 < r) : 1 ≤ floatValue x := by
  rw [← hy]
  rcases le_or_gt 1 r with hle | hgt
  · exact h.ge hone (hy.trans_le hle)
  · by_contra hlt
    rw [hy, not_le] at hlt
    have hlow := le_of_lt_one h.isFinite hlt
    have hnearer := h.nearer hone
    rw [hy, abs_of_nonpos (by linarith), abs_of_nonneg (by linarith)] at hnearer
    linarith

theorem ofBinary_next_to_one (h : (m : ℝ) * 2 ^ e = 1 - 1 / 2 ^ 54) :
    ofBinary .positive m e = 1.0 := by
  rw [ofBinary_half (k := 2 ^ 53 - 1) (u := -53) .positive (by norm_num) (by norm_num)
    (by norm_num)]
  · rfl
  · rw [h, zpow_neg, zpow_ofNat]
    norm_num

theorem unpack_of_value_pos (hx : x.isFinite) (h : 0 < floatValue x) :
    ∃ m e hm, x.toModel.unpack = .finite .positive m e hm := by
  change x.toModel.unpack.isFinite = true at hx
  rw [floatValue] at h
  rcases hu : x.toModel.unpack with _ | _ | _ | ⟨_ | _, m, e, hm⟩
  · rw [hu] at hx
    cases hx
  · rw [hu] at hx
    cases hx
  · rw [hu, value_zero] at h
    exact absurd h (lt_irrefl 0)
  · rw [hu, value_negative] at h
    linarith [magnitude_pos hm e]
  · exact ⟨m, e, hm, rfl⟩

theorem mulAdd_of_pos (hx : x.isFinite) (hy : y.isFinite) (hz : z.isFinite)
    (hx0 : 0 < floatValue x) (hy0 : 0 < floatValue y) (hz0 : 0 < floatValue z) :
    ∃ (m : ℕ) (e : ℤ), (m : ℝ) * 2 ^ e = floatValue x * floatValue y + floatValue z ∧
      mulAdd x y z = ofBinary .positive m e := by
  obtain ⟨m, e, hm, hu⟩ := unpack_of_value_pos hx hx0
  obtain ⟨n, f, hn, hv⟩ := unpack_of_value_pos hy hy0
  obtain ⟨k, g, hk, hw⟩ := unpack_of_value_pos hz hz0
  refine ⟨(decreaseExponent (m * n) (e + f) (min (e + f) g)).1 +
    (decreaseExponent k g (min (e + f) g)).1, min (e + f) g, ?_, ?_⟩
  · rw [floatValue, floatValue, floatValue, hu, hv, hw, value_positive, value_positive,
      value_positive]
    push_cast
    rw [add_mul, decreaseExponent_value _ (min_le_left (e + f) g),
      decreaseExponent_value k (min_le_right (e + f) g), magnitude_mul]
  · have hshift (n : ℕ) (e f : ℤ) (hn : 0 < n) : 0 < (decreaseExponent n e f).1 := by
      rw [decreaseExponent, Nat.shiftLeft_eq]
      positivity
    have hsum := Nat.add_pos_left (hshift (m * n) (e + f) (min (e + f) g) (Nat.mul_pos hm hn))
      (decreaseExponent k g (min (e + f) g)).1
    have hneg (i j : ℕ) : ¬ (i : ℤ) + j < 0 := by omega
    have hzero {i j : ℕ} (h : 0 < i + j) : ¬ (i : ℤ) + j = 0 := by omega
    rw [mulAdd, hu, hv, hw]
    refine (if_neg (hzero hsum)).trans ?_
    exact congrArg (fun s => ofBinary s _ _) (if_neg (hneg _ _))

end ThemeTokens.Binary64
