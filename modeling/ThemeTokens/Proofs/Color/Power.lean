import Mathlib.Analysis.Convex.SpecificFunctions.Basic

/-!
# Powers

How much a real power changes with its base and its exponent.
-/
namespace ThemeTokens

/-- By Bernoulli's inequality a power above one grows at most as fast as its exponent says. -/
theorem rpow_sub_rpow_le_mul {x x' y : ℝ} (hx : 0 < x) (hxx : x ≤ x') (hy : 1 ≤ y) :
    x' ^ y - x ^ y ≤ x' ^ (y - 1) * (y * (x' - x)) := by
  have hx0 : 0 < x' := hx.trans_le hxx
  have hbern : 1 + y * (x / x' - 1) ≤ (x / x') ^ y := by
    have := one_add_mul_self_le_rpow_one_add (s := x / x' - 1) (by linarith [div_pos hx hx0]) hy
    rwa [add_sub_cancel] at this
  have hsplit : x ^ y = x' ^ y * (x / x') ^ y := by
    rw [← Real.mul_rpow hx0.le (div_pos hx hx0).le, mul_div_cancel₀ _ hx0.ne']
  have hpow : x' ^ y = x' ^ (y - 1) * x' := by rw [← Real.rpow_add_one hx0.ne', sub_add_cancel]
  calc x' ^ y - x ^ y = x' ^ y * (1 - (x / x') ^ y) := by rw [hsplit]; ring
    _ ≤ x' ^ y * (y * (1 - x / x')) := by gcongr; linarith
    _ = x' ^ (y - 1) * (y * (x' - x)) := by
      rw [hpow]
      field_simp

theorem rpow_sub_rpow_le {x x' y : ℝ} (hx : 0 < x) (hxx : x ≤ x') (hx' : x' ≤ 2) (hy : 1 ≤ y)
    (hy3 : y ≤ 3) : x' ^ y - x ^ y ≤ 12 * (x' - x) := by
  have hpow : x' ^ (y - 1) ≤ 4 := by
    have hx0 : 0 ≤ x' := hx.le.trans hxx
    calc x' ^ (y - 1) ≤ 2 ^ (y - 1) := by gcongr
      _ ≤ 2 ^ (2 : ℝ) := by gcongr <;> linarith
      _ = 4 := by norm_num
  have hdiff : 0 ≤ x' - x := sub_nonneg.2 hxx
  calc x' ^ y - x ^ y ≤ x' ^ (y - 1) * (y * (x' - x)) := rpow_sub_rpow_le_mul hx hxx hy
    _ ≤ 4 * (3 * (x' - x)) := by gcongr
    _ = 12 * (x' - x) := by ring

theorem abs_rpow_sub_rpow_le {x x' y : ℝ} (hx : 0 < x) (hx' : 0 < x') (hx2 : x ≤ 2)
    (hx2' : x' ≤ 2) (hy : 1 ≤ y) (hy3 : y ≤ 3) : |x' ^ y - x ^ y| ≤ 12 * |x' - x| := by
  rcases le_total x x' with h | h
  · rw [abs_of_nonneg (sub_nonneg.2 (Real.rpow_le_rpow hx.le h (by linarith))),
      abs_of_nonneg (sub_nonneg.2 h)]
    exact rpow_sub_rpow_le hx h hx2' hy hy3
  · rw [abs_sub_comm, abs_sub_comm x', abs_of_nonneg (sub_nonneg.2
      (Real.rpow_le_rpow hx'.le h (by linarith))), abs_of_nonneg (sub_nonneg.2 h)]
    exact rpow_sub_rpow_le hx' h hx2 hy hy3

/-- On fractions the exponent itself bounds the growth. -/
theorem abs_rpow_sub_rpow_of_le_one {x x' y : ℝ} (hx : 0 < x) (hx' : 0 < x') (hx1 : x ≤ 1)
    (hx1' : x' ≤ 1) (hy : 1 ≤ y) : |x' ^ y - x ^ y| ≤ y * |x' - x| := by
  have key {p q : ℝ} (hp : 0 < p) (hpq : p ≤ q) (hq : q ≤ 1) : q ^ y - p ^ y ≤ y * (q - p) := by
    have hpow : q ^ (y - 1) ≤ 1 :=
      Real.rpow_le_one (hp.le.trans hpq) hq (by linarith)
    have hdiff : 0 ≤ y * (q - p) := mul_nonneg (by linarith) (sub_nonneg.2 hpq)
    calc q ^ y - p ^ y ≤ q ^ (y - 1) * (y * (q - p)) := rpow_sub_rpow_le_mul hp hpq hy
      _ ≤ 1 * (y * (q - p)) := by gcongr
      _ = y * (q - p) := one_mul _
  rcases le_total x x' with h | h
  · rw [abs_of_nonneg (sub_nonneg.2 (Real.rpow_le_rpow hx.le h (by linarith))),
      abs_of_nonneg (sub_nonneg.2 h)]
    exact key hx h hx1'
  · rw [abs_sub_comm, abs_sub_comm x', abs_of_nonneg (sub_nonneg.2
      (Real.rpow_le_rpow hx'.le h (by linarith))), abs_of_nonneg (sub_nonneg.2 h)]
    exact key hx' h hx1

/-- A root of a fraction changes at most as much as the fraction does in proportion. -/
theorem abs_root_sub_root_le {x x' y c : ℝ} (hc : 0 < c) (hx : c ≤ x) (hx' : c ≤ x')
    (hx1 : x ≤ 1) (hx1' : x' ≤ 1) (hy : 0 ≤ y) (hy1 : y ≤ 1) :
    |x' ^ y - x ^ y| ≤ |x' - x| / c := by
  have key {p q : ℝ} (hp : c ≤ p) (hpq : p ≤ q) (hp1 : p ≤ 1) :
      q ^ y - p ^ y ≤ (q - p) / c := by
    have hp0 : 0 < p := hc.trans_le hp
    have hratio : (q / p) ^ y ≤ q / p :=
      Real.rpow_le_self_of_one_le ((one_le_div hp0).2 hpq) hy1
    have hsplit : q ^ y = p ^ y * (q / p) ^ y := by
      rw [← Real.mul_rpow hp0.le (div_nonneg (hp0.le.trans hpq) hp0.le), mul_div_cancel₀ _ hp0.ne']
    have hpow : p ^ y ≤ 1 := Real.rpow_le_one hp0.le hp1 hy
    have hdiff : 0 ≤ q / p - 1 := sub_nonneg.2 ((one_le_div hp0).2 hpq)
    calc q ^ y - p ^ y = p ^ y * ((q / p) ^ y - 1) := by rw [hsplit]; ring
      _ ≤ p ^ y * (q / p - 1) := by
        have : 0 ≤ p ^ y := Real.rpow_nonneg hp0.le y
        gcongr
      _ ≤ 1 * (q / p - 1) := by gcongr
      _ = (q - p) / p := by field_simp
      _ ≤ (q - p) / c := div_le_div_of_nonneg_left (sub_nonneg.2 hpq) hc hp
  rcases le_total x x' with h | h
  · rw [abs_of_nonneg (sub_nonneg.2 (Real.rpow_le_rpow (hc.le.trans hx) h hy)),
      abs_of_nonneg (sub_nonneg.2 h)]
    exact key hx h hx1
  · rw [abs_sub_comm, abs_sub_comm x', abs_of_nonneg (sub_nonneg.2
      (Real.rpow_le_rpow (hc.le.trans hx') h hy)), abs_of_nonneg (sub_nonneg.2 h)]
    exact key hx' h hx1'

/-- A power of a fraction changes little with its exponent. -/
theorem abs_rpow_sub_rpow_exponent {x y y' : ℝ} (hx : 0 < x) (hx1 : x ≤ 1) (hy : 0 ≤ y)
    (hy' : 0 ≤ y') : |x ^ y' - x ^ y| ≤ |y' - y| / x := by
  have key {p q : ℝ} (hp : 0 ≤ p) (hpq : p ≤ q) : x ^ p - x ^ q ≤ (q - p) / x := by
    have hlog : Real.log x⁻¹ ≤ x⁻¹ - 1 := Real.log_le_sub_one_of_pos (inv_pos.2 hx)
    rw [Real.log_inv] at hlog
    have hexp : 1 + Real.log x * (q - p) ≤ x ^ (q - p) := by
      rw [Real.rpow_def_of_pos hx]
      linarith [Real.add_one_le_exp (Real.log x * (q - p))]
    have hp1 : x ^ p ≤ 1 := Real.rpow_le_one hx.le hx1 hp
    have hle1 : x ^ (q - p) ≤ 1 := Real.rpow_le_one hx.le hx1 (by linarith)
    calc x ^ p - x ^ q = x ^ p * (1 - x ^ (q - p)) := by
          rw [mul_sub, mul_one, ← Real.rpow_add hx, add_sub_cancel]
      _ ≤ 1 * (1 - x ^ (q - p)) := by nlinarith
      _ ≤ (q - p) * (x⁻¹ - 1) := by nlinarith
      _ ≤ (q - p) / x := by rw [div_eq_mul_inv]; nlinarith
  rcases le_total y y' with h | h
  · rw [abs_sub_comm, abs_of_nonneg (sub_nonneg.2 (Real.rpow_le_rpow_of_exponent_ge hx hx1 h)),
      abs_of_nonneg (sub_nonneg.2 h)]
    exact key hy h
  · rw [abs_of_nonneg (sub_nonneg.2 (Real.rpow_le_rpow_of_exponent_ge hx hx1 h)), abs_sub_comm,
      abs_of_nonneg (sub_nonneg.2 h)]
    exact key hy' h

/-! ## Fractional exponents -/

theorem le_rpow_of_pow_le {a b : ℝ} {m n : ℕ} (ha : 0 ≤ a) (hb : 0 ≤ b) (hm : m ≠ 0)
    (h : a ^ m ≤ b ^ n) : a ≤ b ^ ((n : ℝ) / m) := by
  have hroot := Real.rpow_le_rpow (pow_nonneg ha m) h (show (0 : ℝ) ≤ (m : ℝ)⁻¹ by positivity)
  rwa [Real.pow_rpow_inv_natCast ha hm, ← Real.rpow_natCast, ← Real.rpow_mul hb,
    ← div_eq_mul_inv] at hroot

theorem rpow_le_of_le_pow {a b : ℝ} {m n : ℕ} (ha : 0 ≤ a) (hb : 0 ≤ b) (hm : m ≠ 0)
    (h : b ^ n ≤ a ^ m) : b ^ ((n : ℝ) / m) ≤ a := by
  have hroot := Real.rpow_le_rpow (pow_nonneg hb n) h (show (0 : ℝ) ≤ (m : ℝ)⁻¹ by positivity)
  rwa [Real.pow_rpow_inv_natCast ha hm, ← Real.rpow_natCast, ← Real.rpow_mul hb,
    ← div_eq_mul_inv] at hroot

end ThemeTokens
