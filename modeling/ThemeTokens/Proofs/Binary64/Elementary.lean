import Mathlib.Analysis.Real.Pi.Bounds
import Mathlib.Data.Int.Log
import ThemeTokens.Proofs.Binary64.Near

/-!
# Elementary functions

What is asked of the functions that a platform only approximates, and an exact choice of them: each
value rounded once. On arguments of moderate size an error of `tolerance` is far more than the few
units in the last place that mathematical libraries lose.
-/
namespace ThemeTokens
open Binary64 Double

/-- The elementary functions are close to the real ones wherever colours use them. -/
structure Binary64.Elementary.Accurate (lib : Elementary) : Prop where
  pow {x y : Double lib} : Finite x → Finite y → 0 ≤ toReal x → toReal x ≤ 2 → 0 ≤ toReal y →
    toReal y ≤ 3 → Near 8 tolerance (Number.pow x y) (toReal x ^ toReal y)
  cbrt {x : Double lib} : Finite x → 0 ≤ toReal x → toReal x ≤ 2 →
    Near 2 tolerance (Number.cbrt x) (toReal x ^ (1 / 3 : ℝ))
  hypot {x y : Double lib} : Finite x → Finite y → |toReal x| ≤ 1 → |toReal y| ≤ 1 →
    Near 2 tolerance (Number.hypot x y) (Real.sqrt (toReal x ^ 2 + toReal y ^ 2))
  atan2 {x y : Double lib} : Finite x → Finite y →
    Finite (Number.atan2 y x) ∧ |toReal (Number.atan2 y x)| ≤ 4
  sin {x : Double lib} : Finite x → |toReal x| ≤ 1000 →
    Near 1 tolerance (Number.sin x) (Real.sin (toReal x))
  cos {x : Double lib} : Finite x → |toReal x| ≤ 1000 →
    Near 1 tolerance (Number.cos x) (Real.cos (toReal x))

/-- Sines and cosines of finite angles, however large, are numbers from `-1` to `1`, and not both
of them are small. -/
structure Binary64.Elementary.Circular (lib : Elementary) : Prop where
  sin {x : Double lib} : Finite x → Finite (Number.sin x) ∧ |toReal (Number.sin x)| ≤ 1
  cos {x : Double lib} : Finite x → Finite (Number.cos x) ∧ |toReal (Number.cos x)| ≤ 1
  large {x : Double lib} : Finite x →
    1 / 2 ≤ |toReal (Number.cos x)| ∨ 1 / 2 ≤ |toReal (Number.sin x)|

namespace Binary64

/-- Every number in range has a nearest double. -/
theorem exists_isNearest {z : ℝ} (hz : |z| < range) : ∃ x, IsNearest x z := by
  rcases eq_or_ne z 0 with rfl | h0
  · exact ⟨_, (nearest_zero .positive).pack⟩
  have hpos : 0 < |z| := abs_pos.2 h0
  set u := max (Int.log 2 |z| - 52) (-1074) with hu
  set k := ⌊|z| / 2 ^ u + 1 / 2⌋₊ with hk
  have hunit := two_zpow_pos u
  have hfloor := Nat.floor_le (show (0 : ℝ) ≤ |z| / 2 ^ u + 1 / 2 by positivity)
  have hlt := Nat.lt_floor_add_one (|z| / 2 ^ u + 1 / 2)
  have herror : |(k : ℝ) * 2 ^ u - (|z|)| ≤ 2 ^ u / 2 := by
    have hz' : |z| / 2 ^ u * 2 ^ u = |z| := div_mul_cancel₀ _ hunit.ne'
    rw [abs_le]
    constructor <;> nlinarith
  have hbig : u = -1074 ∨ (2 : ℝ) ^ 52 * 2 ^ u ≤ |z| := by
    rcases le_or_gt (Int.log 2 |z| - 52) (-1074) with h | h
    · exact Or.inl (max_eq_right h)
    · right
      rw [hu, max_eq_left h.le, ← zpow_natCast, ← zpow_add₀ (by norm_num)]
      have := Int.zpow_log_le_self (by norm_num : 1 < 2) hpos
      norm_num at this ⊢
      exact this
  have hk53 : k ≤ 2 ^ 53 := by
    have hlog : |z| < 2 ^ (u + 53) := by
      have := Int.lt_zpow_succ_log_self (by norm_num : 1 < 2) |z|
      push_cast at this
      refine this.trans_le (zpow_le_zpow_right₀ (by norm_num) ?_)
      omega
    have : |z| / 2 ^ u < 2 ^ 53 := by
      rw [div_lt_iff₀ hunit]
      rw [zpow_add₀ (by norm_num), mul_comm] at hlog
      exact_mod_cast hlog
    have : (k : ℝ) < 2 ^ 53 + 1 := by linarith
    have : k < 2 ^ 53 + 1 := by exact_mod_cast this
    omega
  have hlow : -1074 ≤ u := le_max_right _ _
  rcases lt_or_gt_of_ne h0 with hneg | hgt
  · have := rounded_units .negative hpos.le hlow hbig hk53 herror
    rw [signed, abs_of_neg hneg, neg_neg] at this
    exact ⟨_, this.pack hz⟩
  · have := rounded_units .positive hpos.le hlow hbig hk53 herror
    rw [signed, abs_of_pos hgt] at this
    exact ⟨_, this.pack hz⟩

/-- A double nearest to a number in range. -/
noncomputable def rounded (z : ℝ) : Float :=
  open Classical in if h : |z| < range then (exists_isNearest h).choose else 0.0

theorem isNearest_rounded {z : ℝ} (hz : |z| < range) : IsNearest (rounded z) z := by
  rw [rounded, dif_pos hz]
  exact (exists_isNearest hz).choose_spec

/-- The real functions, rounded once. -/
noncomputable def Elementary.rounded : Elementary where
  pow x y := Binary64.rounded (Binary64.floatValue x ^ Binary64.floatValue y)
  cbrt x := Binary64.rounded (Binary64.floatValue x ^ (1 / 3 : ℝ))
  hypot x y := Binary64.rounded (Real.sqrt (Binary64.floatValue x ^ 2 + Binary64.floatValue y ^ 2))
  atan2 y x := Binary64.rounded (Complex.arg ⟨Binary64.floatValue x, Binary64.floatValue y⟩)
  sin x := Binary64.rounded (Real.sin (Binary64.floatValue x))
  cos x := Binary64.rounded (Real.cos (Binary64.floatValue x))

theorem near_rounded {lib : Elementary} {z A : ℝ} (h : |z| ≤ A) (hA : A ≤ 1000) :
    @Near lib A tolerance (rounded z) z := by
  have hz := h.trans hA
  have := @Near.round lib A 0 z (rounded z) z (isNearest_rounded (Near.inRange hz)) hz h
    (by rw [sub_self, abs_zero])
  exact this.mono le_rfl (by norm_num [slip, tolerance])

theorem Elementary.accurate_rounded : Elementary.rounded.Accurate where
  pow {x y} _ _ hx0 hx2 hy0 hy3 := by
    refine near_rounded ?_ (by norm_num)
    change |toReal x ^ toReal y| ≤ 8
    rw [abs_of_nonneg (Real.rpow_nonneg hx0 _)]
    calc toReal x ^ toReal y ≤ 2 ^ toReal y := Real.rpow_le_rpow hx0 hx2 hy0
      _ ≤ 2 ^ (3 : ℝ) := Real.rpow_le_rpow_of_exponent_le (by norm_num) hy3
      _ = 8 := by norm_num
  cbrt {x} _ hx0 hx2 := by
    refine near_rounded ?_ (by norm_num)
    change |toReal x ^ (1 / 3 : ℝ)| ≤ 2
    rw [abs_of_nonneg (Real.rpow_nonneg hx0 _)]
    calc toReal x ^ (1 / 3 : ℝ) ≤ 2 ^ (1 / 3 : ℝ) := Real.rpow_le_rpow hx0 hx2 (by norm_num)
      _ ≤ 2 ^ (1 : ℝ) := Real.rpow_le_rpow_of_exponent_le (by norm_num) (by norm_num)
      _ = 2 := Real.rpow_one 2
  hypot {x y} _ _ hx hy := by
    refine near_rounded ?_ (by norm_num)
    change |Real.sqrt (toReal x ^ 2 + toReal y ^ 2)| ≤ 2
    rw [abs_of_nonneg (Real.sqrt_nonneg _), Real.sqrt_le_left (by norm_num)]
    have := sq_le_one_iff_abs_le_one (toReal x) |>.2 hx
    have := sq_le_one_iff_abs_le_one (toReal y) |>.2 hy
    linarith
  atan2 {x y} _ _ := by
    have harg : |Complex.arg ⟨toReal x, toReal y⟩| ≤ 3.15 :=
      (Complex.abs_arg_le_pi _).trans Real.pi_lt_d2.le
    have : Near 3.15 tolerance (Number.atan2 y x) (Complex.arg ⟨toReal x, toReal y⟩) :=
      near_rounded harg (by norm_num)
    refine ⟨this.finite, this.abs_toReal.trans ?_⟩
    norm_num [tolerance]
  sin {x} _ _ := near_rounded (Real.abs_sin_le_one _) (by norm_num)
  cos {x} _ _ := near_rounded (Real.abs_cos_le_one _) (by norm_num)

theorem abs_rounded_le_one {lib : Elementary} {z : ℝ} (h : |z| ≤ 1) :
    @Finite lib (rounded z) ∧ |@toReal lib (rounded z)| ≤ 1 := by
  have hnear := isNearest_rounded (Near.inRange (h.trans (by norm_num)))
  have hone := @finite_one lib
  obtain ⟨h0, h1⟩ := abs_le.1 h
  have hlow : toReal (-1.0 : Double lib) ≤ @toReal lib (rounded z) := by
    refine hnear.ge (isFinite_neg hone) ?_
    change toReal (-1.0 : Double lib) ≤ z
    rwa [toReal_neg, toReal_one]
  have hhigh : @toReal lib (rounded z) ≤ toReal (1.0 : Double lib) := by
    refine hnear.le hone ?_
    change z ≤ toReal (1.0 : Double lib)
    rwa [toReal_one]
  rw [toReal_neg, toReal_one] at hlow
  rw [toReal_one] at hhigh
  exact ⟨hnear.isFinite, abs_le.2 ⟨hlow, hhigh⟩⟩

theorem half_le_abs_rounded {lib : Elementary} {z : ℝ} (h1 : |z| ≤ 1) (h : 7 / 10 ≤ |z|) :
    1 / 2 ≤ |@toReal lib (rounded z)| := by
  have herror := (@near_rounded lib _ _ h1 (by norm_num)).error
  have hsplit := abs_sub_abs_le_abs_sub z (@toReal lib (rounded z))
  rw [abs_sub_comm] at hsplit
  have := hsplit.trans herror
  norm_num [tolerance] at this h ⊢
  linarith

theorem Elementary.circular_rounded : Elementary.rounded.Circular where
  sin _ := abs_rounded_le_one (Real.abs_sin_le_one _)
  cos _ := abs_rounded_le_one (Real.abs_cos_le_one _)
  large {x} _ := by
    have hsum := Real.sin_sq_add_cos_sq (floatValue x)
    rw [← sq_abs (Real.sin _), ← sq_abs (Real.cos _)] at hsum
    rcases le_total (7 / 10) |Real.cos (floatValue x)| with hcos | hcos
    · exact Or.inl (half_le_abs_rounded (Real.abs_cos_le_one _) hcos)
    · refine Or.inr (half_le_abs_rounded (Real.abs_sin_le_one _) ?_)
      nlinarith [abs_nonneg (Real.sin (floatValue x)), abs_nonneg (Real.cos (floatValue x))]

end Binary64

end ThemeTokens
