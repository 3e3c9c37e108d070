import ThemeTokens.Proofs.Binary64.Near

/-!
# Results that stay in an interval

A remainder is no larger than its divisor, and the rounded middle of two doubles lies between any
bounds of both.
-/
namespace ThemeTokens.Binary64
open Float.Model Float.Model.UnpackedFloat

/-! ## Remainders -/

theorem ofBinary_zero (s : Sign) (e : ℤ) : IsNearest (ofBinary s 0 e) 0 := by
  have hround (d : ℕ) (hd : 0 < d) : Decimal.roundDiv .even 0 d = 0 := by
    simp [Decimal.roundDiv, hd]
  have hzero : ofBinary s 0 e = .ofModel (Float.Model.pack (.zero s)) := by
    simp only [ofBinary, Decimal.fraction, Nat.zero_mul]
    rw [hround _ (by rw [Nat.pow_eq]; positivity)]
    rfl
  rw [hzero]
  exact (nearest_zero s).pack

/-- A count that may be zero, rounded with a sign. -/
theorem exists_isNearest_ofBinary (s : Sign) {k : ℕ} {e : ℤ} {bound : ℝ}
    (h : (k : ℝ) * 2 ^ e ≤ bound) (hrange : bound < range) :
    ∃ z : ℝ, |z| ≤ bound ∧ IsNearest (ofBinary s k e) z := by
  rcases Nat.eq_zero_or_pos k with rfl | hk
  · rw [Nat.cast_zero, zero_mul] at h
    exact ⟨0, by rwa [abs_zero], ofBinary_zero s e⟩
  · refine ⟨_, ?_, isNearest_ofBinary s hk e (h.trans_lt hrange)⟩
    rwa [abs_signed, abs_of_nonneg (by positivity)]

/-- The more smaller units that a count is worth. -/
theorem cast_mul_units (n : ℕ) {f common : ℤ} (h : common ≤ f) :
    ((n * Nat.pow 2 (f - common).toNat : ℕ) : ℝ) * 2 ^ common = n * 2 ^ f := by
  rw [Nat.pow_eq]
  push_cast
  rw [mul_assoc, ← zpow_natCast, ← zpow_add₀ (by norm_num), Int.toNat_of_nonneg (by omega),
    sub_add_cancel]

theorem abs_rem_le {x y : Float} {n : ℕ} {f : ℤ} {hn : 0 < n} (hx : x.isFinite)
    (hy : y.toModel.unpack = .finite .positive n f hn) (hrange : floatValue y < range) :
    (rem x y).isFinite ∧ |floatValue (rem x y)| ≤ floatValue y := by
  have hyvalue : floatValue y = n * 2 ^ f := by rw [floatValue, hy, value_positive]
  have hyfinite : y.isFinite := by
    change y.toModel.unpack.isFinite = true
    rw [hy]
    rfl
  have hy0 : 0 ≤ floatValue y := by
    rw [hyvalue]
    positivity
  change x.toModel.unpack.isFinite = true at hx
  unfold rem
  rw [hy]
  rcases hux : x.toModel.unpack with s | _ | s | ⟨s, m, e, hm⟩
  · rw [hux] at hx
    cases hx
  · rw [hux] at hx
    cases hx
  · refine ⟨?_, ?_⟩
    · change x.toModel.unpack.isFinite = true
      rw [hux]
      rfl
    · change |value x.toModel.unpack| ≤ _
      rw [hux]
      change |(0 : ℝ)| ≤ _
      rwa [abs_zero]
  · dsimp only
    have hdivisor := cast_mul_units n (min_le_right e f)
    have hdivisor0 : 0 < n * Nat.pow 2 (f - min e f).toNat := Nat.mul_pos hn (Nat.pow_pos two_pos)
    generalize n * Nat.pow 2 (f - min e f).toNat = divisor at hdivisor hdivisor0 ⊢
    generalize m <<< (e - min e f).toNat = dividend
    have hsmall : ((dividend % divisor : ℕ) : ℝ) * 2 ^ min e f ≤ floatValue y := by
      rw [hyvalue, ← hdivisor]
      have : dividend % divisor ≤ divisor := (Nat.mod_lt _ hdivisor0).le
      gcongr
    obtain ⟨z, hz, hnear⟩ := exists_isNearest_ofBinary s hsmall hrange
    obtain ⟨hz0, hz1⟩ := abs_le.1 hz
    refine ⟨hnear.isFinite, abs_le.2 ⟨?_, hnear.le hyfinite hz1⟩⟩
    rw [← floatValue_neg] at hz0 ⊢
    exact hnear.ge (isFinite_neg hyfinite) hz0

/-! ## Middles -/

/-- What is rounded is no nearer to twice a double than to the rounded number. -/
theorem IsNearest.abs_sub_le_twice {x y : Float} {z : ℝ} (h : IsNearest x z) (hy : y.isFinite) :
    |floatValue x - z| ≤ |2 * floatValue y - z| := by
  obtain ⟨n, e, hn, he, hv⟩ := value_representable (canonical_unpack y.toModel) hy
  have htwice : (n : ℝ) * 2 ^ (e + 1) = 2 * floatValue y := by
    rw [floatValue, hv, zpow_add₀ (by norm_num), zpow_one]
    ring
  rw [← htwice]
  exact Nearest.nearest h n (e + 1) hn (by omega)

/-- A bound that is twice a double bounds the rounded number too. -/
theorem IsNearest.le_twice {x y : Float} {z : ℝ} (h : IsNearest x z) (hy : y.isFinite)
    (hz : z ≤ 2 * floatValue y) : floatValue x ≤ 2 * floatValue y := by
  have hnear := h.abs_sub_le_twice hy
  by_contra hlt
  rw [not_le] at hlt
  rw [abs_of_nonneg (by linarith), abs_of_nonneg (by linarith)] at hnear
  linarith

theorem IsNearest.twice_le {x y : Float} {z : ℝ} (h : IsNearest x z) (hy : y.isFinite)
    (hz : 2 * floatValue y ≤ z) : 2 * floatValue y ≤ floatValue x := by
  have hnear := h.abs_sub_le_twice hy
  by_contra hlt
  rw [not_le] at hlt
  rw [abs_of_nonpos (by linarith), abs_of_nonpos (by linarith)] at hnear
  linarith

end ThemeTokens.Binary64

namespace ThemeTokens.Double
open Binary64
variable {lib : Elementary} {x y : Double lib}

@[simp] theorem toReal_half : toReal (0.5 : Double lib) = 1 / 2 := by
  have hunpack : (0.5 : Float).toModel.unpack = .finite .positive (2 ^ 52) (-53) (by decide) := rfl
  rw [toReal_of_unpack (x := (0.5 : Double lib)) (by decide) hunpack]
  norm_num

theorem finite_half : Finite (0.5 : Double lib) :=
  (near_literal (A := 1) (by norm_num) (by norm_num) (by norm_num) (by norm_num)).finite

theorem middle_mem {u v : Double lib} (hu : Finite u) (hv : Finite v) (hx : Finite x)
    (hy : Finite y) (hux : toReal u ≤ toReal x) (huy : toReal u ≤ toReal y)
    (hxv : toReal x ≤ toReal v) (hyv : toReal y ≤ toReal v) (hu1 : |toReal u| ≤ 100)
    (hv1 : |toReal v| ≤ 100) : Finite ((x + y) * 0.5) ∧
      toReal u ≤ toReal ((x + y) * 0.5) ∧ toReal ((x + y) * 0.5) ≤ toReal v := by
  obtain ⟨hu0, _⟩ := abs_le.1 hu1
  obtain ⟨_, hv0⟩ := abs_le.1 hv1
  have hrange : |toReal x + toReal y| ≤ 1000 := by
    rw [abs_le]
    constructor <;> linarith
  have hsum : IsNearest (x + y) (toReal x + toReal y) := isNearest_add hx hy (Near.inRange hrange)
  have hlow : 2 * toReal u ≤ toReal (x + y) :=
    hsum.twice_le hu (show 2 * toReal u ≤ toReal x + toReal y by linarith)
  have hhigh : toReal (x + y) ≤ 2 * toReal v :=
    hsum.le_twice hv (show toReal x + toReal y ≤ 2 * toReal v by linarith)
  have hscaled : |toReal (x + y) * toReal (0.5 : Double lib)| ≤ 1000 := by
    rw [toReal_half, abs_le]
    constructor <;> linarith
  have hmiddle : IsNearest ((x + y) * 0.5 : Double lib)
      (toReal (x + y) * toReal (0.5 : Double lib)) :=
    isNearest_mul hsum.isFinite finite_half (Near.inRange hscaled)
  rw [toReal_half] at hmiddle
  refine ⟨hmiddle.isFinite, hmiddle.ge hu ?_, hmiddle.le hv ?_⟩
  · change toReal u ≤ _
    linarith
  · change _ ≤ toReal v
    linarith

end ThemeTokens.Double
