import ThemeTokens.Proofs.Binary64.Arithmetic

/-!
# Error bounds

How far a computation on doubles can get from the same computation on real numbers. Bounds on the
magnitude of the exact values are carried along, so that every step leaves only numerals to check.
-/
namespace ThemeTokens

/-- What a function that a platform only approximates may be off by. -/
noncomputable def tolerance : ℝ := 1 / 10 ^ 10

namespace Double
open Binary64
variable {lib : Elementary}

noncomputable def toReal (x : Double lib) : ℝ := Binary64.floatValue x

def Finite (x : Double lib) : Prop := Float.isFinite x = true

/-- `x` is within `ε` of `r`, and `r` has at most the magnitude `A`. -/
structure Near (A ε : ℝ) (x : Double lib) (r : ℝ) : Prop where
  finite : Finite x
  bound : |r| ≤ A
  error : |toReal x - r| ≤ ε

/-- More than one operation in the range of the bounds can lose by rounding. -/
noncomputable def slip : ℝ := 1 / 10 ^ 12

variable {A B C ε δ ζ r s t : ℝ} {x y z : Double lib}

/-! ## Order -/

theorem lt_iff (hx : Finite x) (hy : Finite y) : x < y ↔ toReal x < toReal y :=
  Binary64.lt_iff hx hy

theorem le_iff (hx : Finite x) (hy : Finite y) : x ≤ y ↔ toReal x ≤ toReal y :=
  Binary64.le_iff hx hy

theorem not_lt_iff_le (hx : Number.isNaN x = false) (hy : Number.isNaN y = false) :
    ¬ x < y ↔ y ≤ x :=
  Binary64.not_lt_iff_le hx hy

protected theorem le_trans (hxy : x ≤ y) (hyz : y ≤ z) : x ≤ z := Binary64.le_trans hxy hyz

protected theorem le_of_lt (h : x < y) : x ≤ y := Binary64.le_of_lt h

protected theorem le_total (hx : Number.isNaN x = false) (hy : Number.isNaN y = false) :
    x ≤ y ∨ y ≤ x :=
  (em (x < y)).imp Double.le_of_lt (not_lt_iff_le hx hy).1

protected theorem le_refl (hx : Number.isNaN x = false) : x ≤ x :=
  (Double.le_total hx hx).elim id id

theorem Finite.isNaN_eq_false (hx : Finite x) : Number.isNaN x = false :=
  Binary64.isNaN_eq_false hx

theorem toReal_neg (x : Double lib) : toReal (-x) = -toReal x := Binary64.floatValue_neg x

namespace Near

theorem mono {A' ε' : ℝ} (h : Near A ε x r) (hA : A ≤ A') (hε : ε ≤ ε') : Near A' ε' x r :=
  ⟨h.finite, h.bound.trans hA, h.error.trans hε⟩

theorem self (hx : Finite x) (h : |toReal x| ≤ A) : Near A 0 x (toReal x) :=
  ⟨hx, h, by rw [sub_self, abs_zero]⟩

theorem le (h : Near A ε x r) : toReal x ≤ r + ε := by linarith [(abs_le.1 h.error).2]

theorem ge (h : Near A ε x r) : r - ε ≤ toReal x := by linarith [(abs_le.1 h.error).1]

theorem abs_toReal (h : Near A ε x r) : |toReal x| ≤ A + ε := by
  have := abs_add_le r (toReal x - r)
  rw [add_sub_cancel] at this
  linarith [h.bound, h.error]

theorem error_nonneg (h : Near A ε x r) : 0 ≤ ε := (abs_nonneg _).trans h.error

theorem bound_nonneg (h : Near A ε x r) : 0 ≤ A := (abs_nonneg _).trans h.bound

/-! ## Operations -/

theorem round {w : ℝ} (h : IsNearest x w) (hw : |w| ≤ 1000) (hr : |r| ≤ A) (hwr : |w - r| ≤ ε) :
    Near A (ε + slip) x r := by
  refine ⟨h.isFinite, hr, ?_⟩
  have hround : |toReal x - w| ≤ slip :=
    (h.error_le hw (by norm_num)).trans (by norm_num [slip])
  calc |toReal x - r| = |(toReal x - w) + (w - r)| := by rw [sub_add_sub_cancel]
    _ ≤ |toReal x - w| + |w - r| := abs_add_le _ _
    _ ≤ slip + ε := add_le_add hround hwr
    _ = ε + slip := add_comm _ _

theorem inRange {w : ℝ} (h : |w| ≤ 1000) : |w| < range :=
  lt_range (h.trans (by norm_num))

theorem add (hx : Near A ε x r) (hy : Near B δ y s) (h : A + B + ε + δ ≤ 1000) :
    Near (A + B) (ε + δ + slip) (x + y) (r + s) := by
  have hsum : |toReal x + toReal y| ≤ 1000 := by
    linarith [abs_add_le (toReal x) (toReal y), hx.abs_toReal, hy.abs_toReal]
  refine round (isNearest_add hx.finite hy.finite (inRange hsum)) hsum
    ((abs_add_le _ _).trans (add_le_add hx.bound hy.bound)) ?_
  change |toReal x + toReal y - (r + s)| ≤ _
  rw [add_sub_add_comm]
  exact (abs_add_le _ _).trans (add_le_add hx.error hy.error)

theorem sub (hx : Near A ε x r) (hy : Near B δ y s) (h : A + B + ε + δ ≤ 1000) :
    Near (A + B) (ε + δ + slip) (x - y) (r - s) := by
  have hsum : |toReal x - toReal y| ≤ 1000 := by
    linarith [abs_sub (toReal x) (toReal y), hx.abs_toReal, hy.abs_toReal]
  refine round (isNearest_sub hx.finite hy.finite (inRange hsum)) hsum
    ((abs_sub _ _).trans (add_le_add hx.bound hy.bound)) ?_
  change |toReal x - toReal y - (r - s)| ≤ _
  rw [sub_sub_sub_comm]
  exact (abs_sub _ _).trans (add_le_add hx.error hy.error)

theorem neg (hx : Near A ε x r) : Near A ε (-x) (-r) := by
  refine ⟨isFinite_neg hx.finite, (abs_neg r).trans_le hx.bound, ?_⟩
  rw [toReal_neg, neg_sub_neg, abs_sub_comm]
  exact hx.error

theorem mul_error (hx : Near A ε x r) (hy : Near B δ y s) :
    |toReal x * toReal y - r * s| ≤ A * δ + B * ε + ε * δ := by
  have hsplit : toReal x * toReal y - r * s =
      r * (toReal y - s) + s * (toReal x - r) + (toReal x - r) * (toReal y - s) := by ring
  rw [hsplit]
  have h1 := mul_le_mul hx.bound hy.error (abs_nonneg _) hx.bound_nonneg
  have h2 := mul_le_mul hy.bound hx.error (abs_nonneg _) hy.bound_nonneg
  have h3 := mul_le_mul hx.error hy.error (abs_nonneg _) hx.error_nonneg
  rw [← abs_mul] at h1 h2 h3
  exact (abs_add_three _ _ _).trans (add_le_add (add_le_add h1 h2) h3)

theorem abs_mul_le (hx : Near A ε x r) (hy : Near B δ y s) :
    |toReal x * toReal y| ≤ (A + ε) * (B + δ) := by
  rw [abs_mul]
  exact mul_le_mul hx.abs_toReal hy.abs_toReal (abs_nonneg _)
    (add_nonneg hx.bound_nonneg hx.error_nonneg)

theorem mul (hx : Near A ε x r) (hy : Near B δ y s) (h : (A + ε) * (B + δ) ≤ 1000) :
    Near (A * B) (A * δ + B * ε + ε * δ + slip) (x * y) (r * s) := by
  have hprod := (abs_mul_le hx hy).trans h
  refine round (isNearest_mul hx.finite hy.finite (inRange hprod)) hprod ?_ (mul_error hx hy)
  rw [abs_mul]
  exact mul_le_mul hx.bound hy.bound (abs_nonneg _) hx.bound_nonneg

theorem mulAdd (hx : Near A ε x r) (hy : Near B δ y s) (hz : Near C ζ z t)
    (h : (A + ε) * (B + δ) + C + ζ ≤ 1000) :
    Near (A * B + C) (A * δ + B * ε + ε * δ + ζ + slip) (Number.mulAdd x y z) (r * s + t) := by
  have hsum : |toReal x * toReal y + toReal z| ≤ 1000 := by
    linarith [abs_add_le (toReal x * toReal y) (toReal z), abs_mul_le hx hy, hz.abs_toReal]
  refine round (isNearest_mulAdd hx.finite hy.finite hz.finite (inRange hsum)) hsum ?_ ?_
  · refine (abs_add_le _ _).trans (add_le_add ?_ hz.bound)
    rw [abs_mul]
    exact mul_le_mul hx.bound hy.bound (abs_nonneg _) hx.bound_nonneg
  · change |toReal x * toReal y + toReal z - (r * s + t)| ≤ _
    rw [add_sub_add_comm]
    exact (abs_add_le _ _).trans (add_le_add (mul_error hx hy) hz.error)

/-- A divisor of at least `c` keeps a quotient in bounds. -/
theorem div {c : ℝ} (hx : Near A ε x r) (hy : Near B δ y s) (hs : c ≤ s) (hδ : δ < c)
    (h : (A + ε) / (c - δ) ≤ 1000) :
    Near (A / c) ((ε + A / c * δ) / (c - δ) + slip) (x / y) (r / s) := by
  have hc : 0 < c := hy.error_nonneg.trans_lt hδ
  have hs0 : 0 < s := hc.trans_le hs
  have hylow : c - δ ≤ toReal y := by linarith [hy.ge]
  have hy0 : 0 < toReal y := by linarith
  have hquot : |toReal x / toReal y| ≤ 1000 := by
    rw [abs_div, abs_of_pos hy0]
    exact (div_le_div₀ (add_nonneg hx.bound_nonneg hx.error_nonneg) hx.abs_toReal
      (by linarith) hylow).trans h
  have hbound : |r / s| ≤ A / c := by
    rw [abs_div, abs_of_pos hs0]
    exact div_le_div₀ hx.bound_nonneg hx.bound hc hs
  refine round (isNearest_div hx.finite hy.finite hy0.ne' (inRange hquot)) hquot hbound ?_
  change |toReal x / toReal y - r / s| ≤ _
  have hsplit : toReal x / toReal y - r / s =
      ((toReal x - r) - r / s * (toReal y - s)) / toReal y := by
    field_simp
    ring
  have hnum : |(toReal x - r) - r / s * (toReal y - s)| ≤ ε + A / c * δ := by
    refine (abs_sub _ _).trans (add_le_add hx.error ?_)
    rw [abs_mul]
    exact mul_le_mul hbound hy.error (abs_nonneg _) (hbound.trans' (abs_nonneg _))
  rw [hsplit, abs_div, abs_of_pos hy0]
  exact div_le_div₀ ((abs_nonneg _).trans hnum) hnum (by linarith) hylow

end Near

/-! ## Literals -/

theorem real_literal (m e : ℕ) : (OfScientific.ofScientific m true e : ℝ) = m / 10 ^ e := by
  rw [NNRatCast.ofScientific_eq_ite, if_pos rfl, NNRat.cast_divNat]
  push_cast
  rfl

theorem near_literal {m e : ℕ} (hm : m < 2 ^ 53) (he : e ≤ 22)
    (hA : (OfScientific.ofScientific m true e : ℝ) ≤ A) (h : A ≤ 1000) :
    Near A slip (OfScientific.ofScientific m true e : Double lib)
      (OfScientific.ofScientific m true e : ℝ) := by
  rw [real_literal] at hA ⊢
  have habs : |(m : ℝ) / 10 ^ e| ≤ A := by rwa [abs_of_nonneg (by positivity)]
  have := @Near.round lib A 0 _ _ _ (isNearest_ofScientific hm he) (habs.trans h) habs
    (by rw [sub_self, abs_zero])
  rwa [zero_add] at this

theorem near_fraction {m e : ℕ} (hm : m < 2 ^ 53) (he : e ≤ 22)
    (h1 : (OfScientific.ofScientific m true e : ℝ) ≤ 1) :
    Near 1 slip (OfScientific.ofScientific m true e : Double lib)
      (OfScientific.ofScientific m true e : ℝ) :=
  near_literal hm he h1 (by norm_num)

theorem toReal_of_unpack {x : Double lib} {m : ℕ} {e : ℤ} (hm : 0 < m)
    (h : (Float.toModel x).unpack = .finite .positive m e hm) : toReal x = m * 2 ^ e := by
  change Binary64.value (Float.toModel x).unpack = _
  rw [h, value_positive]

theorem one_unpack :
    (1.0 : Float).toModel.unpack = .finite .positive (2 ^ 52) (-52) (by decide) := rfl

@[simp] theorem toReal_zero : toReal (0.0 : Double lib) = 0 := congrArg Binary64.value zero_unpack

@[simp] theorem toReal_one : toReal (1.0 : Double lib) = 1 := by
  rw [toReal_of_unpack (x := (1.0 : Double lib)) (by decide) one_unpack]
  norm_num

theorem finite_zero : Finite (0.0 : Double lib) :=
  congrArg Float.Model.UnpackedFloat.isFinite zero_unpack

theorem finite_one : Finite (1.0 : Double lib) :=
  congrArg Float.Model.UnpackedFloat.isFinite one_unpack

end Double

end ThemeTokens
