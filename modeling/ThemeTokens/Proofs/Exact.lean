import Mathlib.Analysis.SpecialFunctions.Complex.Arg
import Mathlib.Analysis.SpecialFunctions.Pow.Real
import ThemeTokens.Number.Basic

/-!
# Exact arithmetic

The numbers on which nothing is rounded and nothing overflows. Laws that doubles keep only up to
rounding are stated over them.
-/
namespace ThemeTokens

/-- Real numbers, as a kind of number to compute with. -/
def Exact : Type := ℝ

namespace Exact

def toReal (x : Exact) : ℝ := x

noncomputable def ofReal (x : ℝ) : Exact := x

/-- The natural number nearest to `x`, a half going to the even one. -/
noncomputable def roundEven (x : ℝ) : ℕ :=
  if x - ⌊x⌋₊ < 0.5 then ⌊x⌋₊
  else if 0.5 < x - ⌊x⌋₊ then ⌊x⌋₊ + 1
  else ⌊x⌋₊ + ⌊x⌋₊ % 2

/-- The number that a numeral writes. -/
noncomputable def value (n : Numeral) : ℝ :=
  (if n.negative then -1 else 1) * n.digits * ((10 : ℕ) : ℝ) ^ n.exponent

/-- Whether some numeral with these digits writes `x`. -/
def HasDigits (x : ℝ) (digits : ℕ) : Prop := ∃ n : Numeral, n.digits = digits ∧ value n = x

open Classical in
/-- The numeral with the least digits that writes `x`. Most numbers have none. -/
noncomputable def shortest (x : ℝ) : Decimal :=
  if h : ∃ digits, HasDigits x digits then .finite (Nat.find_spec h).choose else .notANumber

noncomputable instance : Number Exact where
  add x y := ofReal (toReal x + toReal y)
  sub x y := ofReal (toReal x - toReal y)
  mul x y := ofReal (toReal x * toReal y)
  div x y := ofReal (toReal x / toReal y)
  neg x := ofReal (-toReal x)
  lt x y := toReal x < toReal y
  le x y := toReal x ≤ toReal y
  ofScientific m s e := ofReal (OfScientific.ofScientific m s e)
  decidableLT x y := Real.decidableLT x y
  decidableLE x y := Real.decidableLE x y
  isNaN _ := false
  isFinite _ := true
  ofNat n := ofReal n
  round x := ⌊toReal x + 0.5⌋₊
  mulAdd x y z := ofReal (toReal x * toReal y + toReal z)
  rem x y :=
    ofReal (toReal x - toReal y * (SignType.sign (toReal x / toReal y) * ⌊|toReal x / toReal y|⌋₊))
  pow x y := ofReal (toReal x ^ toReal y)
  cbrt x := ofReal (SignType.sign (toReal x) * |toReal x| ^ ((3 : ℕ) : ℝ)⁻¹)
  hypot x y := ofReal (Real.sqrt (toReal x ^ 2 + toReal y ^ 2))
  atan2 y x := ofReal (Complex.arg ⟨toReal x, toReal y⟩)
  sin x := ofReal (Real.sin (toReal x))
  cos x := ofReal (Real.cos (toReal x))
  pi := ofReal Real.pi
  ofNumeral n := ofReal (value n)
  shortest _ x := shortest (toReal x)
  toPlaces places x :=
    .finite ⟨toReal x < 0, roundEven (|toReal x| * (10 ^ places : ℕ)), -(places : ℤ)⟩

variable {x y z : Exact}

theorem toReal_injective : Function.Injective toReal := fun _ _ h => h

@[simp] theorem toReal_ofReal (x : ℝ) : toReal (ofReal x) = x := rfl

@[simp] theorem toReal_add (x y : Exact) : toReal (x + y) = toReal x + toReal y := rfl

@[simp] theorem toReal_sub (x y : Exact) : toReal (x - y) = toReal x - toReal y := rfl

@[simp] theorem toReal_mul (x y : Exact) : toReal (x * y) = toReal x * toReal y := rfl

@[simp] theorem toReal_div (x y : Exact) : toReal (x / y) = toReal x / toReal y := rfl

@[simp] theorem toReal_neg (x : Exact) : toReal (-x) = -toReal x := rfl

@[simp] theorem toReal_mulAdd (x y z : Exact) :
    toReal (Number.mulAdd x y z) = toReal x * toReal y + toReal z := rfl

@[simp] theorem toReal_ofScientific (m : ℕ) (s : Bool) (e : ℕ) :
    toReal (OfScientific.ofScientific m s e) = OfScientific.ofScientific m s e := rfl

@[simp] theorem toReal_ofNat (n : ℕ) : toReal (Number.ofNat n) = n := rfl

@[simp] theorem toReal_pow (x y : Exact) : toReal (Number.pow x y) = toReal x ^ toReal y := rfl

theorem le_iff : x ≤ y ↔ toReal x ≤ toReal y := Iff.rfl

theorem lt_iff : x < y ↔ toReal x < toReal y := Iff.rfl

theorem round_eq (x : Exact) : Number.round x = ⌊toReal x + 0.5⌋₊ := rfl

theorem toReal_zero : toReal 0.0 = 0 := by
  rw [toReal_ofScientific]
  norm_num

theorem toReal_one : toReal 1.0 = 1 := by
  rw [toReal_ofScientific]
  norm_num

theorem toReal_nonneg (x : Exact) : toReal (Number.nonneg x) = max 0 (toReal x) := by
  unfold Number.nonneg
  split
  · next h =>
    rw [lt_iff, toReal_zero] at h
    rw [max_eq_right h.le]
  · next h =>
    rw [lt_iff, toReal_zero, not_lt] at h
    rw [max_eq_left h, toReal_zero]

theorem toReal_clampOr (fallback x : Exact) :
    toReal (Number.clampOr fallback x) = max 0 (min 1 (toReal x)) := by
  change toReal (if x < 0.0 then 0.0 else if 1.0 < x then 1.0 else x) = _
  simp only [lt_iff, toReal_zero, toReal_one]
  split
  · next h => rw [toReal_zero, max_eq_left ((min_le_right _ _).trans h.le)]
  · next h =>
    rw [not_lt] at h
    split
    · next h1 => rw [toReal_one, min_eq_left h1.le, max_eq_right zero_le_one]
    · next h1 => rw [min_eq_right (not_lt.1 h1), max_eq_right h]

theorem clampOr_clampOr (fallback x : Exact) :
    Number.clampOr fallback (Number.clampOr fallback x) = Number.clampOr fallback x := by
  apply toReal_injective
  rw [toReal_clampOr, toReal_clampOr, min_eq_right, max_eq_right (le_max_left _ _)]
  exact max_le zero_le_one (min_le_left _ _)

end Exact

end ThemeTokens
