import ThemeTokens.Proofs.Binary64.Interval

/-!
# Results that did not overflow

Only finite operands give a finite result, and a finite result is nearest to the exact one however
large that is. So a check on what came out also bounds what went in.
-/
namespace ThemeTokens.Binary64
open Float.Model Float.Model.UnpackedFloat

/-! ## Operands -/

theorem isFinite_of_pack {u : UnpackedFloat}
    (h : Float.isFinite (.ofModel (Float.Model.pack u)) = true) : u.isFinite = true := by
  change (Float.Model.pack u).unpack.isFinite = true at h
  cases u with
  | notANumber =>
    rw [@unpack_pack .notANumber trivial] at h
    cases h
  | infinity s =>
    rw [@unpack_pack (.infinity s) trivial] at h
    cases h
  | zero s => rfl
  | finite s m e hm => rfl

theorem isFinite_of_unpacked_add {u v : UnpackedFloat}
    (h : (UnpackedFloat.add .binary64 u v).isFinite = true) :
    u.isFinite = true ∧ v.isFinite = true := by
  rcases u with (_ | _) | _ | _ | _ <;> rcases v with (_ | _) | _ | _ | _ <;>
    first | exact ⟨rfl, rfl⟩ | cases h

theorem isFinite_of_unpacked_mul {u v : UnpackedFloat}
    (h : (UnpackedFloat.mul .binary64 u v).isFinite = true) :
    u.isFinite = true ∧ v.isFinite = true := by
  rcases u with _ | _ | _ | _ <;> rcases v with _ | _ | _ | _ <;>
    first | exact ⟨rfl, rfl⟩ | cases h

theorem isFinite_of_exactProduct {u v : UnpackedFloat}
    (h : (exactProduct u v).isFinite = true) : u.isFinite = true ∧ v.isFinite = true := by
  rcases u with _ | _ | _ | _ <;> rcases v with _ | _ | _ | _ <;>
    first | exact ⟨rfl, rfl⟩ | cases h

section
variable {x y z : Float}

theorem isFinite_of_add (h : (x + y).isFinite) : x.isFinite ∧ y.isFinite :=
  isFinite_of_unpacked_add (isFinite_of_pack h)

theorem isFinite_of_mul (h : (x * y).isFinite) : x.isFinite ∧ y.isFinite :=
  isFinite_of_unpacked_mul (isFinite_of_pack h)

theorem isFinite_of_mulAdd (h : (mulAdd x y z).isFinite) :
    x.isFinite ∧ y.isFinite ∧ z.isFinite := by
  change x.toModel.unpack.isFinite = true ∧ y.toModel.unpack.isFinite = true ∧
    z.toModel.unpack.isFinite = true
  suffices (exactProduct x.toModel.unpack y.toModel.unpack).isFinite = true ∧
      z.toModel.unpack.isFinite = true by
    exact ⟨(isFinite_of_exactProduct this.1).1, (isFinite_of_exactProduct this.1).2, this.2⟩
  unfold mulAdd at h
  split at h
  · next hproduct hz => exact ⟨by rw [hproduct]; rfl, by rw [hz]; rfl⟩
  · next hproduct hz => exact ⟨by rw [hproduct]; rfl, by rw [hz]; rfl⟩
  · exact isFinite_of_unpacked_add (isFinite_of_pack h)

/-! ## Results -/

theorem isNearest_add_of_isFinite (h : (x + y).isFinite) :
    IsNearest (x + y) (floatValue x + floatValue y) :=
  (rounds_add (isFinite_of_add h).1 (isFinite_of_add h).2).isNearest_of_isFinite h

theorem isNearest_mul_of_isFinite (h : (x * y).isFinite) :
    IsNearest (x * y) (floatValue x * floatValue y) :=
  (rounds_mul (isFinite_of_mul h).1 (isFinite_of_mul h).2).isNearest_of_isFinite h

theorem isNearest_mulAdd_of_isFinite (h : (mulAdd x y z).isFinite) :
    IsNearest (mulAdd x y z) (floatValue x * floatValue y + floatValue z) :=
  (rounds_mulAdd (isFinite_of_mulAdd h).1 (isFinite_of_mulAdd h).2.1
    (isFinite_of_mulAdd h).2.2).isNearest_of_isFinite h

theorem abs_floatValue_lt (hx : x.isFinite) : |floatValue x| < 2 ^ 1024 := by
  have hcanonical := canonical_unpack x.toModel
  change x.toModel.unpack.isFinite = true at hx
  unfold floatValue
  cases hu : x.toModel.unpack with
  | notANumber => rw [hu] at hx; cases hx
  | infinity s => rw [hu] at hx; cases hx
  | zero s => norm_num
  | finite s m e hm =>
    rw [hu] at hcanonical
    obtain ⟨hm53, _, he, _⟩ := hcanonical
    have hm53' : (m : ℝ) < 2 ^ (53 : ℤ) := by exact_mod_cast hm53
    rw [value_finite, abs_signed, abs_of_pos (magnitude_pos hm e)]
    calc (m : ℝ) * 2 ^ e < 2 ^ (53 : ℤ) * 2 ^ e := mul_lt_mul_of_pos_right hm53' (two_zpow_pos e)
      _ = 2 ^ (53 + e) := (zpow_add₀ (by norm_num) _ _).symm
      _ ≤ 2 ^ (1024 : ℤ) := zpow_le_zpow_right₀ (by norm_num) (by omega)
      _ = 2 ^ 1024 := zpow_natCast _ _

/-- What was rounded is hardly larger than the result. -/
theorem IsNearest.abs_le {r : ℝ} (h : IsNearest x r) : |r| ≤ 2 * |floatValue x| + 1 := by
  have herror : |floatValue x - r| ≤ |r| / 2 + 1 / 2 := by
    refine h.error.trans (max_le ?_ ?_)
    · have : |r| / 2 ^ 53 ≤ |r| / 2 :=
        div_le_div_of_nonneg_left (abs_nonneg r) two_pos (by norm_num)
      linarith
    · have : (1 : ℝ) / 2 ^ 1075 ≤ 1 / 2 ^ 1 :=
        one_div_le_one_div_of_le (by norm_num) (pow_le_pow_right₀ (by norm_num) (by norm_num))
      refine this.trans ?_
      rw [pow_one]
      linarith only [abs_nonneg r]
  have hsplit := abs_sub_abs_le_abs_sub r (floatValue x)
  rw [abs_sub_comm] at hsplit
  linarith

/-! ## Positive overflow -/

theorem unpack_of_pos (h : 0.0 < x) : x.isFinite ∨ x.toModel.unpack = .infinity .positive := by
  rw [lt_iff_unpack, zero_unpack] at h
  change x.toModel.unpack.isFinite = true ∨ _
  rcases hx : x.toModel.unpack with (_ | _) | _ | _ | _
  · rw [hx] at h
    cases h
  · exact Or.inr rfl
  · rw [hx] at h
    cases h
  · exact Or.inl rfl
  · exact Or.inl rfl

theorem pos_of_infinite (h : x.toModel.unpack = .infinity .positive) : 0.0 < x := by
  rw [lt_iff_unpack, zero_unpack, h]
  rfl

theorem not_isFinite_of_infinite (h : x.toModel.unpack = .infinity .positive) : ¬ x.isFinite := by
  change ¬ x.toModel.unpack.isFinite = true
  rw [h]
  exact Bool.false_ne_true

/-- A result that is not negative is finite or overflows upwards. -/
theorem Rounds.finite_or_infinite {r : ℝ} (h : Rounds x r) (hr : 0 ≤ r) :
    x.isFinite ∨ x.toModel.unpack = .infinity .positive := by
  obtain ⟨u, rfl, h⟩ := h
  by_cases hcanonical : Canonical u
  · exact Or.inl (h.toNearest hcanonical).pack.isFinite
  · right
    cases u with
    | finite s m e hm =>
      obtain ⟨hm53, he, hm52⟩ := h.normal
      have hlarge : 971 < e := by
        by_contra hle
        exact hcanonical ⟨hm53, he, not_lt.1 hle, hm52⟩
      cases s with
      | positive => exact unpack_pack_of_exponent hm hlarge
      | negative =>
        have hnear := h.nearest 0 0 (by norm_num) (by norm_num)
        rw [value_negative, Int.cast_zero, zero_mul, zero_sub, abs_neg, abs_of_nonneg hr] at hnear
        have hpos := magnitude_pos hm e
        rw [abs_of_neg (by linarith)] at hnear
        linarith
    | _ => exact absurd trivial hcanonical

/-- What is a double already does not overflow. -/
theorem Rounds.isFinite (h : Rounds x (floatValue y)) (hy : y.isFinite) : x.isFinite := by
  obtain ⟨u, rfl, h⟩ := h
  obtain ⟨n, e, hn, he, hvalue⟩ := value_representable (canonical_unpack y.toModel) hy
  have hnear := h.nearest n e hn he
  rw [← hvalue, floatValue, sub_self, abs_zero, abs_nonpos_iff, sub_eq_zero] at hnear
  exact (h.toNearest (h.normal.canonical (hnear ▸ abs_floatValue_lt hy))).pack.isFinite

theorem unpack_add_infinite (hx : x.isFinite) (hy : y.toModel.unpack = .infinity .positive) :
    (x + y).toModel.unpack = .infinity .positive := by
  change x.toModel.unpack.isFinite = true at hx
  change (Float.Model.pack (UnpackedFloat.add .binary64 x.toModel.unpack y.toModel.unpack)).unpack =
    _
  rw [hy]
  rcases hu : x.toModel.unpack with _ | _ | _ | _
  · rw [hu] at hx
    cases hx
  · rw [hu] at hx
    cases hx
  · exact unpack_pack trivial
  · exact unpack_pack trivial

end

end ThemeTokens.Binary64

namespace ThemeTokens.Double
open Binary64
variable {lib : Elementary} {x y low high : Double lib}

/-- Positive infinity. -/
def Infinite (x : Double lib) : Prop := (Float.toModel x).unpack = .infinity .positive

theorem Infinite.pos (h : Infinite x) : 0.0 < x := pos_of_infinite h

theorem Infinite.not_finite (h : Infinite x) : ¬ Finite x := not_isFinite_of_infinite h

theorem finite_or_infinite (h : 0.0 < x) : Finite x ∨ Infinite x := unpack_of_pos h

/-- A square that did not overflow has a root of moderate size. -/
theorem abs_le_of_finite_square (h : Finite (x * x)) : |toReal x| ≤ 2 ^ 513 := by
  have hsquare : |toReal x * toReal x| ≤ 2 * |toReal (x * x)| + 1 :=
    (isNearest_mul_of_isFinite h).abs_le
  have hbound : |toReal (x * x)| ≤ 2 ^ 1024 := (abs_floatValue_lt h).le
  refine abs_le_of_sq_le_sq (?_ : toReal x ^ 2 ≤ (2 ^ 513) ^ 2) (by positivity)
  rw [abs_mul_self, ← sq] at hsquare
  calc toReal x ^ 2 ≤ 2 * 2 ^ 1024 + 1 := hsquare.trans (by gcongr)
    _ ≤ 2 * 2 ^ 1024 + 2 * 2 ^ 1024 := by
      gcongr
      exact one_le_two.trans (le_mul_of_one_le_right zero_le_two (one_le_pow₀ one_le_two))
    _ = 2 ^ 2 * 2 ^ 1024 := by rw [← two_mul, ← mul_assoc, sq]
    _ = (2 ^ 513) ^ 2 := by rw [← pow_add, ← pow_mul]

/-! ## Halfway between two doubles -/

theorem infinite_halved (h : Infinite x) : Infinite (x * 0.5) := by
  have hhalf : (0.5 : Float).toModel.unpack = .finite .positive (2 ^ 52) (-53) (by decide) := rfl
  change (Float.Model.pack (Float.Model.UnpackedFloat.mul .binary64 (Float.toModel x).unpack
    (0.5 : Float).toModel.unpack)).unpack = _
  rw [show (Float.toModel x).unpack = _ from h, hhalf]
  exact unpack_pack trivial

theorem finite_halved (h : Finite x) : Finite (x * 0.5) := by
  refine ((rounds_mul h finite_half).isNearest_of_le ?_).isFinite
  change |toReal x * toReal (0.5 : Double lib)| ≤ 2 ^ 1023
  have hx : |toReal x| < 2 ^ 1024 := abs_floatValue_lt h
  rw [toReal_half, mul_one_div, abs_div, abs_two, div_le_iff₀ two_pos, ← pow_succ]
  exact hx.le

/-- Halfway up there is a number, or infinity if the sum overflows. -/
theorem finite_or_infinite_middle (hlow : Finite low) (hlow0 : 0 ≤ toReal low)
    (hhigh : 0.0 < high) : Finite ((low + high) * 0.5) ∨ Infinite ((low + high) * 0.5) := by
  rcases finite_or_infinite hhigh with hfinite | hinfinite
  · rw [lt_iff finite_zero hfinite, toReal_zero] at hhigh
    rcases (rounds_add hlow hfinite).finite_or_infinite (add_nonneg hlow0 hhigh.le) with hsum | hsum
    · exact Or.inl (finite_halved hsum)
    · exact Or.inr (infinite_halved hsum)
  · exact Or.inr (infinite_halved (unpack_add_infinite hlow hinfinite))

section
variable (hle : toReal low ≤ toReal high) (hfinite : Finite ((low + high) * 0.5))
include hfinite

theorem finite_of_middle : Finite low ∧ Finite high :=
  isFinite_of_add (isFinite_of_mul hfinite).1

theorem nearest_middle : IsNearest ((low + high) * 0.5 : Double lib) (toReal (low + high) / 2) := by
  have := isNearest_mul_of_isFinite hfinite
  change IsNearest _ (toReal (low + high) * toReal (0.5 : Double lib)) at this
  rwa [toReal_half, mul_one_div] at this

include hle

theorem middle_between : toReal low ≤ toReal ((low + high) * 0.5) ∧
    toReal ((low + high) * 0.5) ≤ toReal high := by
  obtain ⟨hlow, hhigh⟩ := finite_of_middle hfinite
  have hsum : IsNearest (low + high) (toReal low + toReal high) :=
    isNearest_add_of_isFinite (isFinite_of_mul hfinite).1
  have hfrom : 2 * toReal low ≤ toReal (low + high) :=
    hsum.twice_le hlow (show 2 * toReal low ≤ toReal low + toReal high by linarith)
  have hto : toReal (low + high) ≤ 2 * toReal high :=
    hsum.le_twice hhigh (show toReal low + toReal high ≤ 2 * toReal high by linarith)
  have hmiddle := nearest_middle hfinite
  exact ⟨hmiddle.ge hlow (show toReal low ≤ _ by linarith),
    hmiddle.le hhigh (show _ ≤ toReal high by linarith)⟩

/-- The middle is off by little of the upper end, as long as doubles are dense there. -/
theorem abs_middle_sub_half_le (hlow0 : 0 ≤ toReal low) (hlarge : 1 / 2 ^ 40 ≤ toReal high) :
    |toReal ((low + high) * 0.5) - (toReal low + toReal high) / 2| ≤ toReal high / 2 ^ 52 := by
  have hsum : IsNearest (low + high) (toReal low + toReal high) :=
    isNearest_add_of_isFinite (isFinite_of_mul hfinite).1
  have hmiddle := nearest_middle hfinite
  have hunit : (1 : ℝ) / 2 ^ 1075 ≤ toReal high / 2 ^ 53 := by
    rw [le_div_iff₀ (by positivity)]
    refine le_trans ?_ hlarge
    rw [div_mul_eq_mul_div, one_mul, div_le_div_iff₀ (by positivity) (by positivity), ← pow_add,
      one_mul]
    exact pow_le_pow_right₀ (by norm_num) (by norm_num)
  have hto : toReal (low + high) ≤ 2 * toReal high := hsum.le_twice (finite_of_middle hfinite).2
    (show toReal low + toReal high ≤ 2 * toReal high by linarith)
  have hfrom : 0 ≤ toReal (low + high) := hsum.nonneg (by linarith)
  have hsumError :
      |toReal (low + high) - (toReal low + toReal high)| ≤ 2 * toReal high / 2 ^ 53 := by
    refine hsum.error.trans (max_le ?_ (hunit.trans ?_))
    · rw [abs_of_nonneg (by linarith)]
      gcongr
      linarith
    · gcongr
      linarith
  have hmiddleError : |toReal ((low + high) * 0.5) - toReal (low + high) / 2| ≤
      toReal high / 2 ^ 53 := by
    refine hmiddle.error.trans (max_le ?_ hunit)
    rw [abs_of_nonneg (by linarith)]
    gcongr
    linarith
  rw [abs_le] at hsumError hmiddleError ⊢
  constructor <;> linarith

end

end ThemeTokens.Double
