import ThemeTokens.Proofs.Binary64.Rounding

/-!
# Arithmetic of doubles

Each operation gives a double nearest to the exact result, as long as that stays in range.
-/
namespace ThemeTokens.Binary64
open Float.Model Float.Model.UnpackedFloat

/-! ## Nearest doubles -/

theorem value_representable {u : UnpackedFloat} (hu : Canonical u) (hf : u.isFinite) :
    ∃ n e : ℤ, |n| ≤ 2 ^ 53 ∧ -1074 ≤ e ∧ value u = n * 2 ^ e := by
  rcases u with s | _ | s | ⟨s, m, e, hm⟩
  · cases hf
  · cases hf
  · exact ⟨0, 0, by norm_num, by norm_num, by simp⟩
  · obtain ⟨hm53, he, _, _⟩ := hu
    refine ⟨s.apply m, e, ?_, he, rfl⟩
    cases s <;> simp only [Sign.apply, abs_neg, Nat.abs_cast] <;> exact_mod_cast hm53.le

theorem nearest_value {u : UnpackedFloat} (hu : Canonical u) (hf : u.isFinite) :
    Nearest u (value u) where
  canonical := hu
  isFinite := hf
  nearest n e _ _ := by
    rw [sub_self, abs_zero]
    exact abs_nonneg _
  error := by
    rw [sub_self, abs_zero]
    positivity

namespace IsNearest
variable {x y : Float} {z : ℝ}

theorem isFinite (h : IsNearest x z) : x.isFinite := Nearest.isFinite h

theorem error (h : IsNearest x z) : |floatValue x - z| ≤ max (|z| / 2 ^ 53) (1 / 2 ^ 1075) :=
  Nearest.error h

theorem error_le {bound : ℝ} (h : IsNearest x z) (hz : |z| ≤ bound)
    (hbound : 1 / 2 ^ 100 ≤ bound) : |floatValue x - z| ≤ bound / 2 ^ 53 := by
  refine h.error.trans (max_le (div_le_div_of_nonneg_right hz (by norm_num)) ?_)
  calc (1 : ℝ) / 2 ^ 1075 ≤ 1 / 2 ^ 153 :=
        one_div_le_one_div_of_le (by norm_num) (pow_le_pow_right₀ one_le_two (by norm_num))
    _ = 1 / 2 ^ 100 / 2 ^ 53 := by norm_num
    _ ≤ bound / 2 ^ 53 := div_le_div_of_nonneg_right hbound (by norm_num)

theorem nearer (h : IsNearest x z) (hy : y.isFinite) : |floatValue x - z| ≤ |floatValue y - z| := by
  obtain ⟨n, e, hn, he, hv⟩ := value_representable (canonical_unpack y.toModel) hy
  have := Nearest.nearest h n e hn he
  rwa [← hv] at this

theorem le (h : IsNearest x z) (hy : y.isFinite) (hzy : z ≤ floatValue y) :
    floatValue x ≤ floatValue y := by
  by_contra hlt
  rw [not_le] at hlt
  have := h.nearer hy
  rw [abs_of_nonneg (by linarith), abs_of_nonneg (by linarith)] at this
  linarith

theorem ge (h : IsNearest x z) (hy : y.isFinite) (hyz : floatValue y ≤ z) :
    floatValue y ≤ floatValue x := by
  by_contra hlt
  rw [not_le] at hlt
  have := h.nearer hy
  rw [abs_of_nonpos (by linarith), abs_of_nonpos (by linarith)] at this
  linarith

theorem nonneg (h : IsNearest x z) (hz : 0 ≤ z) : 0 ≤ floatValue x := by
  by_contra hlt
  rw [not_le] at hlt
  have := Nearest.nearest h 0 0 (by norm_num) (by norm_num)
  change |floatValue x - z| ≤ _ at this
  rw [abs_of_nonpos (by linarith), abs_of_nonpos (by simpa using hz)] at this
  simp at this
  linarith

/-- What is nearest to the value of a double has that value. -/
theorem exact {n e : ℤ} (h : IsNearest x (n * 2 ^ e)) (hn : |n| ≤ 2 ^ 53) (he : -1074 ≤ e) :
    floatValue x = n * 2 ^ e := by
  have := Nearest.nearest h n e hn he
  rw [sub_self, abs_zero, abs_nonpos_iff, sub_eq_zero] at this
  exact this

end IsNearest

/-! ## Operations -/

theorem apply_value (s : Sign) (m : ℕ) (e : ℤ) :
    ((s.apply m : ℤ) : ℝ) * 2 ^ e = signed s (m * 2 ^ e) := by
  cases s <;> simp [Sign.apply, signed]

theorem rounded_add {u v : UnpackedFloat} (hu : Canonical u) (hv : Canonical v) (hfu : u.isFinite)
    (hfv : v.isFinite) : Rounded (UnpackedFloat.add .binary64 u v) (value u + value v) := by
  rcases u with s | _ | s | ⟨s, m, e, hm⟩
  · cases hfu
  · cases hfu
  · rcases v with t | _ | t | ⟨t, n, f, hn⟩
    · cases hfv
    · cases hfv
    · rw [value_zero, value_zero, add_zero]
      cases s <;> cases t <;> exact (nearest_zero _).rounded
    · rw [value_zero, zero_add]
      exact (nearest_value hv hfv).rounded
  · rcases v with t | _ | t | ⟨t, n, f, hn⟩
    · cases hfv
    · cases hfv
    · rw [value_zero, add_zero]
      exact (nearest_value hu hfu).rounded
    · have hsum : value (.finite s m e hm) + value (.finite t n f hn) =
          ((s.apply (decreaseExponent m e (min e f)).1 + t.apply (decreaseExponent n f (min e f)).1
            : ℤ) : ℝ) * 2 ^ min e f := by
        rw [value_finite, value_finite]
        push_cast
        rw [add_mul, apply_value, apply_value, decreaseExponent_value m (min_le_left e f),
          decreaseExponent_value n (min_le_right e f)]
      rw [hsum]
      exact rounded_normalize _ _ _

theorem value_neg (u : UnpackedFloat) : value u.neg = -value u := by
  rcases u with s | _ | s | ⟨s, m, e, hm⟩
  · exact neg_zero.symm
  · exact neg_zero.symm
  · exact neg_zero.symm
  · cases s
    · rw [value_negative, neg_neg]
      exact value_positive hm
    · rw [value_positive]
      exact value_negative hm

theorem canonical_neg {u : UnpackedFloat} (hu : Canonical u) : Canonical u.neg := by
  cases u <;> exact hu

theorem rounded_sub {u v : UnpackedFloat} (hu : Canonical u) (hv : Canonical v) (hfu : u.isFinite)
    (hfv : v.isFinite) : Rounded (UnpackedFloat.sub .binary64 u v) (value u - value v) := by
  rcases u with s | _ | s | ⟨s, m, e, hm⟩
  · cases hfu
  · cases hfu
  · rcases v with t | _ | t | ⟨t, n, f, hn⟩
    · cases hfv
    · cases hfv
    · rw [value_zero, value_zero, sub_zero]
      cases s <;> cases t <;> exact (nearest_zero _).rounded
    · rw [value_zero, zero_sub, ← value_neg]
      exact (nearest_value (canonical_neg hv) hfv).rounded
  · rcases v with t | _ | t | ⟨t, n, f, hn⟩
    · cases hfv
    · cases hfv
    · rw [value_zero, sub_zero]
      exact (nearest_value hu hfu).rounded
    · have hsum : value (.finite s m e hm) - value (.finite t n f hn) =
          ((s.apply (decreaseExponent m e (min e f)).1 - t.apply (decreaseExponent n f (min e f)).1
            : ℤ) : ℝ) * 2 ^ min e f := by
        rw [value_finite, value_finite]
        push_cast
        rw [sub_mul, apply_value, apply_value, decreaseExponent_value m (min_le_left e f),
          decreaseExponent_value n (min_le_right e f)]
      rw [hsum]
      exact rounded_normalize _ _ _

theorem signed_mul (s t : Sign) (x y : ℝ) : signed (s * t) (x * y) = signed s x * signed t y := by
  cases s <;> cases t
  · exact (neg_mul_neg x y).symm
  · exact (neg_mul x y).symm
  · exact (mul_neg x y).symm
  · rfl

theorem signed_div (s t : Sign) (x y : ℝ) : signed (s / t) (x / y) = signed s x / signed t y := by
  cases s <;> cases t
  · exact (neg_div_neg_eq x y).symm
  · exact (neg_div y x).symm
  · exact (div_neg x).symm
  · rfl

theorem magnitude_mul (m n : ℕ) (e f : ℤ) :
    ((m * n : ℕ) : ℝ) * 2 ^ (e + f) = m * 2 ^ e * (n * 2 ^ f) := by
  rw [zpow_add₀ (by norm_num)]
  push_cast
  ring

/-- A product has at least as many digits as one of its factors, unless both are tiny. -/
theorem le_unitExponent_mul {s t : Sign} {m n : ℕ} {e f : ℤ} {hm : 0 < m} {hn : 0 < n}
    (hu : Canonical (.finite s m e hm)) (hv : Canonical (.finite t n f hn)) :
    e + f ≤ unitExponent (m * n) (e + f) := by
  have hmn : m * n ≠ 0 := (Nat.mul_pos hm hn).ne'
  obtain ⟨_, _, _, hm52⟩ := hu
  obtain ⟨_, _, _, hn52⟩ := hv
  rw [unitExponent]
  by_cases h : 2 ^ 52 ≤ m * n
  · have := (Nat.le_log2 hmn).2 h
    omega
  · have hme : e = -1074 := hm52.resolve_left fun h' =>
      h (h'.trans (Nat.le_mul_of_pos_right m hn))
    have hne : f = -1074 := hn52.resolve_left fun h' =>
      h (h'.trans (Nat.le_mul_of_pos_left n hm))
    omega

theorem rounded_mul {u v : UnpackedFloat} (hu : Canonical u) (hv : Canonical v) (hfu : u.isFinite)
    (hfv : v.isFinite) : Rounded (UnpackedFloat.mul .binary64 u v) (value u * value v) := by
  rcases u with s | _ | s | ⟨s, m, e, hm⟩
  · cases hfu
  · cases hfu
  · rw [value_zero, zero_mul]
    rcases v with t | _ | t | ⟨t, n, f, hn⟩
    · cases hfv
    · cases hfv
    · exact (nearest_zero _).rounded
    · exact (nearest_zero _).rounded
  · rcases v with t | _ | t | ⟨t, n, f, hn⟩
    · cases hfv
    · cases hfv
    · rw [value_zero, mul_zero]
      exact (nearest_zero _).rounded
    · rw [value_finite, value_finite, ← signed_mul, ← magnitude_mul]
      exact rounded_roundWithAccuracy _ (represents_exact _) (le_unitExponent_mul hu hv)

theorem represents_fraction {m n : ℕ} (hn : 0 < n) :
    Represents (ExtendedMantissa.ofMantissaAndAccuracy (m / n) (accuracyOfFraction (m % n) n))
      (m / n) := by
  have hn' : (0 : ℝ) < n := by exact_mod_cast hn
  have hdiv : (m : ℝ) / n = (m / n : ℕ) + (m % n : ℕ) / n := by
    have : (m : ℝ) = n * (m / n : ℕ) + (m % n : ℕ) := by exact_mod_cast (Nat.div_add_mod m n).symm
    field_simp
    exact this
  have hmod : ((m % n : ℕ) : ℝ) / n < 1 := by
    rw [div_lt_one hn']
    exact_mod_cast Nat.mod_lt m hn
  rw [hdiv, accuracyOfFraction]
  split
  · next h => simp [h, Represents, ExtendedMantissa.ofMantissaAndAccuracy]
  · next h =>
    have hpos : 0 < ((m % n : ℕ) : ℝ) / n := by
      have : (0 : ℝ) < (m % n : ℕ) := by exact_mod_cast Nat.pos_of_ne_zero h
      positivity
    rcases lt_trichotomy (2 * (m % n)) n with h2 | h2 | h2
    · have : ((m % n : ℕ) : ℝ) / n < 1 / 2 := by
        have : 2 * ((m % n : ℕ) : ℝ) < n := by exact_mod_cast h2
        rw [div_lt_iff₀ hn']
        linarith
      rw [compare_lt_iff_lt.2 h2]
      simp only [Represents, ExtendedMantissa.ofMantissaAndAccuracy]
      constructor <;> linarith
    · have : ((m % n : ℕ) : ℝ) / n = 1 / 2 := by
        have : 2 * ((m % n : ℕ) : ℝ) = n := by exact_mod_cast h2
        rw [div_eq_iff hn'.ne']
        linarith
      rw [compare_eq_iff_eq.2 h2, this]
      rfl
    · have : 1 / 2 < ((m % n : ℕ) : ℝ) / n := by
        have : (n : ℝ) < 2 * ((m % n : ℕ) : ℝ) := by exact_mod_cast h2
        rw [lt_div_iff₀ hn']
        linarith
      rw [compare_gt_iff_gt.2 h2]
      simp only [Represents, ExtendedMantissa.ofMantissaAndAccuracy]
      constructor <;> linarith

/-- The dividend is shifted far enough for the quotient to have all the digits that count. -/
theorem le_unitExponent_div {m n : ℕ} {d t : ℤ} (hm : 0 < m) (hn : 0 < n)
    (ht : t = min d (Format.binary64.targetExponent (m.log2 - n.log2 + d))) :
    t ≤ unitExponent ((m <<< (d - t).toNat) / n) t := by
  rw [unitExponent]
  rcases le_or_gt t (-1074) with h | h
  · omega
  · simp only [Format.targetExponent, mantissaBits_binary64, Format.minExponent] at ht
    norm_num at ht
    have hbig : 2 ^ 52 ≤ (m <<< (d - t).toNat) / n := by
      rw [Nat.le_div_iff_mul_le hn, Nat.shiftLeft_eq]
      calc 2 ^ 52 * n ≤ 2 ^ 52 * 2 ^ (n.log2 + 1) := Nat.mul_le_mul_left _ Nat.lt_log2_self.le
        _ = 2 ^ (52 + (n.log2 + 1)) := (pow_add _ _ _).symm
        _ ≤ 2 ^ (m.log2 + (d - t).toNat) := Nat.pow_le_pow_right two_pos (by omega)
        _ = 2 ^ m.log2 * 2 ^ (d - t).toNat := pow_add _ _ _
        _ ≤ m * 2 ^ (d - t).toNat := Nat.mul_le_mul_right _ (Nat.log2_self_le hm.ne')
    have := (Nat.le_log2 (by omega)).2 hbig
    omega

theorem rounded_div_finite (s t : Sign) {m n : ℕ} {e f : ℤ} (hm : 0 < m) (hn : 0 < n) :
    Rounded (UnpackedFloat.div .binary64 (.finite s m e hm) (.finite t n f hn))
      (signed s (m * 2 ^ e) / signed t (n * 2 ^ f)) := by
  set target := min (e - f)
    (Format.binary64.targetExponent (totalExponent m e - totalExponent n f)) with htarget
  have htotal : totalExponent m e - totalExponent n f = m.log2 - n.log2 + (e - f) := by
    simp only [totalExponent]
    ring
  rw [htotal] at htarget
  set shift := (e - f - target).toNat with hshift
  have hle : target ≤ e - f := min_le_left _ _
  have hvalue : ((m <<< shift : ℕ) : ℝ) / n * 2 ^ target = m * 2 ^ e / (n * 2 ^ f) := by
    have hpow : (2 : ℝ) ^ shift * 2 ^ target = 2 ^ e / 2 ^ f := by
      rw [← zpow_natCast, ← zpow_add₀ (by norm_num), ← zpow_sub₀ (by norm_num)]
      congr 1
      omega
    rw [Nat.shiftLeft_eq]
    push_cast
    rw [mul_div_right_comm, mul_assoc, hpow]
    exact (mul_div_mul_comm _ _ _ _).symm
  rw [← signed_div, ← hvalue]
  exact rounded_roundWithAccuracy (s / t) (represents_fraction hn)
    (le_unitExponent_div hm hn htarget)

theorem rounded_div {u v : UnpackedFloat} (hu : u.isFinite) (hv : v.isFinite)
    (hv0 : value v ≠ 0) : Rounded (UnpackedFloat.div .binary64 u v) (value u / value v) := by
  rcases v with t | _ | t | ⟨t, n, f, hn⟩
  · cases hv
  · cases hv
  · exact absurd rfl hv0
  · rcases u with s | _ | s | ⟨s, m, e, hm⟩
    · cases hu
    · cases hu
    · rw [value_zero, zero_div]
      exact (nearest_zero _).rounded
    · rw [value_finite, value_finite]
      exact rounded_div_finite s t hm hn

section
variable {x y z : Float}

theorem rounds_add (hx : x.isFinite) (hy : y.isFinite) :
    Rounds (x + y) (floatValue x + floatValue y) :=
  ⟨_, rfl, rounded_add (canonical_unpack _) (canonical_unpack _) hx hy⟩

theorem isNearest_add (hx : x.isFinite) (hy : y.isFinite)
    (hrange : |floatValue x + floatValue y| < range) :
    IsNearest (x + y) (floatValue x + floatValue y) :=
  (rounds_add hx hy).isNearest hrange

theorem isNearest_sub (hx : x.isFinite) (hy : y.isFinite)
    (hrange : |floatValue x - floatValue y| < range) :
    IsNearest (x - y) (floatValue x - floatValue y) :=
  (rounded_sub (canonical_unpack _) (canonical_unpack _) hx hy).pack hrange

theorem rounds_mul (hx : x.isFinite) (hy : y.isFinite) :
    Rounds (x * y) (floatValue x * floatValue y) :=
  ⟨_, rfl, rounded_mul (canonical_unpack _) (canonical_unpack _) hx hy⟩

theorem isNearest_mul (hx : x.isFinite) (hy : y.isFinite)
    (hrange : |floatValue x * floatValue y| < range) :
    IsNearest (x * y) (floatValue x * floatValue y) :=
  (rounds_mul hx hy).isNearest hrange

theorem isNearest_div (hx : x.isFinite) (hy : y.isFinite) (hy0 : floatValue y ≠ 0)
    (hrange : |floatValue x / floatValue y| < range) :
    IsNearest (x / y) (floatValue x / floatValue y) :=
  (rounded_div hx hy hy0).pack hrange

theorem unpack_neg (x : Float) : (-x).toModel.unpack = x.toModel.unpack.neg :=
  unpack_pack (canonical_neg (canonical_unpack _))

theorem floatValue_neg (x : Float) : floatValue (-x) = -floatValue x := by
  unfold floatValue
  rw [unpack_neg, value_neg]

theorem isFinite_neg (hx : x.isFinite) : (-x).isFinite := by
  change (-x).toModel.unpack.isFinite = true
  change x.toModel.unpack.isFinite = true at hx
  rw [unpack_neg]
  cases h : x.toModel.unpack <;> rw [h] at hx <;> first | rfl | cases hx

theorem zero_unpack : (0.0 : Float).toModel.unpack = .zero .positive := rfl

theorem rounds_ofInt (n e : ℤ) :
    Rounds (if n = 0 then 0.0 else ofBinary (if n < 0 then .negative else .positive) n.natAbs e)
      (n * 2 ^ e) := by
  split
  · next h =>
    rw [h, Int.cast_zero, zero_mul]
    exact ⟨.zero .positive, rfl, (nearest_zero _).rounded⟩
  · next h =>
    have hcast : ((n.natAbs : ℕ) : ℝ) = |(n : ℝ)| := by rw [Nat.cast_natAbs, Int.cast_abs]
    have := rounds_ofBinary (if n < 0 then .negative else .positive) (by omega : 0 < n.natAbs) e
    rw [hcast] at this
    split
    · next hneg =>
      rw [if_pos hneg, signed, abs_of_neg (by exact_mod_cast hneg), neg_mul, neg_neg] at this
      exact this
    · next hpos =>
      rw [if_neg hpos, signed, abs_of_nonneg (by exact_mod_cast not_lt.1 hpos)] at this
      exact this

/-- Only the sum of a product and an addend is rounded. -/
theorem rounds_mulAdd (hx : x.isFinite) (hy : y.isFinite) (hz : z.isFinite) :
    Rounds (mulAdd x y z) (floatValue x * floatValue y + floatValue z) := by
  have hmul := @rounds_mul x y hx hy
  have hcz := canonical_unpack z.toModel
  change x.toModel.unpack.isFinite = true at hx
  change y.toModel.unpack.isFinite = true at hy
  change z.toModel.unpack.isFinite = true at hz
  have hzero (s : Sign) (h : floatValue x * floatValue y = 0) :
      Rounds (.ofModel (Float.Model.pack (UnpackedFloat.add .binary64 (.zero s)
        z.toModel.unpack))) (floatValue x * floatValue y + floatValue z) := by
    rw [h]
    exact ⟨_, rfl, @rounded_add (.zero s) _ trivial hcz rfl hz⟩
  unfold mulAdd
  cases hu : x.toModel.unpack with
  | notANumber => rw [hu] at hx; cases hx
  | infinity s => rw [hu] at hx; cases hx
  | zero s =>
    have hx0 : floatValue x = 0 := by rw [floatValue, hu, value_zero]
    cases hv : y.toModel.unpack with
    | notANumber => rw [hv] at hy; cases hy
    | infinity t => rw [hv] at hy; cases hy
    | zero t => exact hzero _ (by rw [hx0, zero_mul])
    | finite t n f hn => exact hzero _ (by rw [hx0, zero_mul])
  | finite s m e hm =>
    cases hv : y.toModel.unpack with
    | notANumber => rw [hv] at hy; cases hy
    | infinity t => rw [hv] at hy; cases hy
    | zero t => exact hzero _ (by rw [floatValue, floatValue, hv, value_zero, mul_zero])
    | finite t n f hn =>
      cases hw : z.toModel.unpack with
      | notANumber => rw [hw] at hz; cases hz
      | infinity r => rw [hw] at hz; cases hz
      | zero r =>
        have hz0 : floatValue z = 0 := by rw [floatValue, hw, value_zero]
        rw [hz0, add_zero]
        exact hmul
      | finite r k g hk =>
        have hsum : floatValue x * floatValue y + floatValue z =
            (((s * t).apply (decreaseExponent (m * n) (e + f) (min (e + f) g)).1 +
              r.apply (decreaseExponent k g (min (e + f) g)).1 : ℤ) : ℝ) * 2 ^ min (e + f) g := by
          rw [floatValue, floatValue, floatValue, hu, hv, hw, value_finite, value_finite,
            value_finite]
          push_cast
          rw [add_mul, apply_value, apply_value,
            decreaseExponent_value _ (min_le_left (e + f) g),
            decreaseExponent_value k (min_le_right (e + f) g), magnitude_mul, signed_mul]
        rw [hsum]
        exact rounds_ofInt _ _

theorem isNearest_mulAdd (hx : x.isFinite) (hy : y.isFinite) (hz : z.isFinite)
    (hrange : |floatValue x * floatValue y + floatValue z| < range) :
    IsNearest (mulAdd x y z) (floatValue x * floatValue y + floatValue z) :=
  (rounds_mulAdd hx hy hz).isNearest hrange

end

/-! ## Literals -/

theorem lt_range {z : ℝ} (h : |z| ≤ 2 ^ 64) : |z| < range :=
  h.trans_lt (pow_lt_pow_right₀ (by norm_num) (by norm_num))

/-- Whether a double is the natural number `n`, for numbers whose digits fill its mantissa. -/
def isNat (u : UnpackedFloat) (n : ℕ) : Bool :=
  match u with
  | .finite .positive m e _ => -52 ≤ e && m * 2 ^ (e + 52).toNat == n * 2 ^ 52
  | _ => false

theorem value_of_isNat {u : UnpackedFloat} {n : ℕ} (h : isNat u n) : value u = n := by
  rcases u with s | _ | s | ⟨_ | _, m, e, hm⟩
  · cases h
  · cases h
  · cases h
  · cases h
  · obtain ⟨he, h⟩ := Bool.and_eq_true_iff.1 h
    have he := of_decide_eq_true he
    have h' : (m : ℝ) * 2 ^ (e + 52).toNat = n * 2 ^ 52 := by exact_mod_cast eq_of_beq h
    rw [value_positive, ← mul_left_inj' (show (2 : ℝ) ^ 52 ≠ 0 by norm_num), ← h', mul_assoc,
      ← zpow_natCast, ← zpow_natCast, ← zpow_add₀ (by norm_num)]
    congr 2
    omega

theorem isFinite_of_isNat {u : UnpackedFloat} {n : ℕ} (h : isNat u n) : u.isFinite := by
  cases u <;> first | rfl | cases h

theorem isNat_powersOfTen (e : Fin 23) :
    isNat (Float.exactlyRepresentablePowersOfTen[e]).toModel.unpack (10 ^ e.val) := by
  revert e
  decide

theorem isNearest_toFloat {m : ℕ} (hm : m < 2 ^ 53) : IsNearest m.toUInt64.toFloat m := by
  have hn : (m.toUInt64.toNat : ℝ) = m := by
    congr 1
    simp
    omega
  have hm' : (m : ℝ) ≤ 2 ^ 64 := by
    have : (m : ℝ) < 2 ^ 53 := by exact_mod_cast hm
    linarith [show (2 : ℝ) ^ 53 ≤ 2 ^ 64 by norm_num]
  have := rounded_normalize m.toUInt64.toNat 0 .positive
  rw [Int.cast_natCast, hn, zpow_zero, mul_one] at this
  exact this.pack (lt_range (by rwa [Nat.abs_cast]))

theorem floatValue_toFloat {m : ℕ} (hm : m < 2 ^ 53) : floatValue m.toUInt64.toFloat = m := by
  have h := isNearest_toFloat hm
  have : IsNearest m.toUInt64.toFloat ((m : ℤ) * 2 ^ (0 : ℤ)) := by simpa using h
  have := this.exact (by rw [Nat.abs_cast]; exact_mod_cast hm.le) (by norm_num)
  simpa using this

/-- A literal gives the double nearest to what it writes. -/
theorem isNearest_ofScientific {m e : ℕ} (hm : m < 2 ^ 53) (he : e ≤ 22) :
    IsNearest (OfScientific.ofScientific m true e : Float) (m / 10 ^ e) := by
  have hpower := isNat_powersOfTen ⟨e, by omega⟩
  have hsize : e < Float.exactlyRepresentablePowersOfTen.size := Nat.lt_succ_of_le he
  have hten : floatValue (Float.exactlyRepresentablePowersOfTen[e]) = (10 ^ e : ℕ) :=
    value_of_isNat hpower
  have hone : (1 : ℝ) ≤ 10 ^ e := one_le_pow₀ (by norm_num)
  have hm' : (m : ℝ) < 2 ^ 53 := by exact_mod_cast hm
  push_cast at hten
  change IsNearest (Float.ofScientific m true e) _
  unfold Float.ofScientific
  rw [dif_pos ⟨hm, he⟩, if_pos rfl, ← floatValue_toFloat hm, ← hten]
  refine isNearest_div (isNearest_toFloat hm).isFinite (isFinite_of_isNat hpower) ?_ ?_
  · rw [hten]
    positivity
  · rw [hten, floatValue_toFloat hm]
    refine lt_range ?_
    rw [abs_of_nonneg (by positivity), div_le_iff₀ (by positivity)]
    nlinarith

theorem floatValue_ofNat {n : ℕ} (hn : n < 2 ^ 53) :
    (Float.ofNat n).isFinite ∧ floatValue (Float.ofNat n) = n := by
  have hone := isNat_powersOfTen 0
  have hten := value_of_isNat hone
  have hn' : (n : ℝ) < 2 ^ 53 := by exact_mod_cast hn
  have heq : Float.ofNat n =
      n.toUInt64.toFloat * Float.exactlyRepresentablePowersOfTen[(0 : Fin 23)] := by
    change Float.ofScientific n false 0 = _
    unfold Float.ofScientific
    rw [dif_pos ⟨hn, by norm_num⟩, if_neg (by decide)]
    rfl
  have h := @isNearest_mul n.toUInt64.toFloat _ (isNearest_toFloat hn).isFinite
    (isFinite_of_isNat hone)
  rw [← heq, floatValue_toFloat hn, floatValue, hten] at h
  have h := h (lt_range (by
    rw [abs_of_nonneg (by positivity)]
    norm_num
    linarith))
  have : IsNearest (Float.ofNat n) ((n : ℤ) * 2 ^ (0 : ℤ)) := by simpa using h
  refine ⟨h.isFinite, ?_⟩
  have := this.exact (by rw [Nat.abs_cast]; exact_mod_cast hn.le) (by norm_num)
  simpa using this
end ThemeTokens.Binary64
