import ThemeTokens.Proofs.Binary64.Byte
import ThemeTokens.Proofs.Binary64.Tie
import ThemeTokens.Proofs.Numeral

/-!
# Three decimal places

A number in `[0, 1]` is written with at most three decimal places. What is read back is the double
nearest to the thousandth that was written.
-/
namespace ThemeTokens

/-- The number that is written with three decimal places. -/
def Number.thousandths {R : Type} [Number R] (x : R) : R :=
  match Number.toPlaces 3 x with
  | .finite n => Number.ofNumeral n
  | _ => x

/-- A numeral in thousandths, from zero to one. Zero may have a sign. -/
structure Numeral.InThousandths (n : Numeral) : Prop where
  exponent : n.exponent = -(3 : Nat)
  le_thousand : n.digits ≤ 1000
  sign : n.negative = true → n.digits = 0

namespace Binary64

/-! ## The doubles of the thousandths -/

theorem ofNumeral_places {digits places : Nat} (hd : digits ≤ 1000) (hp : places ≤ 3) :
    ofNumeral ⟨false, digits, -(places : Int)⟩ =
      if digits = 0 then 0.0
      else OfScientific.ofScientific digits (decide (-(places : Int) < 0)) places := by
  have hlength : (Text.decimal digits).length ≤ 4 :=
    (Nat.length_toDigits_le_iff (by decide) (by decide)).2 (by omega)
  have hlow : ¬ -(places : Int) + (Text.decimal digits).length < -400 := by omega
  have hhigh : ¬ 400 < -(places : Int) + (Text.decimal digits).length := by omega
  have hnatAbs : (-(places : Int)).natAbs = places := by omega
  rw [ofNumeral]
  dsimp only
  rw [if_neg hhigh, hnatAbs, if_neg Bool.false_ne_true]
  simp only [hlow, or_false]

theorem isNearest_thousandth {k : Nat} (hk : k ≤ 1000) :
    IsNearest (ofNumeral ⟨false, k, -(3 : Nat)⟩) (k / 1000) := by
  rw [ofNumeral_places hk le_rfl]
  split
  · next h =>
    rw [h, Nat.cast_zero, zero_div]
    exact nearest_zero .positive
  · have h := isNearest_ofScientific (m := k) (e := 3) (by omega) (by decide)
    norm_num at h ⊢
    exact h

/-- Zeros at the end of the places make no difference. -/
theorem ofNumeral_shift {m zeros : Nat} (hz : zeros ≤ 3) (hm : m * 10 ^ zeros ≤ 1000) :
    ofNumeral ⟨false, m, -((3 - zeros : Nat) : Int)⟩ =
      ofNumeral ⟨false, m * 10 ^ zeros, -(3 : Nat)⟩ := by
  -- at a tie two doubles are nearest to one real, so the few doubles are compared one by one
  have hone : ∀ m ≤ 100, ofNumeral ⟨false, m, -(2 : Nat)⟩ =
      ofNumeral ⟨false, m * 10 ^ 1, -(3 : Nat)⟩ := by decide +kernel
  have htwo : ∀ m ≤ 10, ofNumeral ⟨false, m, -(1 : Nat)⟩ =
      ofNumeral ⟨false, m * 10 ^ 2, -(3 : Nat)⟩ := by decide +kernel
  have hthree : ∀ m ≤ 1, ofNumeral ⟨false, m, -(0 : Nat)⟩ =
      ofNumeral ⟨false, m * 10 ^ 3, -(3 : Nat)⟩ := by decide +kernel
  obtain rfl | rfl | rfl | rfl : zeros = 0 ∨ zeros = 1 ∨ zeros = 2 ∨ zeros = 3 := by omega
  · rw [pow_zero, mul_one]
  · exact hone m (by omega)
  · exact htwo m (by omega)
  · exact hthree m (by omega)

theorem ofNumeral_negative_zero (exponent : Int) : ofNumeral ⟨true, 0, exponent⟩ = -0.0 := by
  rw [ofNumeral]
  simp

/-- Reading a compacted text of thousandths gives the double of the numeral that it writes. -/
theorem ofNumeral_compact {n : Numeral} (h : n.InThousandths) :
    ∃ m, Numeral.read? (Decimal.compact n.positional) = some m ∧ ofNumeral m = ofNumeral n := by
  obtain ⟨negative, k, exponent⟩ := n
  obtain rfl : exponent = -(3 : Nat) := h.exponent
  obtain ⟨m, zeros, hz, hvalue, hread⟩ := Numeral.read?_compact_positional negative k three_pos
  refine ⟨_, hread, ?_⟩
  cases negative with
  | false =>
    have hk : k ≤ 1000 := h.le_thousand
    rw [ofNumeral_shift hz (hvalue ▸ hk), hvalue]
  | true =>
    obtain rfl : k = 0 := h.sign rfl
    obtain rfl : m = 0 := (Nat.mul_eq_zero.1 hvalue).resolve_right (by positivity)
    rw [ofNumeral_negative_zero, ofNumeral_negative_zero]

end Binary64

namespace Double
open Binary64
variable {lib : Elementary} {x : Double lib} {n : Numeral}

theorem isNearest_ofNumeral (h : n.InThousandths) :
    IsNearest (Number.ofNumeral n : Double lib) (n.digits / 1000) := by
  obtain ⟨negative, k, exponent⟩ := n
  obtain rfl : exponent = -(3 : Nat) := h.exponent
  cases negative with
  | false => exact isNearest_thousandth h.le_thousand
  | true =>
    obtain rfl : k = 0 := h.sign rfl
    change IsNearest (Binary64.ofNumeral ⟨true, 0, -(3 : Nat)⟩) ((0 : Nat) / 1000)
    rw [ofNumeral_negative_zero, IsNearest, unpack_neg, zero_unpack, Nat.cast_zero, zero_div]
    exact nearest_zero .negative

theorem ofNumeral_mem (h : n.InThousandths) :
    0.0 ≤ (Number.ofNumeral n : Double lib) ∧ (Number.ofNumeral n : Double lib) ≤ 1.0 := by
  have hnearest := @isNearest_ofNumeral lib n h
  have hk : (n.digits : ℝ) / 1000 ≤ 1 := by
    rw [div_le_one (by norm_num)]
    exact_mod_cast h.le_thousand
  have hone : Binary64.floatValue (1.0 : Float) = 1 := @toReal_one lib
  have hlow := hnearest.nonneg (by positivity)
  have hhigh := hnearest.le (y := 1.0) (@finite_one lib) (hk.trans_eq hone.symm)
  constructor
  · rw [le_iff finite_zero hnearest.isFinite, toReal_zero]
    exact hlow
  · rw [le_iff hnearest.isFinite finite_one]
    exact hhigh

/-- The number of thousandths that is nearest to `r`; of two, the even one. -/
structure IsThousandths (r : ℝ) (k : ℕ) : Prop where
  error : |1000 * r - k| ≤ 1 / 2
  tie : |1000 * r - k| = 1 / 2 → Even k

theorem IsThousandths.le_thousand {r : ℝ} {k : ℕ} (h : IsThousandths r k) (hr : r ≤ 1) :
    k ≤ 1000 := by
  have hlow := (abs_le.1 h.error).1
  have hlt : (k : ℝ) < 1001 := by linarith
  exact Nat.le_of_lt_succ (by exact_mod_cast hlt)

theorem isThousandths_zero : IsThousandths 0 0 := by constructor <;> norm_num

theorem isThousandths_toPlaces (m : ℕ) (e : ℤ) :
    IsThousandths (m * 2 ^ e) (Decimal.toPlaces 3 m e) := by
  have hquotient : (((Decimal.fraction m e).1 * Nat.pow 10 3 : ℕ) : ℝ) / (Decimal.fraction m e).2 =
      1000 * (m * 2 ^ e) := by
    rw [← fraction_value]
    push_cast
    ring
  have hround := roundDiv_error .even ((Decimal.fraction m e).1 * Nat.pow 10 3) (fraction_pos m e)
  have htie := even_roundDiv (n := (Decimal.fraction m e).1 * Nat.pow 10 3) (fraction_pos m e)
  rw [hquotient] at hround htie
  rw [abs_sub_comm] at hround
  exact ⟨hround, htie⟩

/-- A number in `[0, 1]` is written as the thousandth nearest to it. -/
theorem exists_inThousandths (h0 : 0.0 ≤ x) (h1 : x ≤ 1.0) :
    ∃ n, Number.toPlaces 3 x = .finite n ∧ n.InThousandths ∧
      IsThousandths (toReal x) n.digits := by
  obtain ⟨hfinite, hnonneg, hle⟩ := InUnit.of_mem h0 h1
  have hunpacked : (Float.toModel x).unpack.isFinite = true := hfinite
  change ∃ n, Binary64.toPlaces 3 x = .finite n ∧ _
  unfold Binary64.toPlaces toDecimal
  cases hu : (Float.toModel x).unpack with
  | notANumber =>
    rw [hu] at hunpacked
    cases hunpacked
  | infinity s =>
    rw [hu] at hunpacked
    cases hunpacked
  | zero s =>
    have hvalue : toReal x = 0 := congrArg Binary64.value hu
    have hzero : Decimal.toPlaces 3 0 0 = 0 := by decide
    refine ⟨_, rfl, ⟨rfl, hzero.trans_le (Nat.zero_le _), fun _ => hzero⟩, ?_⟩
    change IsThousandths (toReal x) (Decimal.toPlaces 3 0 0)
    rw [hvalue, hzero]
    exact isThousandths_zero
  | finite s m e hm =>
    have hvalue : toReal x = Binary64.value (.finite s m e hm) := congrArg Binary64.value hu
    cases s with
    | negative =>
      rw [hvalue, value_negative] at hnonneg
      linarith [magnitude_pos hm e]
    | positive =>
      rw [value_positive] at hvalue
      have hthousandths := isThousandths_toPlaces m e
      rw [← hvalue] at hthousandths
      exact ⟨_, rfl, ⟨rfl, hthousandths.le_thousand hle, fun h => by cases h⟩, hthousandths⟩

theorem abs_sub_thousandth_le {k : ℕ} (hk : k ≤ 1000) (h : IsNearest x (k / 1000)) :
    |toReal x - k / 1000| ≤ 1 / 2 ^ 53 := by
  have hk' : (k : ℝ) ≤ 1000 := by exact_mod_cast hk
  exact h.error_le (by rw [abs_of_nonneg (by positivity)]; linarith) (by norm_num)

/-- What was rounded to thousandths is written as it is. -/
theorem thousandths_ofNumeral (h : n.InThousandths) :
    Number.thousandths (Number.ofNumeral n : Double lib) = Number.ofNumeral n := by
  have hmem := @ofNumeral_mem lib n h
  obtain ⟨m, hplaces, hm, hthousandths⟩ := exists_inThousandths hmem.1 hmem.2
  have hdigits : m.digits = n.digits := by
    have hnearest := abs_le.1 (abs_sub_thousandth_le h.le_thousand (@isNearest_ofNumeral lib n h))
    have herror := abs_le.1 hthousandths.error
    have hlt : |(m.digits : ℤ) - n.digits| < 1 := by
      have : |(m.digits : ℝ) - n.digits| < 1 := by
        rw [abs_lt]
        constructor <;> linarith
      exact_mod_cast this
    have := Int.abs_lt_one_iff.1 hlt
    omega
  rw [Number.thousandths, hplaces]
  obtain ⟨negative, k, exponent⟩ := n
  obtain ⟨negative', l, exponent'⟩ := m
  obtain rfl : exponent = -(3 : Nat) := h.exponent
  obtain rfl : exponent' = -(3 : Nat) := hm.exponent
  obtain rfl : l = k := hdigits
  rcases Nat.eq_zero_or_pos l with rfl | hpos
  · -- zero keeps its sign
    have hzeros : ∀ negative, Binary64.toPlaces 3 (Binary64.ofNumeral ⟨negative, 0, -(3 : Nat)⟩) =
        .finite ⟨negative, 0, -(3 : Nat)⟩ := by decide +kernel
    rw [Decimal.finite.inj ((hzeros negative).symm.trans hplaces)]
  · have hsign {i : Numeral} (hi : i.InThousandths) (h : 0 < i.digits) : i.negative = false :=
      Bool.eq_false_iff.2 fun hnegative => h.ne' (hi.sign hnegative)
    obtain rfl : negative = false := hsign h hpos
    obtain rfl : negative' = false := hsign hm hpos
    rfl

end Double
end ThemeTokens
