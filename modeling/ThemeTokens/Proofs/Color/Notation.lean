import Mathlib
import ThemeTokens.Proofs.Binary64.Tie
import ThemeTokens.Proofs.Color.Literal
import ThemeTokens.Proofs.Exact
import ThemeTokens.Proofs.Paint

/-!
# Functional notation there and back

A colour in functional notation is read as the one with the nearest thousandth of its alpha, which
from then on is kept. An alpha next to one becomes one, and then the notation has no alpha at all.
-/
namespace ThemeTokens

/-! ## Doubles of one value -/

namespace Binary64

/-- Only of zero there are two. -/
theorem eq_of_floatValue {x y : Float} (hx : x.isFinite) (hy : y.isFinite) (hpos : 0 < floatValue x)
    (h : floatValue x = floatValue y) : x = y := by
  have hcx := canonical_unpack x.toModel
  have hcy := canonical_unpack y.toModel
  obtain ⟨m, e, hm, hu⟩ := unpack_of_value_pos hx hpos
  obtain ⟨n, f, hn, hv⟩ := unpack_of_value_pos hy (h ▸ hpos)
  rw [floatValue, floatValue, hu, hv, value_positive, value_positive] at h
  rw [hu] at hcx
  rw [hv] at hcy
  have hcompare := compare_magnitude hcx hcy
  rw [compare_eq_iff_eq.2 h, Ordering.then_eq_eq, compare_eq_iff_eq, compare_eq_iff_eq] at hcompare
  have hunpack : x.toModel.unpack = y.toModel.unpack := by
    rw [hu, hv]
    exact finite_congr hcompare.2 hcompare.1
  have hbits := (Float.Model.UnpackedFloat.unpack_inj_of_valid x.toModel.valid y.toModel.valid).1
    hunpack
  exact Float.toBits_inj.1 (UInt64.toBitVec_inj.1 hbits)

end Binary64

/-! ## Zeros that say nothing -/

namespace Numeral

theorem read?_positional (negative : Bool) (k : Nat) {p : Nat} (hp : 0 < p) :
    read? (positional ⟨negative, k, -(p : Int)⟩) = some ⟨negative, k, -(p : Int)⟩ := by
  obtain ⟨whole, places, h, hlength, hvalue, htext⟩ := positional_places negative k hp
  have hne : places ≠ [] := List.ne_nil_of_length_pos (hlength ▸ hp)
  have hread := read?_digits h ⟨negative, k, -(p : Int)⟩
  rw [fractionText, if_neg hne, hvalue, hlength, ← List.append_assoc] at hread
  rw [htext, hread]

theorem value_shift {negative : Bool} {m zeros p : Nat} (h : zeros ≤ p) :
    Exact.value ⟨negative, m, -((p - zeros : Nat) : Int)⟩ =
      Exact.value ⟨negative, m * 10 ^ zeros, -(p : Int)⟩ := by
  have hpower : (10 : ℝ) ^ (-((p - zeros : Nat) : Int)) = 10 ^ zeros * 10 ^ (-(p : Int)) := by
    rw [← zpow_natCast, ← zpow_add₀ (by norm_num)]
    congr 1
    omega
  simp only [Exact.value, Nat.cast_mul, Nat.cast_pow, Nat.cast_ofNat, hpower]
  ring

/-- The zeros that a compacted text lacks make no difference to its value. -/
theorem value_compact (negative : Bool) (k : Nat) {p : Nat} (hp : 0 < p) :
    ∃ m, read? (Decimal.compact (positional ⟨negative, k, -(p : Int)⟩)) = some m ∧
      Exact.value m = Exact.value ⟨negative, k, -(p : Int)⟩ := by
  obtain ⟨m, zeros, hzeros, hvalue, hread⟩ := read?_compact_positional negative k hp
  refine ⟨_, hread, ?_⟩
  rw [value_shift hzeros, hvalue]

theorem InThousandths.value {n : Numeral} (h : n.InThousandths) :
    Exact.value n = n.digits / 1000 := by
  obtain ⟨negative, k, exponent⟩ := n
  obtain rfl : exponent = -(3 : Nat) := h.exponent
  cases negative with
  | false =>
    simp only [Exact.value, Bool.false_eq_true, if_false, Nat.cast_ofNat]
    norm_num
    ring
  | true =>
    obtain rfl : k = 0 := h.sign rfl
    simp [Exact.value]

end Numeral

namespace Double
open Binary64
variable {lib : Elementary} {x : Double lib} {c : Color (Double lib)}

/-! ## Thousandths -/

section
variable (h0 : 0.0 ≤ x) (h1 : x ≤ 1.0)
include h0 h1

theorem thousandths_thousandths :
    Number.thousandths (Number.thousandths x) = Number.thousandths x := by
  obtain ⟨n, hn, -, hthousandths, -⟩ := amount_eq h0 h1
  rw [hthousandths, thousandths_ofNumeral hn]

theorem eq_one (hwhole : 1.0 ≤ x) : x = 1.0 := by
  have hfinite := finite_of_mem h0 h1
  have hlow := (le_iff finite_one hfinite).1 hwhole
  have hhigh := (le_iff hfinite finite_one).1 h1
  have hvalue : toReal x = toReal (1.0 : Double lib) := hhigh.antisymm hlow
  refine eq_of_floatValue hfinite (@finite_one lib) ?_ hvalue
  change 0 < toReal x
  rw [hvalue, toReal_one]
  exact zero_lt_one

end

theorem one_le_thousandth {k : ℕ} (hk : k ≤ 1000) (h : IsNearest x (k / 1000)) :
    1 ≤ toReal x ↔ k = 1000 := by
  constructor
  · intro hle
    have herror := (abs_le.1 (abs_sub_thousandth_le hk h)).2
    have hgt : (999 : ℝ) < k := by linarith
    have hgt' : 999 < k := by exact_mod_cast hgt
    omega
  · rintro rfl
    rw [← @toReal_one lib]
    exact h.ge finite_one ((@toReal_one lib).trans_le (by norm_num))

theorem thousandth_le_zero {k : ℕ} (hk : k ≤ 1000) (h : IsNearest x (k / 1000)) :
    toReal x ≤ 0 ↔ k = 0 := by
  constructor
  · intro hle
    have herror := (abs_le.1 (abs_sub_thousandth_le hk h)).1
    have hlt : (k : ℝ) < 1 := by linarith
    have hlt' : k < 1 := by exact_mod_cast hlt
    omega
  · rintro rfl
    rw [← @toReal_zero lib]
    exact h.le finite_zero ((by norm_num : _ = (0 : ℝ)).trans_le (@toReal_zero lib).ge)

/-! ## Reading what was written -/

/-- A colour that is read where another was written, with so many thousandths of alpha. -/
structure IsReadAs (c d : Color (Double lib)) (k : ℕ) : Prop where
  reads : Color.ofLiteral c.literalText = .ok d
  red : d.red = c.red
  green : d.green = c.green
  blue : d.blue = c.blue
  le_thousand : k ≤ 1000
  thousandths : IsThousandths (toReal c.alpha) k
  alpha : IsNearest (d.alpha : Double lib) (k / 1000)
  isOpaque : d.isOpaque = true ↔ k = 1000
  isTransparent : d.isTransparent = true ↔ k = 0
  kept : c.isOpaque = true → d = c
  /-- Writing and reading once more changes nothing. -/
  again : Color.ofLiteral d.literalText = .ok d
  /-- Without the zeros at its end the text of the alpha has the same value. -/
  text : ∃ n m, Numeral.read? (Number.placesText 3 c.alpha) = some n ∧
    Numeral.read? (Number.amount c.alpha) = some m ∧ Exact.value n = k / 1000 ∧
    Exact.value m = Exact.value n

theorem rounded_eq_self (h : c.HasOpacity) (hsolid : c.isOpaque = true) : c.rounded = c := by
  have hone := eq_one h.1 h.2 (of_decide_eq_true hsolid)
  rw [Color.rounded, thousandths_one h.1 h.2 (of_decide_eq_true hsolid), ← hone]

theorem hasOpacity_rounded (h : c.HasOpacity) : c.rounded.HasOpacity := thousandths_mem h.1 h.2

theorem rounded_rounded (h : c.HasOpacity) : c.rounded.rounded = c.rounded := by
  rw [Color.rounded, Color.rounded, thousandths_thousandths h.1 h.2]

theorem isReadAs_rounded (h : c.HasOpacity) : ∃ k, IsReadAs c c.rounded k := by
  obtain ⟨⟨negative, k, exponent⟩, hplaces, hn, hthousandths⟩ := exists_inThousandths h.1 h.2
  obtain rfl : exponent = -(3 : Nat) := hn.exponent
  have hnearest := @isNearest_ofNumeral lib _ hn
  have hvalue : Number.thousandths c.alpha = Number.ofNumeral ⟨negative, k, -(3 : Nat)⟩ := by
    rw [Number.thousandths, hplaces]
  rw [← hvalue] at hnearest
  have hmem := hasOpacity_rounded h
  have hfinite : Finite c.rounded.alpha := finite_of_mem hmem.1 hmem.2
  obtain ⟨m, hm, hsame⟩ := Numeral.value_compact negative k three_pos
  refine ⟨k, ofLiteral_literalText h.1 h.2, rfl, rfl, rfl, hn.le_thousand, hthousandths, hnearest,
    ?_, ?_, rounded_eq_self h, ?_, ⟨_, m, ?_, ?_, hn.value, hsame⟩⟩
  · rw [← one_le_thousandth hn.le_thousand hnearest, Color.isOpaque, decide_eq_true_iff,
      le_iff finite_one hfinite, toReal_one]
    rfl
  · rw [← thousandth_le_zero hn.le_thousand hnearest, Color.isTransparent, decide_eq_true_iff,
      le_iff hfinite finite_zero, toReal_zero]
    rfl
  · rw [ofLiteral_literalText hmem.1 hmem.2, rounded_rounded h]
  · rw [Number.placesText, hplaces]
    exact Numeral.read?_positional negative k three_pos
  · rw [Number.amount, Number.placesText, hplaces]
    exact hm

end Double

namespace Color
variable {lib : Binary64.Elementary}

theorem literal_roundTrip (c : Color (Double lib)) (h : c.HasOpacity) :
    ∃ d k, Double.IsReadAs c d k := ⟨c.rounded, Double.isReadAs_rounded h⟩

def almostOpaque : Color (Double .platform) := ⟨10, 20, 30, 0.9996⟩

def almostTransparent : Color (Double .platform) := ⟨10, 20, 30, 0.0004⟩

theorem literal_roundTrip_edges :
    almostOpaque.HasOpacity ∧ almostOpaque.isOpaque = false ∧
      (∃ d, Double.IsReadAs almostOpaque d 1000) ∧
    almostTransparent.HasOpacity ∧ almostTransparent.isTransparent = false ∧
      ∃ d, Double.IsReadAs almostTransparent d 0 := by
  have hhigh : almostOpaque.HasOpacity := by constructor <;> decide +kernel
  have hlow : almostTransparent.HasOpacity := by constructor <;> decide +kernel
  refine ⟨hhigh, by decide +kernel, ?_, hlow, by decide +kernel, ?_⟩
  · obtain ⟨d, k, h⟩ := literal_roundTrip almostOpaque hhigh
    have hnear : Double.Near 1 Double.slip almostOpaque.alpha 0.9996 :=
      Double.near_fraction (by norm_num) (by norm_num) (by norm_num)
    have hgt : (999 : ℝ) < k := by
      have herror := (abs_le.1 h.thousandths.error).2
      have hge := hnear.ge
      norm_num [Double.slip] at hge
      linarith
    have hgt' : 999 < k := by exact_mod_cast hgt
    obtain rfl : k = 1000 := by have := h.le_thousand; omega
    exact ⟨d, h⟩
  · obtain ⟨d, k, h⟩ := literal_roundTrip almostTransparent hlow
    have hnear : Double.Near 1 Double.slip almostTransparent.alpha 0.0004 :=
      Double.near_fraction (by norm_num) (by norm_num) (by norm_num)
    have hlt : (k : ℝ) < 1 := by
      have herror := (abs_le.1 h.thousandths.error).1
      have hle := hnear.le
      norm_num [Double.slip] at hle
      linarith
    have hlt' : k < 1 := by exact_mod_cast hlt
    obtain rfl : k = 0 := by omega
    exact ⟨d, h⟩

end Color
end ThemeTokens
