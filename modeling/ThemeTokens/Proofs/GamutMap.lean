import ThemeTokens.Proofs.Color.Chroma
import ThemeTokens.Proofs.Exact

/-!
# Gamut mapping

Whatever lightness and chroma a colour has, what comes out is a colour that sRGB holds, and the
search gives up little chroma: just above what it keeps it has seen a chroma that does not fit.
-/
namespace ThemeTokens
open Oklch

namespace Oklch
variable {R : Type} [Number R]

/-- Within `distance` of the chroma that is kept, a tested one is out of gamut. -/
def Tight (value : R → ℝ) (p : Oklch R) (distance : ℝ) : Prop :=
  ∃ x ∈ p.tested, p.fits x = false ∧ |value x - value p.toGamut.chroma| ≤ distance

end Oklch

/-! ## On exact numbers -/

namespace Exact
variable {p : Oklch Exact}

/-- The same colour over the real numbers. -/
def real (c : Oklab Exact) : Oklab ℝ :=
  ⟨toReal c.lightness, toReal c.a, toReal c.b, toReal c.alpha⟩

theorem toReal_toLinear (c : Oklab Exact) : toReal c.toLinear.red = (real c).channels.red ∧
    toReal c.toLinear.green = (real c).channels.green ∧
    toReal c.toLinear.blue = (real c).channels.blue := by
  simp only [Oklab.toLinear, Oklab.channels, Oklab.long, Oklab.medium, Oklab.short, real,
    Number.dot, toReal_mulAdd, toReal_mul, toReal_neg, toReal_ofScientific, pow_three', and_self]

/-- Greys are inside. -/
theorem fits_zero (p : Oklch Exact) : p.fits 0.0 = true := by
  set c := (p.bounded.withChroma 0.0).toOklab with hc
  have hzero : toReal (Number.nonneg (0.0 : Exact)) = 0 := by
    rw [toReal_nonneg, toReal_zero, max_self]
  have ha : |(real c).a| ≤ 0 := by
    change |toReal (Number.nonneg 0.0 * _)| ≤ 0
    rw [toReal_mul, hzero, zero_mul, abs_zero]
  have hb : |(real c).b| ≤ 0 := by
    change |toReal (Number.nonneg 0.0 * _)| ≤ 0
    rw [toReal_mul, hzero, zero_mul, abs_zero]
  have hL : (real c).lightness = max 0 (min 1 (toReal p.lightness)) := toReal_clampOr 0.0 _
  obtain ⟨hred, hgreen, hblue⟩ := toReal_toLinear c
  obtain ⟨hr, hg, hb⟩ := Oklab.channels_mem ha hb (hL ▸ le_max_left _ _)
    (hL ▸ max_le zero_le_one (min_le_left _ _)) (by norm_num)
  have inside {x : Exact} {r : ℝ} (hx : toReal x = r)
      (hr : r ∈ Set.Icc (-(15 * 0) : ℝ) (1 + 15 * 0)) :
      -LinearRgb.gamutSlack ≤ x ∧ x ≤ 1.0 + LinearRgb.gamutSlack := by
    rw [le_iff, le_iff, LinearRgb.gamutSlack, toReal_neg, toReal_add, toReal_one,
      toReal_ofScientific, hx]
    norm_num at hr ⊢
    constructor <;> linarith
  exact LinearRgb.inGamut_iff.2 ⟨inside hred hr, inside hgreen hg, inside hblue hb⟩

/-- What the search keeps on exact numbers. -/
structure Narrowing (c : ℝ) (p : Oklch Exact) (n : ℕ) (low high : Exact) : Prop
    extends Bracket p n low high where
  nonneg : 0 ≤ toReal low
  ordered : toReal low ≤ toReal high
  high_le : toReal high ≤ c
  width : toReal high - toReal low = c / 2 ^ chromaSteps * 2 ^ n

theorem toReal_middle (low high : Exact) :
    toReal ((low + high) * 0.5) = (toReal low + toReal high) / 2 := by
  rw [toReal_mul, toReal_add, toReal_ofScientific]
  norm_num
  ring

namespace Narrowing
variable {c : ℝ} {n : ℕ} {low high : Exact}

theorem hit (h : Narrowing c p (n + 1) low high) (hfits : p.fits ((low + high) * 0.5) = true) :
    Narrowing c p n ((low + high) * 0.5) high := by
  have hmiddle := toReal_middle low high
  have hnonneg := h.nonneg
  have hordered := h.ordered
  have hwidth := h.width
  rw [pow_succ] at hwidth
  refine ⟨h.toBracket.hit hfits (toReal_injective ?_), ?_, ?_, h.high_le, ?_⟩
  · rw [toReal_nonneg, hmiddle, max_eq_right (by linarith)]
  all_goals
    rw [hmiddle]
    linarith

theorem miss (h : Narrowing c p (n + 1) low high) (hmisses : p.fits ((low + high) * 0.5) = false) :
    Narrowing c p n low ((low + high) * 0.5) := by
  have hmiddle := toReal_middle low high
  have hordered := h.ordered
  have hhigh := h.high_le
  have hwidth := h.width
  rw [pow_succ] at hwidth
  refine ⟨h.toBracket.miss hmisses, h.nonneg, ?_, ?_, ?_⟩
  all_goals
    rw [hmiddle]
    linarith

theorem start (p : Oklch Exact) (hmisses : p.bounded.inGamut = false) :
    Narrowing (toReal p.bounded.chroma) p chromaSteps 0.0 p.bounded.chroma where
  toBracket := Bracket.start hmisses (fits_zero p)
  nonneg := toReal_zero.ge
  ordered := by
    rw [toReal_zero, bounded, toReal_nonneg]
    exact le_max_left _ _
  high_le := le_rfl
  width := by
    rw [toReal_zero, sub_zero, div_mul_cancel₀ _ (by positivity)]

end Narrowing

theorem exists_narrowing (hmisses : p.bounded.inGamut = false) :
    ∃ high, Narrowing (toReal p.bounded.chroma) p 0 p.toGamut.chroma high := by
  rw [toGamut_of_not_inGamut hmisses]
  exact bisect_invariant Narrowing.hit Narrowing.miss (Narrowing.start p hmisses)

theorem gamutMapped (p : Oklch Exact) : GamutMapped p := by
  cases hinside : p.bounded.inGamut with
  | true =>
    refine .of_inGamut hinside (clampOr_clampOr _ _) ?_ (le_iff.2 le_rfl)
    rw [le_iff, toReal_zero, toReal_nonneg]
    exact le_max_left _ _
  | false =>
    obtain ⟨high, h⟩ := exists_narrowing hinside
    refine .of_settled (h.inGamut hinside) (clampOr_clampOr _ _) h.settled ?_ ?_
    · rw [le_iff, toReal_zero]
      exact h.nonneg
    · exact le_iff.2 (h.ordered.trans h.high_le)

theorem tight (p : Oklch Exact) (hreduced : p.toGamut.chroma ≠ Number.nonneg p.chroma) :
    Tight toReal p (toReal p.chroma / 2 ^ chromaSteps) := by
  cases hinside : p.bounded.inGamut with
  | true => exact absurd (congrArg chroma (toGamut_of_inGamut hinside)) hreduced
  | false =>
    obtain ⟨high, h⟩ := exists_narrowing hinside
    have hpos := pos_of_misses (fits_zero p) ((fits_bounded p).trans hinside)
    rw [lt_iff, toReal_zero, bounded, toReal_nonneg, lt_max_iff, lt_self_iff_false, false_or]
      at hpos
    have hwidth := h.width
    rw [pow_zero, mul_one, bounded, toReal_nonneg, max_eq_right hpos.le] at hwidth
    refine ⟨high, h.tested, h.misses, ?_⟩
    rw [abs_of_nonneg (sub_nonneg.2 h.ordered), hwidth]

end Exact

/-! ## On doubles -/

namespace Double
open Binary64
variable {lib : Elementary} {p : Oklch (Double lib)}

/-- What the search keeps on doubles. -/
structure Narrowing (p : Oklch (Double lib)) (n : ℕ) (low high : Double lib) : Prop
    extends Bracket p n low high where
  finite : Finite low
  nonneg : 0 ≤ toReal low
  low_le : low ≤ p.bounded.chroma
  ordered : Finite high → toReal low ≤ toReal high ∧ high ≤ p.bounded.chroma

theorem zero_le_nonneg (x : Double lib) : 0.0 ≤ Number.nonneg x := by
  unfold Number.nonneg
  split
  · next hpos => exact Double.le_of_lt hpos
  · exact Double.le_refl finite_zero.isNaN_eq_false

namespace Narrowing
variable {n : ℕ} {low high : Double lib}

theorem large (h : Narrowing p n low high) (circ : lib.Circular) (hhue : Finite p.hue)
    (hfinite : Finite high) : 1 / 10 ^ 9 < toReal high := by
  by_contra hle
  have := fits_of_le circ hhue hfinite (not_lt.1 hle)
  rw [h.misses] at this
  cases this

theorem pos (h : Narrowing p n low high) (circ : lib.Circular) (hhue : Finite p.hue) :
    0.0 < high := pos_of_misses (fits_zero circ hhue) h.misses

theorem hit (circ : lib.Circular) (hhue : Finite p.hue) (h : Narrowing p (n + 1) low high)
    (hfits : p.fits ((low + high) * 0.5) = true) : Narrowing p n ((low + high) * 0.5) high := by
  have hfinite : Finite ((low + high) * 0.5) :=
    (finite_or_infinite_middle h.finite h.nonneg (h.pos circ hhue)).resolve_right fun hinfinite =>
      hinfinite.not_finite (finite_of_fits hinfinite.pos hfits)
  have hhigh := (finite_of_middle hfinite).2
  obtain ⟨hordered, hle⟩ := h.ordered hhigh
  obtain ⟨_, hmiddle⟩ := middle_between hordered hfinite
  have hpos : 0 < toReal ((low + high) * 0.5) := by
    have hlarge := h.large circ hhue hhigh
    have hlow := h.nonneg
    have herror := abs_middle_sub_half_le hordered hfinite hlow (by norm_num at hlarge ⊢; linarith)
    norm_num at hlarge herror
    linarith [(abs_le.1 herror).1]
  exact ⟨h.toBracket.hit hfits (nonneg_of_pos hfinite hpos), hfinite, hpos.le,
    Double.le_trans ((le_iff hfinite hhigh).2 hmiddle) hle, fun _ => ⟨hmiddle, hle⟩⟩

theorem miss (h : Narrowing p (n + 1) low high) (hmisses : p.fits ((low + high) * 0.5) = false) :
    Narrowing p n low ((low + high) * 0.5) := by
  refine ⟨h.toBracket.miss hmisses, h.finite, h.nonneg, h.low_le, fun hfinite => ?_⟩
  have hhigh := (finite_of_middle hfinite).2
  obtain ⟨hordered, hle⟩ := h.ordered hhigh
  obtain ⟨hlow, hmiddle⟩ := middle_between hordered hfinite
  exact ⟨hlow, Double.le_trans ((le_iff hfinite hhigh).2 hmiddle) hle⟩

theorem start (circ : lib.Circular) (hhue : Finite p.hue) (hmisses : p.bounded.inGamut = false) :
    Narrowing p chromaSteps 0.0 p.bounded.chroma where
  toBracket := Bracket.start hmisses (fits_zero circ hhue)
  finite := finite_zero
  nonneg := toReal_zero.ge
  low_le := zero_le_nonneg p.chroma
  ordered hfinite := by
    refine ⟨?_, Double.le_refl hfinite.isNaN_eq_false⟩
    exact (le_iff finite_zero hfinite).1 (zero_le_nonneg p.chroma)

end Narrowing

theorem exists_narrowing (circ : lib.Circular) (hhue : Finite p.hue)
    (hmisses : p.bounded.inGamut = false) : ∃ high, Narrowing p 0 p.toGamut.chroma high := by
  rw [toGamut_of_not_inGamut hmisses]
  exact bisect_invariant (Narrowing.hit circ hhue) Narrowing.miss
    (Narrowing.start circ hhue hmisses)

theorem gamutMapped (circ : lib.Circular) (hhue : Finite p.hue) : GamutMapped p := by
  cases hinside : p.bounded.inGamut with
  | true =>
    have hfinite : Finite (Number.nonneg p.chroma) :=
      finite_chroma_of_inGamut (p := p.bounded) hinside
    exact .of_inGamut hinside (clampOr_clampOr_zero _) (zero_le_nonneg _)
      (Double.le_refl hfinite.isNaN_eq_false)
  | false =>
    obtain ⟨high, h⟩ := exists_narrowing circ hhue hinside
    refine .of_settled (h.inGamut hinside) (clampOr_clampOr_zero _) h.settled ?_ h.low_le
    rw [le_iff finite_zero h.finite, toReal_zero]
    exact h.nonneg

/-! ## How tight the search is -/

/-- With `n` halvings to go, the bracket is as wide as `n` halvings more can make narrow, up to the
rounding of its ends. Their sum overflows only where a chroma far too large is said to fit. -/
structure Closing (c : ℝ) (p : Oklch (Double lib)) (n : ℕ) (low high : Double lib) : Prop
    extends Narrowing p n low high where
  high_finite : Finite high
  high_le : toReal high ≤ c
  room : toReal low = 0 ∨ toReal high ≤ 2 ^ 1022
  width : toReal high - toReal low ≤ c / 2 ^ chromaSteps * 2 ^ n + c / 2 ^ 51

namespace Closing
variable {c : ℝ} {n : ℕ} {low high : Double lib}

theorem finite_middle (h : Closing c p n low high) : Finite ((low + high) * 0.5) := by
  obtain ⟨hordered, _⟩ := h.ordered h.high_finite
  refine finite_halved ?_
  have hsum : Rounds (low + high) (toReal low + toReal high) := rounds_add h.finite h.high_finite
  rcases h.room with hzero | hroom
  · rw [hzero, zero_add] at hsum
    exact hsum.isFinite h.high_finite
  · refine (hsum.isNearest_of_le ?_).isFinite
    rw [abs_of_nonneg (add_nonneg h.nonneg (h.nonneg.trans hordered)), pow_succ, mul_two]
    exact add_le_add (hordered.trans hroom) hroom

theorem abs_middle_sub_le (circ : lib.Circular) (hhue : Finite p.hue) (h : Closing c p n low high) :
    |toReal ((low + high) * 0.5) - (toReal low + toReal high) / 2| ≤ toReal high / 2 ^ 52 := by
  have hlarge := h.large circ hhue h.high_finite
  refine abs_middle_sub_half_le (h.ordered h.high_finite).1 h.finite_middle h.nonneg ?_
  norm_num at hlarge ⊢
  linarith only [hlarge]

theorem hit (circ : lib.Circular) (hhue : Finite p.hue) (h : Closing c p (n + 1) low high)
    (hfits : p.fits ((low + high) * 0.5) = true) : Closing c p n ((low + high) * 0.5) high := by
  have hnext := h.toNarrowing.hit circ hhue hfits
  have herror := (abs_le.1 (h.abs_middle_sub_le circ hhue)).1
  have hhigh := h.high_le
  have hwidth := h.width
  rw [pow_succ] at hwidth
  refine ⟨hnext, h.high_finite, h.high_le, Or.inr ?_, by linarith only [herror, hwidth, hhigh]⟩
  -- what fits is far below the range of doubles, and the upper end is hardly more than twice that
  have hmiddle : |toReal (Number.nonneg ((low + high) * 0.5))| ≤ 2 ^ 520 :=
    abs_chroma_le (p := p.bounded.withChroma ((low + high) * 0.5)) circ
      (inUnit_clampOr_zero p.lightness) hhue hfits
  rw [hnext.settled, abs_of_nonneg hnext.nonneg] at hmiddle
  have hlow := h.nonneg
  calc toReal high ≤ 4 * toReal ((low + high) * 0.5) := by
        have := h.nonneg.trans (h.ordered h.high_finite).1
        linarith only [herror, hlow, this]
    _ ≤ 2 ^ 2 * 2 ^ 520 := mul_le_mul (by norm_num) hmiddle hnext.nonneg (by norm_num)
    _ ≤ 2 ^ 1022 := by
      rw [← pow_add]
      exact pow_le_pow_right₀ one_le_two (by norm_num)

theorem miss (circ : lib.Circular) (hhue : Finite p.hue) (h : Closing c p (n + 1) low high)
    (hmisses : p.fits ((low + high) * 0.5) = false) : Closing c p n low ((low + high) * 0.5) := by
  have herror := (abs_le.1 (h.abs_middle_sub_le circ hhue)).2
  have hhigh := h.high_le
  have hwidth := h.width
  rw [pow_succ] at hwidth
  obtain ⟨_, hle⟩ := middle_between (h.ordered h.high_finite).1 h.finite_middle
  exact ⟨h.toNarrowing.miss hmisses, h.finite_middle, hle.trans hhigh, h.room.imp_right hle.trans,
    by linarith only [herror, hwidth, hhigh]⟩

end Closing

theorem tight (circ : lib.Circular) (hhue : Finite p.hue) (hchroma : Finite p.chroma)
    (hreduced : p.toGamut.chroma ≠ Number.nonneg p.chroma) :
    Tight toReal p (toReal p.chroma / 2 ^ chromaSteps + toReal p.chroma / 2 ^ 51) := by
  cases hinside : p.bounded.inGamut with
  | true => exact absurd (congrArg chroma (toGamut_of_inGamut hinside)) hreduced
  | false =>
    have hstart := Narrowing.start circ hhue hinside
    have hfinite : Finite p.bounded.chroma := finite_nonneg hchroma
    have hpos := hstart.large circ hhue hfinite
    have hvalue : toReal p.bounded.chroma = toReal p.chroma := by
      rw [bounded, Double.toReal_nonneg hchroma] at hpos ⊢
      have := (lt_max_iff.1 hpos).resolve_left (by norm_num)
      exact max_eq_right (this.trans' (by norm_num)).le
    rw [hvalue] at hpos
    have hpositive : 0 < toReal p.chroma := hpos.trans' (by norm_num)
    have hclosing : Closing (toReal p.chroma) p chromaSteps 0.0 p.bounded.chroma := by
      refine ⟨hstart, hfinite, hvalue.le, Or.inl toReal_zero, ?_⟩
      rw [toReal_zero, hvalue, sub_zero, div_mul_cancel₀ _ (by positivity)]
      exact le_add_of_nonneg_right (by positivity)
    have hend : ∃ high, Closing (toReal p.chroma) p 0 p.toGamut.chroma high := by
      rw [toGamut_of_not_inGamut hinside]
      exact bisect_invariant (Closing.hit circ hhue) (Closing.miss circ hhue) hclosing
    obtain ⟨high, h⟩ := hend
    have hwidth := h.width
    rw [pow_zero, mul_one] at hwidth
    refine ⟨high, h.tested, h.misses, ?_⟩
    rwa [abs_of_nonneg (sub_nonneg.2 (h.ordered h.high_finite).1)]

end Double

/-! ## Both -/

/-- What comes out is inside and otherwise what went in, for exact numbers and for doubles of any
lightness and chroma. On doubles the search is as tight as on exact numbers up to rounding. -/
theorem Oklch.gamutMapping_tight :
    (∀ p : Oklch Exact, GamutMapped p ∧ (p.toGamut.chroma ≠ Number.nonneg p.chroma →
      Tight Exact.toReal p (Exact.toReal p.chroma / 2 ^ 24))) ∧
    ∀ {lib : Binary64.Elementary}, lib.Circular → ∀ p : Oklch (Double lib), Double.Finite p.hue →
      GamutMapped p ∧ (Double.Finite p.chroma → p.toGamut.chroma ≠ Number.nonneg p.chroma →
        Tight Double.toReal p
          (Double.toReal p.chroma / 2 ^ 24 + Double.toReal p.chroma / 2 ^ 51)) :=
  ⟨fun p => ⟨Exact.gamutMapped p, Exact.tight p⟩, fun circ _ hhue =>
    ⟨Double.gamutMapped circ hhue, Double.tight circ hhue⟩⟩

/-- A colour far outside. -/
noncomputable def Exact.vivid : Oklch Exact := ⟨0.5, 2.0, 0.0, 1.0⟩

theorem Exact.vivid_outside : Exact.vivid.bounded.inGamut = false := by
  rw [← Bool.not_eq_true]
  intro hinside
  have hred := (LinearRgb.inGamut_iff.1 hinside).1.2
  have hL : toReal vivid.bounded.toOklab.lightness = 1 / 2 := by
    change toReal (Number.clampOr 0.0 (0.5 : Exact)) = 1 / 2
    rw [toReal_clampOr, toReal_ofScientific]
    norm_num
  have hangle : toReal ((0.0 : Exact) * (Number.pi / 180.0)) = 0 := by
    rw [toReal_mul, toReal_zero, zero_mul]
  have hchroma : toReal (Number.nonneg (2.0 : Exact)) = 2 := by
    rw [toReal_nonneg, toReal_ofScientific]
    norm_num
  have ha : toReal vivid.bounded.toOklab.a = 2 := by
    change toReal (Number.nonneg 2.0) * Real.cos (toReal ((0.0 : Exact) * (Number.pi / 180.0))) = 2
    rw [hchroma, hangle, Real.cos_zero, mul_one]
  have hb : toReal vivid.bounded.toOklab.b = 0 := by
    change toReal (Number.nonneg 2.0) * Real.sin (toReal ((0.0 : Exact) * (Number.pi / 180.0))) = 0
    rw [hangle, Real.sin_zero, mul_zero]
  rw [le_iff, (toReal_toLinear _).1, LinearRgb.gamutSlack, toReal_add, toReal_one,
    toReal_ofScientific, Oklab.channels, Oklab.long, Oklab.medium, Oklab.short, real] at hred
  dsimp only at hred
  rw [hL, ha, hb] at hred
  norm_num at hred

/-- No lightness, and a chroma of which no cube is a double. -/
noncomputable def Double.blinding : Oklch (Double .rounded) :=
  ⟨Binary64.notANumber, Binary64.ofBinary .positive 1 600, 0.0, 1.0⟩

theorem Double.toReal_blinding : Finite blinding.chroma ∧ toReal blinding.chroma = 2 ^ 600 := by
  have hrange : ((1 : ℕ) : ℝ) * 2 ^ (600 : ℤ) < Binary64.range := by
    rw [Nat.cast_one, one_mul, zpow_ofNat, Binary64.range]
    exact pow_lt_pow_right₀ one_lt_two (by norm_num)
  have hnear := Binary64.isNearest_ofBinary .positive Nat.one_pos 600 hrange
  rw [Binary64.signed, Nat.cast_one, ← Int.cast_one] at hnear
  have hvalue := hnear.exact (by norm_num) (by norm_num)
  refine ⟨hnear.isFinite, hvalue.trans ?_⟩
  rw [Int.cast_one, one_mul, zpow_ofNat]

theorem Double.blinding_outside : Double.blinding.bounded.inGamut = false := by
  obtain ⟨hfinite, hvalue⟩ := toReal_blinding
  rw [← Bool.not_eq_true]
  intro hinside
  have hle : |toReal (Number.nonneg blinding.chroma)| ≤ 2 ^ 520 :=
    abs_chroma_le (p := blinding.bounded) Binary64.Elementary.circular_rounded
      (inUnit_clampOr_zero blinding.lightness) finite_zero hinside
  rw [toReal_nonneg hfinite, hvalue, max_eq_right (by positivity), abs_of_pos (by positivity)]
    at hle
  exact absurd hle (not_le.2 (pow_lt_pow_right₀ one_lt_two (by norm_num)))

theorem Oklch.gamutMapping_tight_blinding :
    Exact.vivid.toGamut.chroma ≠ Number.nonneg Exact.vivid.chroma ∧
      Tight Exact.toReal Exact.vivid (Exact.toReal Exact.vivid.chroma / 2 ^ 24) ∧
      Binary64.Elementary.rounded.Circular ∧ Double.Finite Double.blinding.hue ∧
      Double.Finite Double.blinding.chroma ∧
      Double.blinding.toGamut.chroma ≠ Number.nonneg Double.blinding.chroma ∧
      GamutMapped Double.blinding ∧
      Tight Double.toReal Double.blinding (Double.toReal Double.blinding.chroma / 2 ^ 24 +
        Double.toReal Double.blinding.chroma / 2 ^ 51) := by
  obtain ⟨hexact, hdouble⟩ := Oklch.gamutMapping_tight
  have circ := Binary64.Elementary.circular_rounded
  have hhue : Double.Finite Double.blinding.hue := Double.finite_zero
  have hchroma := Double.toReal_blinding.1
  obtain ⟨hvivid, htight⟩ := hexact Exact.vivid
  obtain ⟨hblinding, htight'⟩ := hdouble circ Double.blinding hhue
  have hvividReduced := reduced_of_misses Exact.vivid_outside hvivid.inGamut
  have hblindingReduced := reduced_of_misses Double.blinding_outside hblinding.inGamut
  exact ⟨hvividReduced, htight hvividReduced, circ, hhue, hchroma, hblindingReduced, hblinding,
    htight' hchroma hblindingReduced⟩

end ThemeTokens
