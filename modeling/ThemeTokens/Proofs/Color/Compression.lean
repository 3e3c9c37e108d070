import Mathlib.Data.List.Basic
import ThemeTokens.Color.Perceptual

/-!
# The search for chroma

What can be said of gamut mapping over any arithmetic. The gamut need be neither convex nor monotone
in chroma: the search keeps a chroma that was found to fit below one that was found not to.
-/
namespace ThemeTokens
variable {R : Type} [Number R]

theorem Number.nonneg_nonneg (x : R) : nonneg (nonneg x) = nonneg x := by
  rcases em (0.0 < x) with hpos | hpos
  · rw [show nonneg x = x from if_pos hpos]
    exact if_pos hpos
  · rw [show nonneg x = 0.0 from if_neg hpos]
    exact ite_self _

theorem LinearRgb.inGamut_iff {rgb : LinearRgb R} : rgb.inGamut = true ↔
    (-gamutSlack ≤ rgb.red ∧ rgb.red ≤ 1.0 + gamutSlack) ∧
      (-gamutSlack ≤ rgb.green ∧ rgb.green ≤ 1.0 + gamutSlack) ∧
      (-gamutSlack ≤ rgb.blue ∧ rgb.blue ≤ 1.0 + gamutSlack) := by
  simp only [inGamut, Bool.and_eq_true, decide_eq_true_eq, and_assoc]

namespace Oklch
variable {p : Oklch R}

/-- What the search starts from: the nearest lightness in `[0, 1]`, and a chroma from zero on. -/
def bounded (p : Oklch R) : Oklch R :=
  { p with lightness := Number.clampOr 0.0 p.lightness, chroma := Number.nonneg p.chroma }

/-- Whether sRGB holds the colour when it has the given chroma. -/
def fits (p : Oklch R) (chroma : R) : Bool := (p.bounded.withChroma chroma).inGamut

theorem toGamut_eq (p : Oklch R) : p.toGamut = if p.bounded.inGamut then p.bounded else
    { p.bounded with chroma := bisect p.fits chromaSteps 0.0 p.bounded.chroma } := rfl

theorem toGamut_lightness (p : Oklch R) :
    p.toGamut.lightness = Number.clampOr 0.0 p.lightness := by
  rw [toGamut_eq]
  split <;> rfl

theorem toGamut_hue (p : Oklch R) : p.toGamut.hue = p.hue := by
  rw [toGamut_eq]
  split <;> rfl

theorem toGamut_alpha (p : Oklch R) : p.toGamut.alpha = p.alpha := by
  rw [toGamut_eq]
  split <;> rfl

theorem fits_bounded (p : Oklch R) : p.fits p.bounded.chroma = p.bounded.inGamut := by
  rw [fits, withChroma, bounded, Number.nonneg_nonneg]

/-- Without chroma there is nothing to reduce. -/
theorem pos_of_misses {chroma : R} (hgrey : p.fits 0.0 = true) (h : p.fits chroma = false) :
    0.0 < chroma := by
  by_contra hpos
  have hzero : p.fits chroma = p.fits 0.0 := by
    rw [fits, fits, withChroma, withChroma, show Number.nonneg chroma = 0.0 from if_neg hpos,
      show Number.nonneg (0.0 : R) = 0.0 from ite_self _]
  rw [hzero, hgrey] at h
  cases h

/-! ## Halving -/

/-- A property of the two ends that every halving keeps, whichever end moves, holds at the end of
the search. -/
theorem bisect_invariant {fits : R → Bool} {P : ℕ → R → R → Prop}
    (hit : ∀ {n low high}, P (n + 1) low high → fits ((low + high) * 0.5) = true →
      P n ((low + high) * 0.5) high)
    (miss : ∀ {n low high}, P (n + 1) low high → fits ((low + high) * 0.5) = false →
      P n low ((low + high) * 0.5))
    {n : ℕ} {low high : R} (h : P n low high) : ∃ end', P 0 (bisect fits n low high) end' := by
  induction n generalizing low high with
  | zero => exact ⟨high, h⟩
  | succ n ih =>
    rw [bisect]
    split
    · next hfits => exact ih (hit h hfits)
    · next hmisses => exact ih (miss h (Bool.not_eq_true _ ▸ hmisses))

/-- The chromas that the search tries. -/
def probes (fits : R → Bool) : ℕ → R → R → List R
  | 0, _, _ => []
  | steps + 1, low, high =>
    let middle := (low + high) * 0.5
    middle :: if fits middle then probes fits steps middle high else probes fits steps low middle

/-- Every chroma that gamut mapping tests. -/
def tested (p : Oklch R) : List R :=
  p.bounded.chroma ::
    if p.bounded.inGamut then [] else probes p.fits chromaSteps 0.0 p.bounded.chroma

/-- With `n` halvings to go, the search is between a chroma that fits and a tested one that does
not. -/
structure Bracket (p : Oklch R) (n : ℕ) (low high : R) : Prop where
  settled : Number.nonneg low = low
  fits : p.fits low = true
  misses : p.fits high = false
  tested : high ∈ p.tested
  ahead : ∀ x ∈ probes p.fits n low high, x ∈ p.tested

namespace Bracket
variable {n : ℕ} {low high : R}

theorem start (hmisses : p.bounded.inGamut = false) (hgrey : p.fits 0.0 = true) :
    Bracket p chromaSteps 0.0 p.bounded.chroma where
  settled := ite_self _
  fits := hgrey
  misses := (fits_bounded p).trans hmisses
  tested := List.mem_cons_self
  ahead x hx := by
    rw [Oklch.tested, hmisses]
    exact List.mem_cons_of_mem _ hx

theorem hit (h : Bracket p (n + 1) low high) (hfits : p.fits ((low + high) * 0.5) = true)
    (hsettled : Number.nonneg ((low + high) * 0.5) = (low + high) * 0.5) :
    Bracket p n ((low + high) * 0.5) high := by
  have hahead := h.ahead
  rw [probes, if_pos hfits, List.forall_mem_cons] at hahead
  exact ⟨hsettled, hfits, h.misses, h.tested, hahead.2⟩

theorem miss (h : Bracket p (n + 1) low high) (hmisses : p.fits ((low + high) * 0.5) = false) :
    Bracket p n low ((low + high) * 0.5) := by
  have hahead := h.ahead
  rw [probes, hmisses, if_neg Bool.false_ne_true, List.forall_mem_cons] at hahead
  exact ⟨h.settled, h.fits, hmisses, hahead.1, hahead.2⟩

end Bracket

/-! ## The result -/

theorem toGamut_of_inGamut (h : p.bounded.inGamut = true) : p.toGamut = p.bounded := if_pos h

theorem toGamut_of_not_inGamut (h : p.bounded.inGamut = false) : p.toGamut =
    { p.bounded with chroma := bisect p.fits chromaSteps 0.0 p.bounded.chroma } := by
  rw [toGamut_eq, h, if_neg Bool.false_ne_true]

theorem reduced_of_misses (hmisses : p.bounded.inGamut = false)
    (hinside : p.toGamut.inGamut = true) : p.toGamut.chroma ≠ Number.nonneg p.chroma := by
  intro hchroma
  have hsame : p.toGamut = p.bounded := by
    rw [toGamut_of_not_inGamut hmisses] at hchroma ⊢
    rw [show bisect p.fits chromaSteps 0.0 p.bounded.chroma = p.bounded.chroma from hchroma]
  rw [hsame, hmisses] at hinside
  cases hinside

/-- What the search ends with is inside. -/
theorem Bracket.inGamut {high : R} (h : Bracket p 0 p.toGamut.chroma high)
    (hmisses : p.bounded.inGamut = false) : p.toGamut.inGamut = true := by
  have hfits := h.fits
  rw [Oklch.fits, withChroma, h.settled] at hfits
  rwa [toGamut_of_not_inGamut hmisses] at hfits ⊢

/-- A colour that sRGB holds instead of `p`, of which only the chroma and a lightness outside
`[0, 1]` are changed, and which is not changed again. -/
structure GamutMapped (p : Oklch R) : Prop where
  inGamut : p.toGamut.inGamut = true
  lightness : p.toGamut.lightness = Number.clampOr 0.0 p.lightness
  hue : p.toGamut.hue = p.hue
  alpha : p.toGamut.alpha = p.alpha
  chroma_nonneg : 0.0 ≤ p.toGamut.chroma
  chroma_le : p.toGamut.chroma ≤ Number.nonneg p.chroma
  idempotent : p.toGamut.toGamut = p.toGamut
  ofOklch : Color.ofOklch p.toGamut = Color.ofOklch p

theorem GamutMapped.of_settled (hinside : p.toGamut.inGamut = true)
    (hlightness : Number.clampOr 0.0 (Number.clampOr 0.0 p.lightness) =
      Number.clampOr 0.0 p.lightness)
    (hsettled : Number.nonneg p.toGamut.chroma = p.toGamut.chroma)
    (hnonneg : 0.0 ≤ p.toGamut.chroma) (hle : p.toGamut.chroma ≤ Number.nonneg p.chroma) :
    GamutMapped p := by
  have hbounded : p.toGamut.bounded = p.toGamut := by
    rw [bounded, hsettled, toGamut_lightness, hlightness, ← toGamut_lightness]
  have hidempotent : p.toGamut.toGamut = p.toGamut := by
    rw [toGamut_eq p.toGamut, hbounded, if_pos hinside]
  refine ⟨hinside, toGamut_lightness p, toGamut_hue p, toGamut_alpha p, hnonneg, hle, hidempotent,
    ?_⟩
  rw [Color.ofOklch, Color.ofOklch, hidempotent, toGamut_alpha]

/-- What is inside from the start keeps its chroma. -/
theorem GamutMapped.of_inGamut (hinside : p.bounded.inGamut = true)
    (hlightness : Number.clampOr 0.0 (Number.clampOr 0.0 p.lightness) =
      Number.clampOr 0.0 p.lightness)
    (hnonneg : 0.0 ≤ Number.nonneg p.chroma)
    (hle : Number.nonneg p.chroma ≤ Number.nonneg p.chroma) : GamutMapped p := by
  have hchroma : p.toGamut.chroma = Number.nonneg p.chroma :=
    congrArg chroma (toGamut_of_inGamut hinside)
  refine .of_settled ?_ hlightness ?_ (hchroma ▸ hnonneg) (hchroma ▸ hle)
  · rw [toGamut_of_inGamut hinside, hinside]
  · rw [hchroma, Number.nonneg_nonneg]

end Oklch

end ThemeTokens
