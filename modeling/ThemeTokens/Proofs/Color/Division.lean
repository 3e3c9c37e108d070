import ThemeTokens.Color.Blend
import ThemeTokens.Color.Literal
import ThemeTokens.Proofs.Color.Luminance
import ThemeTokens.Proofs.Paint

/-!
# Divisions

Arithmetic in which a quotient is anything at all unless its divisor is at least a billionth. What
a computation gives there too depends on no smaller divisor. Colours are divided by constants, by
luminances above 0.05 and by alphas that do not vanish.
-/
namespace ThemeTokens.Double
variable {lib : Binary64.Elementary}

/-- Arithmetic of doubles with another division. -/
@[reducible] def dividing (divide : Double lib → Double lib → Double lib) : Number (Double lib) :=
  { (inferInstance : Number (Double lib)) with div := divide }

/-- A division that may give anything where the divisor is below `1e-9` or no number. -/
def IsGuarded (divide : Double lib → Double lib → Double lib) : Prop :=
  ∀ x y, 1e-9 ≤ y → divide x y = x / y

/-- The constants that colour computations divide by. -/
def divisors : List (Double lib) := [100.0, 255.0, 12.92, 1.055, 2.4, 180.0, Number.pi]

theorem le_of_mem_divisors {y : Double lib} (h : y ∈ divisors) : 1e-9 ≤ y := by
  have hle : ∀ y ∈ ([100.0, 255.0, 12.92, 1.055, 2.4, 180.0, 3.141592653589793] : List Float),
      1e-9 ≤ y := by
    decide +kernel
  exact hle y h

theorem near_guard : Near 1 slip (1e-9 : Double lib) 1e-9 :=
  near_fraction (by norm_num) (by norm_num) (by norm_num)

variable {divide : Double lib → Double lib → Double lib} (h : IsGuarded divide)
include h

theorem IsGuarded.of_mem {y : Double lib} (hy : y ∈ divisors) (x : Double lib) :
    divide x y = x / y := h x y (le_of_mem_divisors hy)

/-! ## Channels -/

theorem ofByte_dividing (b : UInt8) : @Number.ofByte _ (dividing divide) b = Number.ofByte b :=
  h.of_mem (by simp [divisors]) _

theorem toLinear_dividing (x : Double lib) :
    @Transfer.toLinear _ (dividing divide) x = Transfer.toLinear x :=
  if_congr Iff.rfl (h.of_mem (by simp [divisors]) _)
    (congrArg (Number.pow · 2.4) (h.of_mem (by simp [divisors]) _))

theorem ofLinear_dividing (x : Double lib) :
    @Transfer.ofLinear _ (dividing divide) x = Transfer.ofLinear x :=
  if_congr Iff.rfl rfl (congrArg
    (fun exponent => Number.mulAdd 1.055 (Number.pow (Number.clampOr 0.0 x) exponent) (-0.055))
    (h.of_mem (by simp [divisors]) _))

theorem linear_dividing (c : Color (Double lib)) :
    @Color.linear _ (dividing divide) c = c.linear := by
  simp only [Color.linear, ofByte_dividing h, toLinear_dividing h]

theorem color_ofLinear_dividing (l : LinearRgb (Double lib)) (alpha : Double lib) :
    @Color.ofLinear _ (dividing divide) l alpha = Color.ofLinear l alpha := by
  simp only [Color.ofLinear, ofLinear_dividing h]
  rfl

theorem luminance_dividing (c : Color (Double lib)) :
    @Color.luminance _ (dividing divide) c = c.luminance := by
  simp only [Color.luminance, linear_dividing h]
  rfl

/-! ## Perceptual colours -/

theorem toOklab_dividing (p : Oklch (Double lib)) :
    @Oklch.toOklab _ (dividing divide) p = p.toOklab :=
  congrArg (fun turn => (⟨p.lightness, p.chroma * Number.cos (p.hue * turn),
      p.chroma * Number.sin (p.hue * turn), p.alpha⟩ : Oklab (Double lib)))
    (h.of_mem (by simp [divisors]) Number.pi)

theorem toOklch_dividing (p : Oklab (Double lib)) :
    @Oklab.toOklch _ (dividing divide) p = p.toOklch :=
  congrArg (fun turn => (⟨p.lightness, Number.hypot p.a p.b,
      if Number.hypot p.a p.b < Oklab.achromatic then 0.0
      else normalizeHue (Number.atan2 p.b p.a * turn), p.alpha⟩ : Oklch (Double lib)))
    (h.of_mem (y := Number.pi) (by simp [divisors]) 180.0)

theorem color_toOklab_dividing (c : Color (Double lib)) :
    @Color.toOklab _ (dividing divide) c = c.toOklab := by
  simp only [Color.toOklab, linear_dividing h]
  rfl

theorem color_toOklch_dividing (c : Color (Double lib)) :
    @Color.toOklch _ (dividing divide) c = c.toOklch := by
  simp only [Color.toOklch, color_toOklab_dividing h, toOklch_dividing h]

theorem inGamut_dividing (p : Oklch (Double lib)) :
    @Oklch.inGamut _ (dividing divide) p = p.inGamut := by
  simp only [Oklch.inGamut, toOklab_dividing h]
  rfl

omit h in
theorem bisect_dividing (fits : Double lib → Bool) (steps : ℕ) (low high : Double lib) :
    @Oklch.bisect _ (dividing divide) fits steps low high = Oklch.bisect fits steps low high := by
  induction steps generalizing low high with
  | zero => rfl
  | succ steps ih =>
    simp only [Oklch.bisect, ih]

theorem toGamut_dividing (p : Oklch (Double lib)) :
    @Oklch.toGamut _ (dividing divide) p = p.toGamut := by
  simp only [Oklch.toGamut, inGamut_dividing h, bisect_dividing]
  rfl

theorem ofOklch_dividing (p : Oklch (Double lib)) :
    @Color.ofOklch _ (dividing divide) p = Color.ofOklch p := by
  simp only [Color.ofOklch, toGamut_dividing h, toOklab_dividing h, color_ofLinear_dividing h]
  rfl

/-! ## Blending and shades -/

variable {source destination : Color (Double lib)}

/-- A composite is divided by its alpha only where that does not vanish. -/
theorem layerOver_dividing (hs : source.HasOpacity) (hd : destination.HasOpacity) :
    @Color.layerOver _ (dividing divide) source destination = source.layerOver destination := by
  have hfinite := Color.finite_compositeAlpha hs hd
  simp only [Color.layerOver, linear_dividing h, color_ofLinear_dividing h]
  refine if_congr Iff.rfl rfl (if_congr Iff.rfl rfl ?_)
  generalize Number.mulAdd destination.alpha (1.0 - source.alpha) source.alpha = alpha at hfinite
  by_cases hvanishes : alpha < (Color.vanishing : Double lib)
  · exact (if_pos hvanishes).trans (if_pos hvanishes).symm
  · have hle : 1e-9 ≤ alpha :=
      (not_lt_iff_le hfinite.isNaN_eq_false near_guard.finite.isNaN_eq_false).1 hvanishes
    have hdivide (x : Double lib) :
        @HDiv.hDiv _ _ _ (@instHDiv _ (dividing divide).toDiv) x alpha = x / alpha := h x alpha hle
    refine (if_neg hvanishes).trans (Eq.trans ?_ (if_neg hvanishes).symm)
    simp only [hdivide]
    rfl

theorem mix_dividing (c other : Color (Double lib)) (t : Double lib) :
    @Color.mix _ (dividing divide) c other t = c.mix other t := by
  simp only [Color.mix, color_toOklab_dividing h, toOklch_dividing h, ofOklch_dividing h]
  rfl

theorem shiftLightness_dividing (c : Color (Double lib)) (delta : Double lib) :
    @Color.shiftLightness _ (dividing divide) c delta = c.shiftLightness delta := by
  simp only [Color.shiftLightness, color_toOklch_dividing h, ofOklch_dividing h]
  rfl

theorem towardMiddle_dividing (c : Color (Double lib)) (delta : Double lib) :
    @Color.towardMiddle _ (dividing divide) c delta = c.towardMiddle delta := by
  simp only [Color.towardMiddle, Color.lightness, color_toOklch_dividing h,
    shiftLightness_dividing h]
  rfl

/-! ## Contrast -/

section
variable (acc : lib.Accurate)
include acc

theorem ratio_dividing (a b : Color (Double lib)) :
    @Contrast.ratio _ (dividing divide) a b = Contrast.ratio a b := by
  have hdivisor (c : Color (Double lib)) : 1e-9 ≤ c.luminance + 0.05 := by
    have hguard := @near_guard lib
    have hsum := (near_luminance acc c).add near_flare (by norm_num [slip])
    have hlight := color_light_nonneg c
    rw [le_iff hguard.finite hsum.finite]
    have hle := hguard.le
    have hge := hsum.ge
    norm_num [slip] at hle hge hlight ⊢
    linarith
  simp only [Contrast.ratio, luminance_dividing h]
  exact if_congr Iff.rfl (h _ _ (hdivisor b)) (h _ _ (hdivisor a))

theorem meets_dividing (a b : Color (Double lib)) (minimum : Double lib) :
    @Contrast.meets _ (dividing divide) a b minimum = Contrast.meets a b minimum := by
  simp only [Contrast.meets, ratio_dividing h acc]

theorem awayFrom_dividing (a b : Color (Double lib)) :
    @Contrast.Direction.awayFrom _ (dividing divide) a b = Contrast.Direction.awayFrom a b := by
  simp only [Contrast.Direction.awayFrom, luminance_dividing h, ratio_dividing h acc]
  rfl

theorem walk_dividing (candidate : Double lib → Color (Double lib))
    (background : Color (Double lib)) (minimum : Double lib) (direction : Contrast.Direction)
    (steps : ℕ) (failing : Double lib) (best : Color (Double lib)) :
    @Contrast.walk _ (dividing divide) candidate background minimum direction steps failing best =
      Contrast.walk candidate background minimum direction steps failing best := by
  induction steps generalizing failing best with
  | zero => rfl
  | succ steps ih =>
    simp only [Contrast.walk, meets_dividing h acc, ratio_dividing h acc, ih]
    rfl

theorem refine_dividing (candidate : Double lib → Color (Double lib))
    (background : Color (Double lib)) (minimum : Double lib) (steps : ℕ)
    (failing passing : Double lib) (color : Color (Double lib)) :
    @Contrast.refine _ (dividing divide) candidate background minimum steps failing passing color =
      Contrast.refine candidate background minimum steps failing passing color := by
  induction steps generalizing failing passing color with
  | zero => rfl
  | succ steps ih =>
    simp only [Contrast.refine, meets_dividing h acc, ih]
    rfl

theorem ensure_dividing (foreground background : Color (Double lib)) (minimum : Double lib) :
    @Contrast.ensure _ (dividing divide) foreground background minimum =
      Contrast.ensure foreground background minimum := by
  simp only [Contrast.ensure, meets_dividing h acc, awayFrom_dividing h acc,
    walk_dividing h acc, refine_dividing h acc, color_toOklch_dividing h, ofOklch_dividing h]
  rfl

end

/-! ## Texts -/

theorem readHex?_dividing (t : Text) :
    (@Color.readHex? _ (dividing divide) t : Option (Color (Double lib))) = Color.readHex? t := by
  have hdigits : (@Color.ofHexDigits? _ (dividing divide) : List ℕ → Option (Color (Double lib))) =
      Color.ofHexDigits? := by
    funext digits
    unfold Color.ofHexDigits?
    split
    · rfl
    · simp only [ofByte_dividing h]
      rfl
    · rfl
    · simp only [ofByte_dividing h]
      rfl
    · rfl
  simp only [Color.readHex?, hdigits]

theorem ofHex_dividing (t : Text) : (@Color.ofHex _ (dividing divide) t :
    Except MalformedColor (Color (Double lib))) = Color.ofHex t := by
  simp only [Color.ofHex, readHex?_dividing h]

theorem readArguments?_dividing (t : Text) :
    (@Color.readArguments? _ (dividing divide) t : Option (Color (Double lib))) =
      Color.readArguments? t := by
  have hpercent : (fun x => divide x 100.0) = fun x : Double lib => x / 100.0 :=
    funext (h.of_mem (by simp [divisors]))
  have halpha (t : Text) : @Color.readAlpha? _ (dividing divide) t = Color.readAlpha? t :=
    congrArg (fun scale => (Number.readPart? scale t).bind fun x : Double lib =>
      if 0.0 ≤ x ∧ x ≤ 1.0 then some x else none) hpercent
  have hchannel (t : Text) : @Color.readChannel? _ (dividing divide) t =
      Color.readChannel? (Double lib) t :=
    congrArg (fun part : Double lib → Double lib =>
      (Number.readPart? (fun x => part x * 255.0) t).bind fun x : Double lib =>
        if 0.0 ≤ x ∧ x ≤ 255.0 then some (UInt8.ofNat (Number.round x)) else none) hpercent
  simp only [Color.readArguments?, hchannel, halpha]
  rfl

theorem ofLiteral_dividing (t : Text) : (@Color.ofLiteral _ (dividing divide) t :
    Except MalformedColor (Color (Double lib))) = Color.ofLiteral t := by
  simp only [Color.ofLiteral, Color.readLower?, readHex?_dividing h, readArguments?_dividing h]
  rfl

end ThemeTokens.Double
