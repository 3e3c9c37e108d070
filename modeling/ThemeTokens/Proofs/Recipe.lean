import ThemeTokens.Proofs.Color.Division
import ThemeTokens.Proofs.Origin

/-!
# Recipes

Any sequence of operations on colours, with any numbers, keeps alphas in `[0, 1]` and divides by
nothing below a billionth.
-/
namespace ThemeTokens

/-! ## Operations -/

/-- What is done to one colour. -/
inductive Adjustment (R : Type)
  | withAlpha (alpha : R)
  | shiftLightness (delta : R)
  | hover
  | pressed
  | alternate

def Adjustment.apply {R : Type} [Number R] (c : Color R) : Adjustment R → Color R
  | withAlpha alpha => c.withAlpha alpha
  | shiftLightness delta => c.shiftLightness delta
  | hover => c.hover
  | pressed => c.pressed
  | alternate => c.alternate

/-- What is made of two colours. -/
inductive Combination (R : Type)
  | layerOver
  | mix (t : R)
  | inactive
  | disabled (opacity : R)
  | ensure (minimum : R)

def Combination.apply {R : Type} [Number R] (c other : Color R) : Combination R → Color R
  | layerOver => c.layerOver other
  | mix t => c.mix other t
  | inactive => c.inactive other
  | disabled opacity => c.disabled other opacity
  | ensure minimum => Contrast.ensure c other minimum

/-- Colours that operations make from given ones, from texts and from numbers. -/
inductive Recipe (R : Type)
  | given (c : Color R)
  | channels (red green blue : UInt8) (alpha : R)
  | hex (t : Text)
  | literal (t : Text)
  | perceptual (p : Oklch R)
  | adjust (adjustment : Adjustment R) (c : Recipe R)
  | combine (combination : Combination R) (c other : Recipe R)

namespace Recipe
variable {R : Type}

def make [Number R] : Recipe R → Except MalformedColor (Color R)
  | given c => .ok c
  | channels red green blue alpha => .ok (Color.ofChannels red green blue alpha)
  | hex t => Color.ofHex t
  | literal t => Color.ofLiteral t
  | perceptual p => .ok (Color.ofOklch p)
  | adjust adjustment c => do return adjustment.apply (← c.make)
  | combine combination c other => do return combination.apply (← c.make) (← other.make)

/-- The colours that a recipe starts from. -/
def start : Recipe R → List (Color R)
  | given c => [c]
  | channels .. | hex _ | literal _ | perceptual _ => []
  | adjust _ c => c.start
  | combine _ c other => c.start ++ other.start

def texts : Recipe R → List Text
  | hex t | literal t => [t]
  | given _ | channels .. | perceptual _ => []
  | adjust _ c => c.texts
  | combine _ c other => c.texts ++ other.texts

end Recipe

variable {lib : Binary64.Elementary}

/-! ## Alphas -/

theorem Adjustment.hasOpacity_apply (adjustment : Adjustment (Double lib)) {c : Color (Double lib)}
    (hc : c.HasOpacity) : (adjustment.apply c).HasOpacity := by
  cases adjustment with
  | withAlpha alpha => exact Color.hasOpacity_withAlpha hc alpha
  | shiftLightness delta => exact Color.hasOpacity_ofOklch _
  | hover | pressed | alternate => exact Color.hasOpacity_towardMiddle _ _

theorem Combination.hasOpacity_apply (combination : Combination (Double lib))
    {c other : Color (Double lib)} (hc : c.HasOpacity) (hother : other.HasOpacity) :
    (combination.apply c other).HasOpacity := by
  cases combination with
  | layerOver => exact Color.hasOpacity_layerOver hc hother
  | mix t => exact Color.hasOpacity_ofOklch _
  | inactive => exact Color.hasOpacity_layerOver (Color.hasOpacity_withAlpha hc _) hother
  | disabled opacity =>
    exact Color.hasOpacity_layerOver (Color.hasOpacity_withAlpha hc opacity) hother
  | ensure minimum => exact Color.hasOpacity_ensure hc other minimum

/-- A recipe makes a colour with an alpha in `[0, 1]`, or fails on one of its texts. -/
theorem Recipe.make_outcome {r : Recipe (Double lib)} (hstart : ∀ c ∈ r.start, c.HasOpacity) :
    (∃ c, r.make = .ok c ∧ c.HasOpacity) ∨ ∃ t ∈ r.texts, r.make = .error ⟨t⟩ := by
  induction r with
  | given c => exact .inl ⟨c, rfl, hstart c (List.mem_singleton.2 rfl)⟩
  | channels red green blue alpha =>
    exact .inl ⟨_, rfl, Color.hasOpacity_ofChannels red green blue alpha⟩
  | hex t =>
    cases h : (Color.readHex? t.trim : Option (Color (Double lib))) with
    | some c => exact .inl ⟨c, by rw [make, Color.ofHex, h], Color.hasOpacity_readHex? h⟩
    | none => exact .inr ⟨t, List.mem_singleton.2 rfl, by rw [make, Color.ofHex, h]⟩
  | literal t =>
    cases h : (Color.readLower? t.trim.lower : Option (Color (Double lib))) with
    | some c =>
      have hread : Color.ofLiteral t = .ok c := by rw [Color.ofLiteral, h]
      exact .inl ⟨c, hread, Color.hasOpacity_ofLiteral hread⟩
    | none => exact .inr ⟨t, List.mem_singleton.2 rfl, by rw [make, Color.ofLiteral, h]⟩
  | perceptual p => exact .inl ⟨_, rfl, Color.hasOpacity_ofOklch p⟩
  | adjust adjustment d ih =>
    rcases ih hstart with ⟨c, hmake, hc⟩ | ⟨t, ht, hmake⟩
    · exact .inl ⟨_, by rw [make, hmake]; rfl, adjustment.hasOpacity_apply hc⟩
    · exact .inr ⟨t, ht, by rw [make, hmake]; rfl⟩
  | combine combination d other ihd ihother =>
    obtain ⟨hd, hother⟩ := List.forall_mem_append.1 hstart
    rcases ihd hd with ⟨c, hmake, hc⟩ | ⟨t, ht, hmake⟩
    · rcases ihother hother with ⟨c', hmake', hc'⟩ | ⟨t, ht, hmake'⟩
      · exact .inl ⟨_, by rw [make, hmake, hmake']; rfl, combination.hasOpacity_apply hc hc'⟩
      · exact .inr ⟨t, List.mem_append_right _ ht, by rw [make, hmake, hmake']; rfl⟩
    · exact .inr ⟨t, List.mem_append_left _ ht, by rw [make, hmake]; rfl⟩

/-! ## Divisions -/

section
variable {divide : Double lib → Double lib → Double lib} (h : Double.IsGuarded divide)
include h

theorem Adjustment.apply_dividing (adjustment : Adjustment (Double lib)) (c : Color (Double lib)) :
    @apply _ (Double.dividing divide) c adjustment = adjustment.apply c := by
  cases adjustment with
  | withAlpha alpha => rfl
  | shiftLightness delta => exact Double.shiftLightness_dividing h c delta
  | hover | pressed | alternate => exact Double.towardMiddle_dividing h c _

theorem Combination.apply_dividing (acc : lib.Accurate) (combination : Combination (Double lib))
    {c other : Color (Double lib)} (hc : c.HasOpacity) (hother : other.HasOpacity) :
    @apply _ (Double.dividing divide) c other combination = combination.apply c other := by
  cases combination with
  | layerOver => exact Double.layerOver_dividing h hc hother
  | mix t => exact Double.mix_dividing h c other t
  | inactive => exact Double.layerOver_dividing h (Color.hasOpacity_withAlpha hc _) hother
  | disabled opacity =>
    exact Double.layerOver_dividing h (Color.hasOpacity_withAlpha hc opacity) hother
  | ensure minimum => exact Double.ensure_dividing h acc c other minimum

/-- A recipe makes the same with any division that is right for divisors of at least `1e-9`. -/
theorem Recipe.make_dividing (acc : lib.Accurate) {r : Recipe (Double lib)}
    (hstart : ∀ c ∈ r.start, c.HasOpacity) : @make _ (Double.dividing divide) r = r.make := by
  induction r with
  | given c => simp only [make]
  | channels red green blue alpha =>
    simp only [make]
    rfl
  | hex t => simp only [make, Double.ofHex_dividing h]
  | literal t => simp only [make, Double.ofLiteral_dividing h]
  | perceptual p => simp only [make, Double.ofOklch_dividing h]
  | adjust adjustment d ih => simp only [make, ih hstart, adjustment.apply_dividing h]
  | combine combination d other ihd ihother =>
    obtain ⟨hd, hother⟩ := List.forall_mem_append.1 hstart
    simp only [make, ihd hd, ihother hother]
    rcases make_outcome hd with ⟨c, hmake, hc⟩ | ⟨t, -, hmake⟩
    · rcases make_outcome hother with ⟨c', hmake', hc'⟩ | ⟨t, -, hmake'⟩
      · simp only [hmake, hmake', ok_bind, combination.apply_dividing h acc hc hc']
      · simp only [hmake, hmake', ok_bind, error_bind]
    · simp only [hmake, error_bind]

end

/-- Whatever is done to colours with alphas in `[0, 1]`, the result has one too, and no quotient by
less than `1e-9` has a part in it. -/
theorem Recipe.make_sound (acc : lib.Accurate) {r : Recipe (Double lib)}
    (hstart : ∀ c ∈ r.start, Schema.IsFraction c.alpha) :
    ((∃ c, r.make = .ok c ∧ Schema.IsFraction c.alpha) ∨ ∃ t ∈ r.texts, r.make = .error ⟨t⟩) ∧
      ∀ divide, Double.IsGuarded divide → @make _ (Double.dividing divide) r = r.make := by
  have hopacity : ∀ c ∈ r.start, c.HasOpacity := fun c hc => (hstart c hc).2
  refine ⟨(make_outcome hopacity).imp_left ?_, fun divide h => make_dividing h acc hopacity⟩
  rintro ⟨c, hmake, hc⟩
  exact ⟨c, hmake, Schema.isFraction_of_mem hc⟩

/-- White over black, each with half of its opacity. An alpha that is no number changes nothing. -/
noncomputable def Recipe.whiteOverBlack : Recipe (Double .rounded) :=
  .combine .layerOver (.adjust (.withAlpha 0.5) (.given .white))
    (.adjust (.withAlpha 0.5) (.adjust (.withAlpha Binary64.notANumber) (.given .black)))

/-- Both are seen through, so the composite is divided by what they cover together. -/
theorem Recipe.alpha_whiteOverBlack :
    ((Color.white.withAlpha 0.5).layerOver ((Color.black.withAlpha Binary64.notANumber).withAlpha
      0.5) : Color (Double .rounded)).alpha = 0.75 := by
  decide +kernel

theorem Recipe.make_sound_whiteOverBlack :
    (∀ c ∈ whiteOverBlack.start, Schema.IsFraction c.alpha) ∧
      (∃ c, whiteOverBlack.make = .ok c ∧ c.alpha = 0.75 ∧ Schema.IsFraction c.alpha) ∧
      ∀ divide, Double.IsGuarded divide →
        @make _ (Double.dividing divide) whiteOverBlack = whiteOverBlack.make := by
  have hstart : ∀ c ∈ whiteOverBlack.start, Schema.IsFraction c.alpha := by
    intro c hc
    rcases List.mem_cons.1 hc with rfl | hc
    · exact Schema.isFraction_of_mem Color.one_mem
    · obtain rfl := List.mem_singleton.1 hc
      exact Schema.isFraction_of_mem Color.one_mem
  obtain ⟨hmade, hdivide⟩ := make_sound Binary64.Elementary.accurate_rounded hstart
  obtain ⟨c, hmake, hc⟩ := hmade.resolve_right fun ⟨t, ht, _⟩ => absurd ht List.not_mem_nil
  have halpha : c.alpha = 0.75 := by
    rw [← alpha_whiteOverBlack, ← Except.ok.inj hmake]
    rfl
  exact ⟨hstart, ⟨c, hmake, halpha, hc⟩, hdivide⟩

end ThemeTokens
