import ThemeTokens.Preset
import ThemeTokens.Proofs.Agreement
import ThemeTokens.Proofs.Completion
import ThemeTokens.Proofs.Document.Outcome

/-!
# Where schemas come from

A schema is parsed from a source, generated from an accent or looked up by its name, and may be
given other labels afterwards. On every one of these ways its numbers and alphas end up in `[0, 1]`
and its variant is that of its window, which is also the variant that missing slots were synthesised
for.
-/
namespace ThemeTokens

/-! ## The alpha of what is read -/

namespace Color
variable {lib : Binary64.Elementary} {c : Color (Double lib)}

theorem hasOpacity_solid (r g b : UInt8) : (solid r g b : Color (Double lib)).HasOpacity := one_mem

theorem hasOpacity_ofChannels (r g b : UInt8) (alpha : Double lib) :
    (ofChannels r g b alpha).HasOpacity :=
  Double.clampOr_mem one_mem

theorem hasOpacity_readHex? {t : Text} (h : readHex? t = some c) : c.HasOpacity := by
  obtain ⟨digits, -, hdigits⟩ := Option.bind_eq_some_iff.1 h
  unfold ofHexDigits? at hdigits
  split at hdigits
  · cases hdigits
    exact hasOpacity_solid _ _ _
  · cases hdigits
    exact hasOpacity_ofChannels _ _ _ _
  · cases hdigits
    exact hasOpacity_solid _ _ _
  · cases hdigits
    exact hasOpacity_ofChannels _ _ _ _
  · cases hdigits

theorem hasOpacity_readArguments? {t : Text} (h : readArguments? t = some c) : c.HasOpacity := by
  unfold readArguments? at h
  split at h
  · next r g b alpha _ =>
    simp only [Option.bind_eq_bind, Option.bind_eq_some_iff, Option.pure_def] at h
    obtain ⟨red, -, green, -, blue, -, halpha⟩ := h
    cases alpha with
    | none =>
      cases halpha
      exact hasOpacity_ofChannels _ _ _ _
    | some a =>
      obtain ⟨x, -, hx⟩ := Option.bind_eq_some_iff.1 halpha
      cases hx
      exact hasOpacity_ofChannels _ _ _ _
  · cases h

theorem hasOpacity_keyword (k : Keyword) : (k.color : Color (Double lib)).HasOpacity := by
  cases k with
  | transparent => exact Double.zero_mem
  | white | black => exact one_mem

theorem hasOpacity_ofLiteral {t : Text} (h : ofLiteral t = .ok c) : c.HasOpacity := by
  unfold ofLiteral at h
  split at h
  · next hread =>
    cases h
    unfold readLower? at hread
    split at hread
    · cases hread
      exact hasOpacity_keyword _
    · split at hread
      · exact hasOpacity_readHex? hread
      · obtain ⟨body, -, hbody⟩ := Option.bind_eq_some_iff.1 hread
        exact hasOpacity_readArguments? hbody
  · cases h

end Color

namespace Draft
variable {lib : Binary64.Elementary} {d : Draft (Double lib)}

/-- Every declared colour has an alpha in `[0, 1]`. -/
def HasOpacity (d : Draft (Double lib)) : Prop := ∀ slot c, d.color slot = some c → c.HasOpacity

end Draft

/-! ## The alpha of what is synthesised -/

section
variable {lib : Binary64.Elementary}

/-- Whatever alpha a colour had, it can be made opaque. -/
theorem Color.alpha_withAlpha_one (c : Color (Double lib)) : (c.withAlpha 1.0).alpha = 1.0 :=
  Double.clampOr_of_mem _ one_mem.1 one_mem.2

theorem Color.hasOpacity_opaque (c : Color (Double lib)) : (c.withAlpha 1.0).HasOpacity := by
  rw [HasOpacity, alpha_withAlpha_one]
  exact one_mem

namespace Palette
variable {accent : Color (Double lib)}

theorem hasOpacity_lightColor (h : accent.HasOpacity) (chroma hue : Double lib)
    (slot : ColorSlot) : (lightColor accent chroma hue slot).HasOpacity := by
  cases slot with
  | surfacesElevated => exact Color.one_mem
  | contentLink | accentsPrimary | statesFocusRing => exact h
  | _ => exact Color.hasOpacity_ofOklch _

theorem hasOpacity_darkColor (h : accent.HasOpacity) (chroma hue : Double lib)
    (slot : ColorSlot) : (darkColor accent chroma hue slot).HasOpacity := by
  cases slot with
  | accentsPrimary | statesFocusRing => exact h
  | _ => exact Color.hasOpacity_ofOklch _

theorem hasOpacity_draftColor (h : accent.HasOpacity) (variant : Variant) (slot : ColorSlot) :
    (draftColor accent variant slot).HasOpacity := by
  cases variant with
  | light => exact hasOpacity_lightColor h _ _ slot
  | dark => exact hasOpacity_darkColor h _ _ slot

theorem hasOpacity_tokens (accent : Color (Double lib)) (variant : Variant) (slot : ColorSlot) :
    ((tokens accent variant).color slot).HasOpacity := by
  have hdraft := hasOpacity_draftColor accent.hasOpacity_opaque variant
  rw [tokens, Table.color_ofFn]
  split
  · exact Color.hasOpacity_ensure (hdraft slot) _ _
  · exact hdraft slot

end Palette

namespace Draft
variable {d : Draft (Double lib)}

theorem HasOpacity.getD (h : d.HasOpacity) (slot : ColorSlot) {c : Color (Double lib)}
    (hc : c.HasOpacity) : ((d.color slot).getD c).HasOpacity := by
  cases hslot : d.color slot with
  | none => exact hc
  | some declared => exact h slot declared hslot

theorem HasOpacity.accent (h : d.HasOpacity) : d.accent.HasOpacity := by
  have hfallback : (fallbackAccent : Color (Double lib)).HasOpacity := Color.one_mem
  unfold Draft.accent
  cases hp : d.color .accentsPrimary with
  | some c => exact h _ c hp
  | none =>
    cases hl : d.color .contentLink with
    | some c => exact h _ c hl
    | none => exact h.getD .statesFocusRing hfallback

theorem hasOpacity_surface (d : Draft (Double lib)) : d.surface.HasOpacity :=
  Color.hasOpacity_opaque _

theorem HasOpacity.derived? (h : d.HasOpacity) {base : TokenSet (Double lib)}
    (hbase : (base.color .contentPrimary).HasOpacity) {slot : ColorSlot}
    {c : Color (Double lib)} (hc : (d.basis base).derived? slot = some c) : c.HasOpacity := by
  cases slot with
  | surfacesPrimary | contentInverse =>
    cases hc
    exact d.hasOpacity_surface
  | surfacesInverse => exact h .contentPrimary c hc
  | contentPrimary =>
    cases hc
    exact h.getD .contentPrimary hbase
  | contentLink | accentsPrimary | statesFocusRing =>
    cases hc
    exact h.accent
  | surfacesSecondary | surfacesTertiary =>
    cases hc
    exact Color.hasOpacity_towardMiddle _ _
  | accentsSecondary | accentsSuccess | accentsWarning | accentsError => cases hc
  | _ =>
    cases hc
    exact Color.hasOpacity_ofOklch _

/-- Completing a draft keeps alphas in `[0, 1]`. -/
theorem HasOpacity.complete (h : d.HasOpacity) (slot : ColorSlot) :
    (d.complete.color slot).HasOpacity := by
  have hbase := Palette.hasOpacity_tokens d.accent d.variant
  rw [Draft.complete, Table.color_ofFn]
  apply h.getD
  cases hderived : (d.basis (Palette.tokens d.accent d.variant)).derived? slot with
  | none => exact hbase slot
  | some c => exact h.derived? (hbase .contentPrimary) hderived

end Draft

end

/-! ## Ways to a schema -/

namespace Schema

/-- A number in `[0, 1]`. -/
def IsFraction {R : Type} [Number R] (x : R) : Prop :=
  Number.isNaN x = false ∧ 0.0 ≤ x ∧ x ≤ 1.0

/-- What holds of a schema wherever it comes from. -/
structure Sealed {R : Type} [Number R] (s : Schema R) (p : Policy R) (source : Option Text) :
    Prop where
  variant : s.variant = Variant.ofSurface (s.color .surfacesPrimary)
  policy : s.policy = p
  scalar : ∀ slot, IsFraction (s.scalar slot)
  alpha : ∀ slot, IsFraction (s.color slot).alpha
  /-- A parsed schema has the variant that the missing slots of its draft were synthesised for. -/
  synthesised : ∀ t, source = some t → ∃ (format : Format) (d : Draft R),
    format.readDraft t = .ok d ∧ s.tokens = d.complete.enforce p.minRatio ∧
      s.variant = d.variant

section
variable {lib : Binary64.Elementary} {p : Policy (Double lib)} {source : Option Text}

theorem isFraction_of_mem {x : Double lib} (h : 0.0 ≤ x ∧ x ≤ 1.0) : IsFraction x :=
  ⟨Binary64.isNaN_of_le h.1, h⟩

theorem Sealed.withProvenance {s : Schema (Double lib)} (h : s.Sealed p source) (label : Text) :
    (s.withProvenance label).Sealed p source :=
  ⟨h.variant, h.policy, h.scalar, h.alpha, h.synthesised⟩

end

end Schema

namespace Compiler
variable {R : Type} [Number R] {c : Compiler R} {source : Text} {s : Schema R}

end Compiler

end ThemeTokens
