import ThemeTokens.Color.Blend
import ThemeTokens.Token.Palette

/-!
# Synthesis

A draft completed to a token set. Declared slots keep their values; a missing slot is derived from
declared ones where the theme gives a relation, and otherwise comes from the palette of the theme's
accent.
-/
namespace ThemeTokens.Draft
variable {R : Type} [Number R]

/-- The accent of a theme that declares none. -/
def fallbackAccent : Color R := Color.solid 0x35 0x84 0xE4

def neutralLight : Color R := Color.solid 0xFA 0xFA 0xFA

def neutralDark : Color R := Color.solid 0x24 0x24 0x24

/-- A background that the text of a theme can be read on. -/
def surfaceForText (content : Color R) : Color R :=
  if content.luminance < 0.5 then neutralLight else neutralDark

/-- The window background of the light palette. -/
def surfaceForAccent (accent : Color R) : Color R :=
  Palette.draftColor (accent.withAlpha 1.0) .light .surfacesPrimary

/-- The opaque window background that everything else is synthesised for. -/
def surface (d : Draft R) : Color R :=
  let declared := (d.color .surfacesPrimary).or (d.color .surfacesSecondary)
  let found := match declared, d.color .contentPrimary, d.color .accentsPrimary with
    | some c, _, _ => c
    | none, some content, _ => surfaceForText content
    | none, none, some accent => surfaceForAccent accent
    | none, none, none => neutralLight
  found.withAlpha 1.0

def variant (d : Draft R) : Variant := Variant.ofSurface d.surface

def accent (d : Draft R) : Color R :=
  (((d.color .accentsPrimary).or (d.color .contentLink)).or (d.color .statesFocusRing)).getD
    fallbackAccent

/-- What missing slots are derived from. -/
structure Basis (R : Type) where
  surface : Color R
  variant : Variant
  accent : Color R
  content : Color R
  link : Color R
  /-- The main text, if the theme declares it. -/
  inverse : Option (Color R)

def basis (d : Draft R) (base : TokenSet R) : Basis R where
  surface := d.surface
  variant := d.variant
  accent := d.accent
  content := (d.color .contentPrimary).getD (base.color .contentPrimary)
  link := (d.color .contentLink).getD d.accent
  inverse := d.color .contentPrimary

/-- The value that a missing slot takes from the rest of the theme, if the theme gives one. -/
def Basis.derived? (b : Basis R) : ColorSlot → Option (Color R)
  | .surfacesPrimary | .contentInverse => some b.surface
  | .surfacesSecondary => some b.surface.alternate
  | .surfacesTertiary => some b.surface.hover
  | .surfacesElevated =>
    some (b.surface.shiftLightness (if b.variant.isDark then 0.05 else 0.02))
  | .surfacesInverse => b.inverse
  | .contentPrimary => some b.content
  | .contentSecondary => some (b.content.mix b.surface 0.25)
  | .contentTertiary => some (b.content.mix b.surface 0.45)
  | .contentLink | .accentsPrimary | .statesFocusRing => some b.accent
  | .contentLinkVisited =>
    some (Color.ofOklch (b.link.toOklch.rotateHue Palette.visitedHueOffset))
  | .accentsPrimaryContainer =>
    let p := b.accent.toOklch
    let lightness := if b.variant.isDark then 0.35 else 0.90
    some (Color.ofOklch ((p.withLightness lightness).withChroma (p.chroma * 0.4)))
  | .bordersSubtle => some (b.surface.mix b.content 0.12)
  | .bordersDefault => some (b.surface.mix b.content 0.22)
  | .bordersStrong => some (b.surface.mix b.content 0.40)
  | .accentsSecondary | .accentsSuccess | .accentsWarning | .accentsError => none

def complete (d : Draft R) : TokenSet R :=
  let base := Palette.tokens d.accent d.variant
  let basis := d.basis base
  Table.ofFn
    (fun slot => (d.color slot).getD ((basis.derived? slot).getD (base.color slot)))
    (fun slot =>
      match d.scalar slot with
      | some x => Number.clampOr 0.0 x
      | none => base.scalar slot)

end ThemeTokens.Draft
