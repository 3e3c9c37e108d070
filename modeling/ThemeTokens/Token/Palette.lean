import ThemeTokens.Contrast
import ThemeTokens.Token.Set

/-!
# Palettes

A whole token set from one accent. Surfaces and content are near-neutral tones of the accent's hue,
status accents have hues of their own, and content is fitted to the window background.
-/
namespace ThemeTokens.Palette
variable {R : Type} [Number R]

/-- The minimum of WCAG AA for normal text. -/
def textRatio : R := 4.5

def visitedHueOffset : R := 60.0

def secondaryHueOffset : R := 150.0

def successHue : R := 150.0

def warningHue : R := 75.0

def errorHue : R := 27.0

def tone (lightness chroma hue : R) : Color R := Color.ofOklch (Oklch.solid lightness chroma hue)

def lightColor (accent : Color R) (chroma hue : R) : ColorSlot → Color R
  | .surfacesPrimary | .contentInverse => tone 0.985 0.004 hue
  | .surfacesSecondary => tone 0.965 0.004 hue
  | .surfacesTertiary => tone 0.94 0.006 hue
  | .surfacesElevated => Color.white
  | .surfacesInverse => tone 0.27 0.01 hue
  | .contentPrimary => tone 0.22 0.01 hue
  | .contentSecondary => tone 0.40 0.01 hue
  | .contentTertiary => tone 0.50 0.008 hue
  | .contentLink | .accentsPrimary | .statesFocusRing => accent
  | .contentLinkVisited => tone 0.45 chroma (hue + visitedHueOffset)
  | .accentsPrimaryContainer => tone 0.92 (Number.min (chroma * 0.35) 0.06) hue
  | .accentsSecondary => tone 0.52 0.12 (hue + secondaryHueOffset)
  | .accentsSuccess => tone 0.55 0.15 successHue
  | .accentsWarning => tone 0.62 0.15 warningHue
  | .accentsError => tone 0.55 0.20 errorHue
  | .bordersSubtle => tone 0.91 0.005 hue
  | .bordersDefault => tone 0.85 0.006 hue
  | .bordersStrong => tone 0.62 0.008 hue

def darkColor (accent : Color R) (chroma hue : R) : ColorSlot → Color R
  | .surfacesPrimary | .contentInverse => tone 0.21 0.004 hue
  | .surfacesSecondary => tone 0.245 0.005 hue
  | .surfacesTertiary => tone 0.28 0.006 hue
  | .surfacesElevated => tone 0.30 0.006 hue
  | .surfacesInverse => tone 0.93 0.006 hue
  | .contentPrimary => tone 0.95 0.005 hue
  | .contentSecondary => tone 0.80 0.005 hue
  | .contentTertiary => tone 0.68 0.005 hue
  | .contentLink => tone 0.75 chroma hue
  | .contentLinkVisited => tone 0.72 chroma (hue + visitedHueOffset)
  | .accentsPrimary | .statesFocusRing => accent
  | .accentsPrimaryContainer => tone 0.34 (Number.min (chroma * 0.5) 0.08) hue
  | .accentsSecondary => tone 0.74 0.12 (hue + secondaryHueOffset)
  | .accentsSuccess => tone 0.75 0.15 successHue
  | .accentsWarning => tone 0.82 0.15 warningHue
  | .accentsError => tone 0.70 0.20 errorHue
  | .bordersSubtle => tone 0.30 0.005 hue
  | .bordersDefault => tone 0.36 0.006 hue
  | .bordersStrong => tone 0.52 0.008 hue

def scalar : ScalarSlot → R
  | .hoverOverlay => 0.08
  | .pressedOverlay => 0.12
  | .disabledOpacity => 0.38

/-- The content that is read on the window background. -/
def contentOnSurface : List ColorSlot :=
  [.contentPrimary, .contentSecondary, .contentTertiary, .contentLink, .contentLinkVisited]

/-- The values before content is fitted to the window background. -/
def draftColor (accent : Color R) (variant : Variant) : ColorSlot → Color R :=
  let p := accent.toOklch
  match variant with
  | .light => lightColor accent p.chroma p.hue
  | .dark => darkColor accent p.chroma p.hue

/-- The token set of an accent, whose alpha is ignored. -/
def tokens (accent : Color R) (variant : Variant) : TokenSet R :=
  let color := draftColor (accent.withAlpha 1.0) variant
  let background := color .surfacesPrimary
  Table.ofFn
    (fun slot =>
      if slot ∈ contentOnSurface then Contrast.ensure (color slot) background textRatio
      else color slot)
    scalar

end ThemeTokens.Palette
