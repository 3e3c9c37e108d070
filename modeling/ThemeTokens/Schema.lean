import ThemeTokens.Color.Hex
import ThemeTokens.Token.Palette

/-!
# Schemas

A schema is a token set whose enforced pairs have been adjusted under a policy, with what still
looks off recorded as warnings. `finalize` is the one way to make it, and it cannot fail.
-/
namespace ThemeTokens

/-- How strictly a schema enforces that text can be read. -/
structure Policy (R : Type) where
  /-- The contrast ratio that every enforced pair should reach. -/
  minRatio : R
  /-- Accents closer than this to the window background in lightness are reported. -/
  accentLightnessDelta : R
  deriving DecidableEq, Repr

/-- WCAG AA for normal text. -/
def Policy.standard {R : Type} [Number R] : Policy R := ⟨4.5, 0.1⟩

/-- Something about the finished tokens that a reader should know. -/
inductive Warning (R : Type)
  /-- Two slots that are read together do not reach the ratio. -/
  | shortfall (foreground background : ColorSlot) (ratio target : R)
  /-- An accent is nearly as light as the window. -/
  | faintAccent (accent : ColorSlot) (delta advised : R)
  /-- Borders nearly vanish on the window. -/
  | faintBorder (ratio : R)
  deriving DecidableEq, Repr

structure Schema (R : Type) where
  tokens : TokenSet R
  variant : Variant
  policy : Policy R
  provenance : Option Text
  warnings : List (Warning R)
  deriving DecidableEq, Repr

/-- A colour that is adjusted until it can be read against a fixed one. -/
structure EnforcedPair where
  adjusted : ColorSlot
  fixed : ColorSlot
  deriving DecidableEq, Repr

variable {R : Type} [Number R]

def Warning.message : Warning R → Text
  | .shortfall foreground background ratio target =>
    foreground.path ++ " on " ++ background.path ++ " reaches " ++ Number.placesText 2 ratio ++
      ":1, below " ++ Number.placesText 2 target ++ ":1"
  | .faintAccent accent delta advised =>
    accent.path ++ " is within " ++ Number.placesText 3 delta ++ " lightness of " ++
      ColorSlot.path .surfacesPrimary ++ " (advised at least " ++ Number.placesText 2 advised ++ ")"
  | .faintBorder ratio =>
    ColorSlot.path .bordersDefault ++ " is barely visible on " ++
      ColorSlot.path .surfacesPrimary ++ " (" ++ Number.placesText 2 ratio ++ ":1)"

namespace EnforcedPair

/-- The accents that carry text. -/
def filledAccents : List ColorSlot :=
  [.accentsPrimary, .accentsSecondary, .accentsSuccess, .accentsWarning, .accentsError]

/-- In the order of enforcement: a slot is adjusted before anything is measured against it. -/
def all : List EnforcedPair :=
  Palette.contentOnSurface.map (⟨·, .surfacesPrimary⟩) ++
    [⟨.contentInverse, .surfacesInverse⟩] ++ filledAccents.map (⟨·, .contentInverse⟩)

end EnforcedPair

namespace TokenSet

def enforcePair (minRatio : R) (t : TokenSet R) (pair : EnforcedPair) : TokenSet R :=
  t.putColor pair.adjusted (Contrast.ensure (t.color pair.adjusted) (t.color pair.fixed) minRatio)

def enforce (minRatio : R) (t : TokenSet R) : TokenSet R :=
  EnforcedPair.all.foldl (enforcePair minRatio) t

def shortfall? (minRatio : R) (t : TokenSet R) (foreground background : ColorSlot) :
    Option (Warning R) :=
  let ratio := Contrast.ratio (t.color foreground) (t.color background)
  if ratio < minRatio then some (.shortfall foreground background ratio minRatio) else none

/-- The other layers that the main text appears on. -/
def secondarySurfaces : List ColorSlot :=
  [.surfacesSecondary, .surfacesTertiary, .surfacesElevated]

def faintAccent? (advised : R) (t : TokenSet R) (accent : ColorSlot) : Option (Warning R) :=
  let delta :=
    Number.abs ((t.color accent).lightness - (t.color .surfacesPrimary).lightness)
  if delta < advised then some (.faintAccent accent delta advised) else none

/-- Below this ratio a border cannot be told from the window. -/
def minBorderRatio : R := 1.1

def faintBorder? (t : TokenSet R) : Option (Warning R) :=
  let ratio := Contrast.ratio (t.color .bordersDefault) (t.color .surfacesPrimary)
  if ratio < minBorderRatio then some (.faintBorder ratio) else none

def warnings (policy : Policy R) (t : TokenSet R) : List (Warning R) :=
  EnforcedPair.all.filterMap (fun pair => t.shortfall? policy.minRatio pair.adjusted pair.fixed) ++
    secondarySurfaces.filterMap (t.shortfall? policy.minRatio .contentPrimary) ++
    EnforcedPair.filledAccents.filterMap (t.faintAccent? policy.accentLightnessDelta) ++
    t.faintBorder?.toList

end TokenSet

namespace Schema

/-- Enforces contrast, collects warnings and seals the result. -/
def finalize (tokens : TokenSet R) (policy : Policy R) (provenance : Option Text) : Schema R :=
  let tokens := tokens.enforce policy.minRatio
  { tokens
    variant := Variant.ofSurface (tokens.color .surfacesPrimary)
    policy
    provenance
    warnings := tokens.warnings policy }

def withProvenance (s : Schema R) (label : Text) : Schema R := { s with provenance := some label }

def color (s : Schema R) (slot : ColorSlot) : Color R := s.tokens.color slot

def scalar (s : Schema R) (slot : ScalarSlot) : R := s.tokens.scalar slot

/-- The palette of an accent, finalized. -/
def ofAccent (accent : Color R) (variant : Variant) (policy : Policy R) : Schema R :=
  finalize (Palette.tokens accent variant) policy
    (some ("generated:" ++ accent.hexText ++ ":" ++ variant.name))

end Schema

end ThemeTokens
