import ThemeTokens.Schema

/-!
# Presets

Named schemas, each the palette of a fixed accent.
-/
namespace ThemeTokens.Preset
variable {R : Type} [Number R]

inductive Accent
  | blue
  | teal
  | green
  | yellow
  | orange
  | red
  | pink
  | purple
  | slate
  deriving DecidableEq, Repr

namespace Accent

def all : List Accent := [blue, teal, green, yellow, orange, red, pink, purple, slate]

def name : Accent → Text
  | blue => "blue"
  | teal => "teal"
  | green => "green"
  | yellow => "yellow"
  | orange => "orange"
  | red => "red"
  | pink => "pink"
  | purple => "purple"
  | slate => "slate"

def color : Accent → Color R
  | blue => Color.solid 0x35 0x84 0xE4
  | teal => Color.solid 0x21 0x90 0xA4
  | green => Color.solid 0x3A 0x94 0x4A
  | yellow => Color.solid 0xC8 0x88 0x00
  | orange => Color.solid 0xED 0x5B 0x00
  | red => Color.solid 0xE6 0x2D 0x42
  | pink => Color.solid 0xD5 0x61 0x99
  | purple => Color.solid 0x91 0x41 0xAC
  | slate => Color.solid 0x6F 0x83 0x96

def ofName? (t : Text) : Option Accent := all.find? (·.name == t)

end Accent

def ofAccent (accent : Accent) (variant : Variant) (name : Text) : Schema R :=
  (Schema.ofAccent accent.color variant Policy.standard).withProvenance ("builtin:" ++ name)

/-- The default schema of a variant. -/
def reference (variant : Variant) : Schema R := ofAccent .blue variant ("default-" ++ variant.name)

def variantOfName? (t : Text) : Option Variant := [Variant.light, .dark].find? (·.name == t)

/-- A preset is called `default`, or by its accent and variant with a dash between. -/
def ofName? (name : Text) : Option (Schema R) :=
  if name = "default".toList then some (reference .dark)
  else do
    let (accentName, variantName) ← name.cutLast? '-'
    let variant ← variantOfName? variantName
    if accentName = "default".toList then return reference variant
    return ofAccent (← Accent.ofName? accentName) variant name

def names : List Text :=
  ("default".toList :: Accent.all.map Accent.name).flatMap fun accent =>
    [Variant.light, .dark].map fun variant => accent ++ "-" ++ variant.name

end ThemeTokens.Preset
