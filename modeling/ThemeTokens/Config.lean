import ThemeTokens.Target
import ThemeTokens.Toml.Parser
import ThemeTokens.Toml.Printer

/-!
# Configurations

The contrast policy, the name of the scheme and the targets in order. A configuration is read from
TOML, where everything has a default and unknown keys do not count.
-/
namespace ThemeTokens

structure Config (R : Type) where
  policy : Policy R
  schemeName : Text
  targets : List Text
  deriving DecidableEq, Repr

inductive ConfigError (R : Type)
  /-- The text is not TOML, or a value has the wrong type. -/
  | malformed
  | ratio (value : R)
  | lightnessDelta (value : R)
  | unknownTarget (name : Text)
  deriving DecidableEq, Repr

variable {R : Type} [Number R]

def ConfigError.message : ConfigError R → Text
  | .malformed => "invalid configuration"
  | .ratio x => "contrast.min_ratio must be between 1 and 21, got " ++ Number.text x
  | .lightnessDelta x =>
    "contrast.accent_lightness_delta must be between 0 and 1, got " ++ Number.text x
  | .unknownTarget name => "unknown render target `" ++ name ++ "`"

namespace Config

def standard : Config R := ⟨Policy.standard, SchemeName.default, Target.names⟩

/-- Ranges come first, then the targets in order. -/
def validate (c : Config R) : Except (ConfigError R) Unit :=
  let ratio := c.policy.minRatio
  let delta := c.policy.accentLightnessDelta
  if ¬(1.0 ≤ ratio ∧ ratio ≤ 21.0) then .error (.ratio ratio)
  else if ¬(0.0 ≤ delta ∧ delta ≤ 1.0) then .error (.lightnessDelta delta)
  else match c.targets.find? fun name => !Target.names.contains name with
    | some name => .error (.unknownTarget name)
    | none => .ok ()

/-- The value read from an entry, or the default where there is no entry. -/
def readOr {α : Type} (default : α) (read : Toml R → Option α) : Option (Toml R) → Option α
  | none => some default
  | some v => read v

/-- A policy is a table, or an array of its two numbers. A moment has no entry of a policy. -/
def readPolicy : Toml R → Option (Policy R)
  | .table members => do
    let minRatio ← readOr Policy.standard.minRatio Toml.number?
      (Keyed.get? "min_ratio" members)
    let delta ← readOr Policy.standard.accentLightnessDelta Toml.number?
      (Keyed.get? "accent_lightness_delta" members)
    return ⟨minRatio, delta⟩
  | .array items => do
    let minRatio ← readOr Policy.standard.minRatio Toml.number? items[0]?
    let delta ← readOr Policy.standard.accentLightnessDelta Toml.number? items[1]?
    return ⟨minRatio, delta⟩
  | .moment => some Policy.standard
  | _ => none

def readTargets (v : Toml R) : Option (List Text) := do (← v.items?).mapM Toml.text?

def ofMembers? (members : Keyed (Toml R)) : Option (Config R) := do
  let policy ← readOr standard.policy readPolicy (members.get? "contrast")
  let schemeName ← readOr (standard (R := R)).schemeName Toml.text? (members.get? "scheme_name")
  let targets ← readOr (standard (R := R)).targets readTargets (members.get? "targets")
  return ⟨policy, schemeName, targets⟩

def read? (t : Text) : Option (Config R) := (Toml.read? t).bind ofMembers?

/-- The valid configuration that a text writes. -/
def ofToml (t : Text) : Except (ConfigError R) (Config R) := do
  match read? t with
  | none => .error .malformed
  | some c =>
    c.validate
    return c

def toToml (c : Config R) : Text :=
  Toml.entryLine "scheme_name" (Toml.quote c.schemeName) ++
    Toml.entryLine "targets" (Toml.listText (c.targets.map Toml.quote)) ++
    "\n[contrast]\n" ++
    Toml.entryLine "min_ratio" (Toml.floatText c.policy.minRatio) ++
    Toml.entryLine "accent_lightness_delta" (Toml.floatText c.policy.accentLightnessDelta)

end Config

end ThemeTokens
