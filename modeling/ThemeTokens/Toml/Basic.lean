import ThemeTokens.Keyed
import ThemeTokens.Number.Basic

/-!
# TOML values

The members of a table stand in the order of their keys.
-/
namespace ThemeTokens

inductive Toml (R : Type)
  | text (value : Text)
  | integer (value : Int)
  | float (value : R)
  | bool (value : Bool)
  /-- A date, a time of day, or both. -/
  | moment
  | array (items : List (Toml R))
  | table (members : List (Text × Toml R))

namespace Toml
variable {R : Type}

def text? : Toml R → Option Text
  | text t => some t
  | _ => none

def items? : Toml R → Option (List (Toml R))
  | array items => some items
  | _ => none

/-- An integer counts as a number. -/
def number? [Number R] : Toml R → Option R
  | float x => some x
  | integer n => some (if n < 0 then -Number.ofNat n.natAbs else Number.ofNat n.natAbs)
  | _ => none

end Toml

end ThemeTokens
