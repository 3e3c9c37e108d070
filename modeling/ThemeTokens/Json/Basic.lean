import ThemeTokens.Keyed
import ThemeTokens.Number.Basic

/-!
# JSON values

The members of an object stand in the order of their keys.
-/
namespace ThemeTokens

inductive Json (R : Type)
  | null
  | bool (value : Bool)
  | number (value : R)
  | text (value : Text)
  | array (items : List (Json R))
  | object (members : List (Text × Json R))

namespace Json
variable {R : Type}

def text? : Json R → Option Text
  | .text t => some t
  | _ => none

def object? : Json R → Option (Keyed (Json R))
  | .object members => some members
  | _ => none

end Json

end ThemeTokens
