import ThemeTokens.Json.Printer
import ThemeTokens.Target.Output
import ThemeTokens.Schema

/-!
# Token documents

Every slot of a schema under its category, with its value and type. What the document says about
the schema itself stands apart from the slots.
-/
namespace ThemeTokens.TokenDocument
variable {R : Type}

def object (members : List (Text × Json R)) : Json R := .object (Keyed.ofList members)

def token (kind : Text) (value : Json R) : Json R :=
  object [("type", .text kind), ("value", value)]

variable [Number R]

def metadata (s : Schema R) : Json R := object [
  ("generator", .text "tincture"),
  ("provenance", (s.provenance.map Json.text).getD .null),
  ("variant", .text s.variant.name),
  ("warnings", .array (s.warnings.map fun warning => .text warning.message))]

def colorToken (s : Schema R) (slot : ColorSlot) : Text × Json R :=
  (slot.name, token "color" (.text (s.color slot).hexText))

def scalarToken (s : Schema R) (slot : ScalarSlot) : Text × Json R :=
  (slot.name, token "number" (.number (s.scalar slot)))

def group (s : Schema R) (category : Category) : Json R :=
  object ((ColorSlot.all.filter (·.category = category)).map (colorToken s) ++
    (ScalarSlot.all.filter (·.category = category)).map (scalarToken s))

def document (s : Schema R) : Json R :=
  object (("$metadata", metadata s) :: Category.all.map fun category =>
    (category.name, group s category))

def path : Text := "tokens/tokens.json"

def output (s : Schema R) : Output :=
  Output.ofLists [(path, (document s).prettyText ++ "\n")] [("variant", s.variant.name)]

end ThemeTokens.TokenDocument
