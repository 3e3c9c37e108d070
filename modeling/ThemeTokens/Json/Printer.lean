import ThemeTokens.Json.Basic

/-!
# Writing JSON

Every item and member stands on a line of its own, indented by two blanks for each open container.
-/
namespace ThemeTokens.Json

/-- A control character without a letter of its own is written by its number. -/
def escape (c : Char) : Text :=
  match c with
  | '"' => "\\\""
  | '\\' => "\\\\"
  | '\x08' => "\\b"
  | '\x0c' => "\\f"
  | '\n' => "\\n"
  | '\x0d' => "\\r"
  | '\t' => "\\t"
  | c =>
    if c.toNat < 0x20 then
      "\\u00" ++ [Nat.digitChar (c.toNat / 16), Nat.digitChar (c.toNat % 16)]
    else [c]

def quote (t : Text) : Text := "\"" ++ t.flatMap escape ++ "\""

variable {R : Type} [Number R]

/-- The shortest digits, written out with a point between 0.00001 and 10 to the 16th, and with an
exponent beyond. -/
def numberText (x : R) : Text :=
  match Number.shortest .even x with
  | .finite n =>
    let position := n.exponent + (Text.decimal n.digits).length
    if -5 < position ∧ position ≤ 16 then n.withPoint else n.scientific
  | _ => "null"

def indentation (depth : Nat) : Text := List.replicate (2 * depth) ' '

/-- The line end between items. -/
def lineEnd (depth : Nat) : Text := "\n" ++ indentation depth

mutual

/-- The text of a value inside so many open containers. -/
def textAt (depth : Nat) : Json R → Text
  | .null => "null"
  | .bool true => "true"
  | .bool false => "false"
  | .number x => numberText x
  | .text t => quote t
  | .array [] => "[]"
  | .array (item :: items) =>
    "[" ++ lineEnd (depth + 1) ++ textAt (depth + 1) item ++ itemsAt (depth + 1) items ++
      lineEnd depth ++ "]"
  | .object [] => "\x7b\x7d"
  | .object ((key, value) :: members) =>
    "\x7b" ++ lineEnd (depth + 1) ++ quote key ++ ": " ++ textAt (depth + 1) value ++
      membersAt (depth + 1) members ++ lineEnd depth ++ "\x7d"

def itemsAt (depth : Nat) : List (Json R) → Text
  | [] => []
  | item :: items => "," ++ lineEnd depth ++ textAt depth item ++ itemsAt depth items

def membersAt (depth : Nat) : List (Text × Json R) → Text
  | [] => []
  | (key, value) :: members =>
    "," ++ lineEnd depth ++ quote key ++ ": " ++ textAt depth value ++ membersAt depth members

end

def prettyText (value : Json R) : Text := textAt 0 value

end ThemeTokens.Json
