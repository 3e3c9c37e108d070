import ThemeTokens.Json.Token

/-!
# Reading JSON

A pushdown automaton over tokens. Its stack holds the arrays and objects that are open, and a value
that is complete goes into the innermost of them.
-/
namespace ThemeTokens.Json
variable {R : Type}

/-- An open container: an array with its items so far, newest first, or an object with its members
so far and the key of the value that comes next. -/
inductive Frame (R : Type)
  | items (items : List (Json R))
  | member (members : Keyed (Json R)) (key : Text)

/-- What may come next. -/
inductive State (R : Type)
  | needValue (stack : List (Frame R))
  | arrayStart (stack : List (Frame R))
  | objectStart (stack : List (Frame R))
  | needKey (members : Keyed (Json R)) (stack : List (Frame R))
  | needColon (members : Keyed (Json R)) (key : Text) (stack : List (Frame R))
  | afterItem (items : List (Json R)) (stack : List (Frame R))
  | afterMember (members : Keyed (Json R)) (stack : List (Frame R))
  | done (value : Json R)

/-- Containers that may be open at once stay below this number. -/
def depthLimit : Nat := 128

namespace State

/-- Puts a complete value into the innermost open container. -/
def feed (value : Json R) : List (Frame R) → State R
  | [] => .done value
  | .items items :: stack => .afterItem (value :: items) stack
  | .member members key :: stack => .afterMember (members.insert key value) stack

/-- The step of a state where a value must come. -/
def valueStep (stack : List (Frame R)) : Token R → Option (State R)
  | .openArray => if stack.length + 1 < depthLimit then some (.arrayStart stack) else none
  | .openObject => if stack.length + 1 < depthLimit then some (.objectStart stack) else none
  | .null => some (feed .null stack)
  | .bool b => some (feed (.bool b) stack)
  | .number x => some (feed (.number x) stack)
  | .text t => some (feed (.text t) stack)
  | _ => none

def step : State R → Token R → Option (State R)
  | .needValue stack, token => valueStep stack token
  | .arrayStart stack, .closeArray => some (feed (.array []) stack)
  | .arrayStart stack, token => valueStep (.items [] :: stack) token
  | .objectStart stack, .closeObject => some (feed (.object []) stack)
  | .objectStart stack, .text key => some (.needColon [] key stack)
  | .needKey members stack, .text key => some (.needColon members key stack)
  | .needColon members key stack, .colon => some (.needValue (.member members key :: stack))
  | .afterItem items stack, .comma => some (.needValue (.items items :: stack))
  | .afterItem items stack, .closeArray => some (feed (.array items.reverse) stack)
  | .afterMember members stack, .comma => some (.needKey members stack)
  | .afterMember members stack, .closeObject => some (feed (.object members) stack)
  | _, _ => none

def result? : State R → Option (Json R)
  | .done value => some value
  | _ => none

end State

/-- The value that a text writes, with nothing but blanks around it. -/
def read? [Number R] (t : Text) : Option (Json R) := do
  let tokens ← tokens? t
  let state ← tokens.foldlM State.step (.needValue [])
  state.result?

end ThemeTokens.Json
