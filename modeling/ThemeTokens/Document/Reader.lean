import ThemeTokens.Color.Literal
import ThemeTokens.Document.Path
import ThemeTokens.Document.Scope
import ThemeTokens.Json.Parser
import ThemeTokens.Source
import ThemeTokens.Token.Set

/-!
# Reading documents

Every leaf of a document becomes a token, so that every reference has to lead somewhere. Of the
tokens whose paths stand for a slot, the one with the strongest path decides it; among equals, the
first in the order of paths. The others do not count, even if the deciding one is of a wrong kind.
-/
namespace ThemeTokens.Document

/-- A leaf after all references. -/
structure Token (R : Type) where
  leaf : Leaf R
  kind : Option Text
  deriving DecidableEq, Repr

/-- A token whose path stands for a slot. -/
structure Candidate (R : Type) where
  slot : Slot
  rank : Rank
  token : Token R
  deriving DecidableEq, Repr

variable {R : Type}

def readTokens (entries : Keyed (Entry R)) : Reading (Leaf R) (Keyed (Token R)) :=
  entries.mapM fun (path, entry) => do return (path, ⟨← Reading.leaf path, entry.kind⟩)

/-- In the order of paths. -/
def candidates (tokens : Keyed (Token R)) : List (Candidate R) :=
  tokens.filterMap fun (path, token) =>
    (slotFor? path).map fun (slot, rank) => ⟨slot, rank, token⟩

/-- The token that decides a slot. -/
def winner? (candidates : List (Candidate R)) (slot : Slot) : Option (Token R) :=
  Rank.all.findSome? fun rank =>
    (candidates.find? fun c => c.slot = slot && c.rank = rank).map Candidate.token

/-- The kinds that a colour may have; one that names none has any. -/
def colorKinds : List Text := ["color"]

def scalarKinds : List Text := ["number", "opacity", "dimension"]

def Token.hasKind (kinds : List Text) (token : Token R) : Bool := token.kind.all kinds.contains

variable [Number R]

def Leaf.color (leaf : Leaf R) : Except SourceError (Color R) :=
  match leaf with
  | .text t => (Color.ofLiteral t).mapError SourceError.ofMalformed
  | .number x => .error (.malformedColor (Number.text x))

def Leaf.scalar? : Leaf R → Option R
  | .text t => Number.readFraction? t
  | .number x => if Number.isFinite x then some x else none

def Token.color? (token : Token R) : Except SourceError (Option (Color R)) :=
  if token.hasKind colorKinds then token.leaf.color.map some else .ok none

def Token.scalar? (token : Token R) : Option R :=
  if token.hasKind scalarKinds then token.leaf.scalar? else none

def readColorSlot (candidates : List (Candidate R)) (d : Draft R) (s : ColorSlot) :
    Except SourceError (Draft R) :=
  match winner? candidates (.color s) with
  | none => .ok d
  | some token => token.color?.map (d.putColor s)

def readScalarSlot (candidates : List (Candidate R)) (d : Draft R) (s : ScalarSlot) : Draft R :=
  d.putScalar s ((winner? candidates (.scalar s)).bind Token.scalar?)

/-- The values of all slots, the colours first. -/
def readSlots (candidates : List (Candidate R)) : Except SourceError (Draft R) := do
  let colors ← ColorSlot.all.foldlM (readColorSlot candidates) Draft.empty
  return ScalarSlot.all.foldl (readScalarSlot candidates) colors

/-- The top group of a text that is a document. -/
def root? (source : Text) : Option (Keyed (Json R)) := (Json.read? source).bind Json.object?

/-- The slots that a document names. -/
def readDraft (source : Text) : Except SourceError (Draft R) := do
  let entries := flatten ((root? source).getD [])
  if entries.isEmpty then throw .emptySource
  let tokens ← Reading.runOn (absoluteValues entries) (readTokens entries)
  readSlots (candidates tokens)

/-- Whether a text is a document that opens with a brace. -/
def recognizes (R : Type) [Number R] (source : Text) : Bool :=
  source.trimStart.head? = some '\x7b' && (root? source : Option (Keyed (Json R))).isSome

end ThemeTokens.Document
