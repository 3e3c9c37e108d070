import ThemeTokens.Color.Hex
import ThemeTokens.Reference

/-!
# Reading a source

Why a source text gives no theme, and what the readers of all formats share.
-/
namespace ThemeTokens

inductive SourceError
  | malformedColor (literal : Text)
  /-- Nothing in the source maps to a slot. -/
  | emptySource
  | reference (error : ReferenceError)
  deriving DecidableEq, Repr

namespace SourceError

def ofMalformed (e : MalformedColor) : SourceError := .malformedColor e.literal

def message : SourceError → Text
  | .malformedColor literal => MalformedColor.message ⟨literal⟩
  | .emptySource => "source contains no usable color declarations"
  | .reference e => e.message

end SourceError

/-- A computation that follows references and may fail. -/
abbrev Reading (α β : Type) := StateT (Resolver α) (Except SourceError) β

namespace Reading
variable {α : Type}

/-- The leaf that a key leads to. -/
def leaf (key : Text) : Reading α α := fun resolver =>
  match resolver.resolve key with
  | (.ok leaf, resolver) => .ok (leaf, resolver)
  | (.error e, _) => .error (.reference e)

/-- The leaf that a key leads to, if there is an entry for the key. -/
def leaf? (key : Text) : Reading α (Option α) := fun resolver =>
  if resolver.entries.contains key then (some <$> leaf key).run resolver else .ok (none, resolver)

/-- Runs a computation on entries of which nothing is remembered. -/
def runOn {β : Type} (entries : Keyed (RawValue α)) (reading : Reading α β) :
    Except SourceError β :=
  (reading.run (Resolver.ofEntries entries)).map Prod.fst

end Reading

namespace Number
variable {R : Type} [Number R]

/-- The value of a state: a number such as `0.38`, or a percentage such as `38%`. -/
def readFraction? (t : Text) : Option R := readPart? (fun x : R => x / 100.0) t.trim

end Number

end ThemeTokens
