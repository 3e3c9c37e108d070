import ThemeTokens.Declaration.Reader
import ThemeTokens.Document.Reader
import ThemeTokens.Schema
import ThemeTokens.Token.Synthesis

/-!
# Source formats

A theme is written as a token document or as stylesheet declarations. Either way its draft is
completed and finalized, unless it has no slot at all.
-/
namespace ThemeTokens

inductive Format
  | document
  | declarations
  deriving DecidableEq, Repr

namespace Format

/-- The stricter format comes first, so that it is tried first. -/
def all : List Format := [document, declarations]

def name : Format → Text
  | document => "token-document"
  | declarations => "declarations"

def ofName? (t : Text) : Option Format := all.find? (·.name == t)

variable {R : Type} [Number R]

/-- Whether a source looks like this format, on doubles or whatever numbers the reader uses. -/
def recognizes (R : Type) [Number R] : Format → Text → Bool
  | document => Document.recognizes R
  | declarations => Declaration.recognizes

def readDraft : Format → Text → Except SourceError (Draft R)
  | document => Document.readDraft
  | declarations => Declaration.readDraft

end Format

/-- Completes and finalizes a draft that has a slot. -/
def Draft.toSchema {R : Type} [Number R] (d : Draft R) (policy : Policy R)
    (provenance : Option Text) : Except SourceError (Schema R) :=
  if d.isEmpty then .error .emptySource else .ok (Schema.finalize d.complete policy provenance)

def Format.parse {R : Type} [Number R] (format : Format) (policy : Policy R)
    (provenance : Option Text) (source : Text) : Except SourceError (Schema R) := do
  (← format.readDraft source).toSchema policy provenance

end ThemeTokens
