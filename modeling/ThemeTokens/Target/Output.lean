import ThemeTokens.Keyed

/-!
# Outputs

What a target is given: texts by relative path, and settings by name. A scheme has a name of any
text, and files are named by its stem, which is safe in a path. Some targets read sections of keys:
each section has a header in brackets and a line for every key, and an empty line stands between two
sections.
-/
namespace ThemeTokens

structure Output where
  files : Keyed Text
  settings : Keyed Text
  deriving DecidableEq, Repr

namespace Output

def ofLists (files settings : List (Text × Text)) : Output :=
  ⟨Keyed.ofList files, Keyed.ofList settings⟩

def paths (o : Output) : List Text := o.files.keys

def file? (o : Output) (path : Text) : Option Text := o.files.get? path

end Output

/-! ## Scheme names -/

namespace SchemeName

/-- The name of a scheme that is given none. -/
def default : Text := "Tincture"

def isStemChar (c : Char) : Bool := c.isAlphanum || c == '_' || c == '-'

def stemChar (c : Char) : Char := if isStemChar c then c else '-'

/-- Blanks are dropped and unsafe characters become dashes. A stem of dashes alone is no name. -/
def stem (name : Text) : Text :=
  let stem := (name.filter (!isBlank ·)).map stemChar
  if stem.all (· == '-') then default else stem

end SchemeName

/-! ## Sections of keys -/

namespace Ini

structure Section where
  name : Text
  entries : List (Text × Text)
  deriving DecidableEq, Repr

def entryLine (entry : Text × Text) : Text := entry.1 ++ "=" ++ entry.2 ++ "\n"

def Section.text (s : Section) : Text := "[" ++ s.name ++ "]\n" ++ s.entries.flatMap entryLine

def text (sections : List Section) : Text := Text.join "\n" (sections.map Section.text)

end Ini

end ThemeTokens
