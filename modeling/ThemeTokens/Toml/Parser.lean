import ThemeTokens.Toml.Assembly
import ThemeTokens.Toml.Moment
import ThemeTokens.Toml.Numeral
import ThemeTokens.Toml.Quoted

/-!
# Reading TOML

A document is a sequence of lines, each with a header, an assignment or nothing, and perhaps a
comment at its end. An array may go on over several lines.
-/
namespace ThemeTokens.Toml
open ThemeTokens.Parser

/-- Arrays and tables in a value, and the words of a key, stay below this number. -/
def depthLimit : Nat := 80

def spaces : Parser Unit := discard (span Quoted.isSpace)

def comment : Parser Unit := do
  char '#'
  discard (span Quoted.isPlain)

/-! ## Keys -/

def isBareChar (c : Char) : Bool := c.isAlphanum || c == '_' || c == '-'

def bareKey : Parser Text := do
  let first ← satisfy isBareChar
  return first :: (← span isBareChar)

def key : Parser (List Text) := do
  let word := bareKey <|> Quoted.basic <|> Quoted.literal
  let path ← separated (char '.') (spaces *> word <* spaces)
  guard (path.length < depthLimit)
  return path

/-! ## Values -/

variable {R : Type} [Number R]

def scalar : Parser (Toml R) :=
  text <$> Quoted.quoted <|>
  (do Moment.moment; return moment) <|>
  float <$> anyFloat <|>
  integer <$> anyInteger <|>
  (do word "true"; return bool true) <|>
  (do word "false"; return bool false)

/-- Blanks, comments and line ends between the items of an array. -/
def gap : Parser Unit := do
  spaces
  discard (many do
    discard (optional comment)
    Quoted.newline
    spaces)

def arrayOf (item : Parser (Toml R)) : Parser (Toml R) := do
  char '['
  let items ← optional (separated (char ',') (gap *> item <* gap) <* optional (char ','))
  gap
  char ']'
  return array (items.getD [])

def assignment (item : Parser (Toml R)) : Parser (List Text × Toml R) := do
  let path ← key
  char '='
  spaces
  return (path, ← item)

def inlineTableOf (item : Parser (Toml R)) : Parser (Toml R) := do
  char '\x7b'
  let pairs ← optional (separated (char ',') (assignment item <* spaces))
  spaces
  char '\x7d'
  match (pairs.getD []).foldlM (fun members (path, v) => Items.assign v path members) [] with
  | some members => return table (membersToToml members)
  | none => failure

/-- A value with at most so many arrays and tables inside one another. -/
def value : Nat → Parser (Toml R)
  | 0 => scalar
  | depth + 1 => scalar <|> arrayOf (value depth) <|> inlineTableOf (value depth)

/-! ## Documents -/

inductive Statement (R : Type)
  | header (path : List Text)
  | nextHeader (path : List Text)
  | assignment (path : List Text) (value : Toml R)

def statement : Parser (Statement R) :=
  (do word "[["; let path ← key; word "]]"; return .nextHeader path) <|>
  (do char '['; let path ← key; char ']'; return .header path) <|>
  (do let (path, v) ← assignment (value (depthLimit - 1)); return .assignment path v)

def line : Parser (Option (Statement R)) := do
  spaces
  let content ← optional statement
  spaces
  discard (optional comment)
  Quoted.newline <|> finish
  return content

/-- The statements of a document, which may begin with a byte order mark. -/
def statements : Parser (List (Statement R)) := do
  discard (optional (char '\ufeff'))
  return (← many line).reduceOption

/-- The tables so far, and the path of the one that assignments go to. -/
structure Progress (R : Type) where
  root : Items R
  current : List Text

def Progress.step (p : Progress R) : Statement R → Option (Progress R)
  | .header path => do
    let root ← p.root.within (Items.openTable (path.getLastD [])) path.dropLast
    return ⟨root, path⟩
  | .nextHeader path => do
    let root ← p.root.within (Items.openNext (path.getLastD [])) path.dropLast
    return ⟨root, path⟩
  | .assignment path v => do
    let root ← p.root.within (Items.assign v path) p.current
    return { p with root }

/-- The members of the top table of a document. -/
def read? (t : Text) : Option (Keyed (Toml R)) := do
  let done ← (← statements.read? t).foldlM Progress.step ⟨[], []⟩
  return membersToToml done.root

end ThemeTokens.Toml
