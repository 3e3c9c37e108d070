import ThemeTokens.Text.Parser

/-!
# TOML texts

A basic text has escapes and a literal one has none. Either can be a block, which has three quotes
on both sides and may hold line ends and up to two quotes in a row.
-/
namespace ThemeTokens.Toml.Quoted
open ThemeTokens.Parser

/-- Any character but the controls, of which a tab is allowed. -/
def isPlain (c : Char) : Bool := c == '\t' || (0x20 ≤ c.toNat && c.toNat != 0x7F)

def isBasic (c : Char) : Bool := isPlain c && c != '"' && c != '\\'

def isLiteral (c : Char) : Bool := isPlain c && c != '\''

def isSpace (c : Char) : Bool := c == ' ' || c == '\t'

def newline : Parser Unit := char '\n' <|> word "\x0d\n"

/-- The character with a number of so many hexadecimal digits. -/
def numbered (places : Nat) : Parser Char := do
  let t ← count places fun c => (Text.hexDigit? c).isSome
  let n := (t.filterMap Text.hexDigit?).foldl (fun n digit => 16 * n + digit) 0
  guard n.isValidChar
  return Char.ofNat n

def escape : Parser Char := do
  char '\\'
  match ← satisfy fun _ => true with
  | 'b' => return '\x08'
  | 't' => return '\t'
  | 'n' => return '\n'
  | 'f' => return '\x0c'
  | 'r' => return '\x0d'
  | '"' => return '"'
  | '\\' => return '\\'
  | 'u' => numbered 4
  | 'U' => numbered 8
  | _ => failure

def basic : Parser Text := do
  char '"'
  let t ← many (satisfy isBasic <|> escape)
  char '"'
  return t

def literal : Parser Text := do
  char '\''
  let t ← span isLiteral
  char '\''
  return t

/-- A backslash at the end of a line takes away all blanks and line ends that follow. -/
def continuation : Parser Text := do
  char '\\'
  discard (span isSpace)
  newline
  discard (many (discard (satisfy isSpace) <|> newline))
  return []

def one (p : Parser Char) : Parser Text := do return [← p]

def lineEnd : Parser Text := do newline; return "\n"

def basicPiece : Parser Text :=
  one (satisfy isBasic) <|> lineEnd <|> continuation <|> one escape

def literalPiece : Parser Text := one (satisfy isLiteral) <|> lineEnd

/-- One quote or two. -/
def innerQuotes (quote : Char) : Parser Text := do
  let run ← span (· == quote)
  guard (run.length = 1 ∨ run.length = 2)
  return run

/-- The last three quotes of a run; up to two before them belong to the text. -/
def closing (quote : Char) : Parser Text := do
  let run ← span (· == quote)
  guard (3 ≤ run.length ∧ run.length ≤ 5)
  return run.drop 3

/-- A line end right after the opening quotes does not count. -/
def block (quote : Char) (piece : Parser Text) : Parser Text := do
  word [quote, quote, quote]
  discard (optional newline)
  let pieces ← many (piece <|> innerQuotes quote)
  return pieces.flatten ++ (← closing quote)

def quoted : Parser Text :=
  block '"' basicPiece <|> basic <|> block '\'' literalPiece <|> literal

end ThemeTokens.Toml.Quoted
