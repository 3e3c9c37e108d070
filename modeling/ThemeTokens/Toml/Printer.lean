import ThemeTokens.Toml.Quoted
import ThemeTokens.Number.Basic

/-!
# Writing TOML

A text is written in the plainest form that can hold it: basic, literal, a block of either, and only
then with escapes.
-/
namespace ThemeTokens.Toml

/-- A control character that has to be escaped wherever it stands. -/
def needsEscape (c : Char) : Bool := !Quoted.isPlain c && c != '\n'

/-- The length of the longest run of a character. -/
def longestRun (c : Char) (t : Text) : Nat :=
  ((Text.splitBy (· ≠ c) t).map List.length).foldl max 0

inductive Quoting
  | basic
  | literal
  | basicBlock
  | literalBlock
  deriving DecidableEq, Repr

/-- Whether a text can be written so without any escape. -/
def Quoting.holds (t : Text) : Quoting → Bool
  | basic => !t.any needsEscape && '\\' ∉ t && '"' ∉ t && '\n' ∉ t
  | literal => !t.any needsEscape && '\'' ∉ t && '\n' ∉ t
  | basicBlock => !t.any needsEscape && '\\' ∉ t && longestRun '"' t ≤ 2
  | literalBlock => !t.any needsEscape && longestRun '\'' t ≤ 2

def Quoting.of (t : Text) : Quoting :=
  ([basic, literal, basicBlock, literalBlock].find? (·.holds t)).getD
    (if '\n' ∈ t then basicBlock else basic)

/-- Four hexadecimal digits in upper case. -/
def codeDigits (n : Nat) : Text :=
  [n / 4096, n / 256, n / 16, n].map fun m => (Nat.digitChar (m % 16)).toUpper

def escaped (c : Char) : Text :=
  match c with
  | '\x08' => "\\b"
  | '\t' => "\\t"
  | '\n' => "\\n"
  | '\x0c' => "\\f"
  | '\x0d' => "\\r"
  | '"' => "\\\""
  | '\\' => "\\\\"
  | c => if Quoted.isPlain c then [c] else "\\u" ++ codeDigits c.toNat

/-- The inside of a basic block after so many quotes. Every third quote in a row is escaped. -/
def blockBody : Nat → Text → Text
  | _, [] => []
  | _, '\n' :: t => '\n' :: blockBody 0 t
  | quotes, '"' :: t =>
    if quotes < 2 then '"' :: blockBody (quotes + 1) t else "\\\"" ++ blockBody 0 t
  | _, c :: t => escaped c ++ blockBody 0 t

/-- A block that has a line end starts on a line of its own. -/
def blockStart (t : Text) : Text := if '\n' ∈ t then "\n" else []

def quote (t : Text) : Text :=
  match Quoting.of t with
  | .basic => "\"" ++ t.flatMap escaped ++ "\""
  | .literal => "'" ++ t ++ "'"
  | .basicBlock => "\"\"\"" ++ blockStart t ++ blockBody 0 t ++ "\"\"\""
  | .literalBlock => "'''" ++ blockStart t ++ t ++ "'''"

/-- The shortest digits without an exponent, with a point and a zero after a whole number. -/
def floatText {R : Type} [Number R] (x : R) : Text :=
  match Number.shortest .up x with
  | .finite n => n.withPoint
  | .infinite negative => if negative then "-inf" else "inf"
  | .notANumber => "nan"

def listText (items : List Text) : Text := "[" ++ Text.join ", " items ++ "]"

def entryLine (key value : Text) : Text := key ++ " = " ++ value ++ "\n"

end ThemeTokens.Toml
