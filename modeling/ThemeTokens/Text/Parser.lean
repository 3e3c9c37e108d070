import ThemeTokens.Text.Basic

/-!
# Parsers

A parser takes a value from the front of a text, or fails and takes nothing.
-/
namespace ThemeTokens

abbrev Parser (α : Type) := StateT Text Option α

namespace Parser
variable {α : Type}

def satisfy (p : Char → Bool) : Parser Char := fun t =>
  match t with
  | c :: rest => if p c then some (c, rest) else none
  | [] => none

def char (c : Char) : Parser Unit := discard (satisfy (· == c))

def word (w : Text) : Parser Unit := fun t => (t.after? w).map ((), ·)

/-- The characters up to the first that does not satisfy `p`. -/
def span (p : Char → Bool) : Parser Text := fun t => some (t.takeWhile p, t.dropWhile p)

/-- So many characters that satisfy `p`. -/
def count (n : Nat) (p : Char → Bool) : Parser Text := fun t =>
  let taken := t.take n
  if taken.length = n ∧ taken.all p then some (taken, t.drop n) else none

/-- The values that a parser takes one after another, for as long as it takes anything. -/
def manyFrom (p : Parser α) (t : Text) : List α × Text :=
  match p t with
  | none => ([], t)
  | some (a, rest) =>
    if rest.length < t.length then
      let (as, final) := manyFrom p rest
      (a :: as, final)
    else ([], t)
termination_by t.length

def many (p : Parser α) : Parser (List α) := fun t => some (manyFrom p t)

/-- At least one value, with a separator between any two. -/
def separated (separator : Parser Unit) (p : Parser α) : Parser (List α) := do
  let first ← p
  let rest ← many (do separator; p)
  return first :: rest

def finish : Parser Unit := fun t => if t.isEmpty then some ((), []) else none

/-- The value of a whole text. -/
def read? (p : Parser α) (t : Text) : Option α := ((p <* finish).run t).map Prod.fst

end Parser

end ThemeTokens
