/-!
# Text

A text is the list of its characters, so that readers recurse on it and proofs follow them.
String literals stand for their characters. Blank characters are those with the Unicode property
`White_Space`; texts are trimmed by it, and words stand between.
-/
namespace ThemeTokens

abbrev Text := List Char

instance : Coe String Text := ⟨String.toList⟩

/-- The Unicode property `White_Space`. -/
def isBlank (c : Char) : Bool :=
  let n := c.toNat
  (0x09 ≤ n && n ≤ 0x0D) || n == 0x20 || n == 0x85 || n == 0xA0 || n == 0x1680 ||
    (0x2000 ≤ n && n ≤ 0x200A) || n == 0x2028 || n == 0x2029 || n == 0x202F || n == 0x205F ||
    n == 0x3000

namespace Text

/-- ASCII letters in lower case; every other character is kept. -/
def lower (t : Text) : Text := t.map Char.toLower

def replaceChar (old new : Char) (t : Text) : Text :=
  t.map fun c => if c = old then new else c

/-- The pieces between the characters that satisfy `p`; there is always at least one. -/
def splitBy (p : Char → Bool) : Text → List Text
  | [] => [[]]
  | c :: t =>
    if p c then [] :: splitBy p t
    else match splitBy p t with
      | [] => [[c]]
      | piece :: rest => (c :: piece) :: rest

def split (separator : Char) : Text → List Text := splitBy (· == separator)

/-- What stands before and after the first occurrence. -/
def cutFirst? (separator : Char) : Text → Option (Text × Text)
  | [] => none
  | c :: t =>
    if c = separator then some ([], t)
    else (cutFirst? separator t).map fun cut => (c :: cut.1, cut.2)

/-- What stands before and after the last occurrence. -/
def cutLast? (separator : Char) : Text → Option (Text × Text)
  | [] => none
  | c :: t =>
    match cutLast? separator t with
    | some cut => some (c :: cut.1, cut.2)
    | none => if c = separator then some ([], t) else none

/-- The rest of the text after `head`, if it starts so. -/
def after? : (t head : Text) → Option Text
  | t, [] => some t
  | [], _ :: _ => none
  | c :: t, d :: head => if c = d then after? t head else none

/-- The text before its ending `c`. -/
def beforeLast? (c : Char) : Text → Option Text
  | [] => none
  | [d] => if d = c then some [] else none
  | d :: t => (beforeLast? c t).map (d :: ·)

def join (separator : Text) (pieces : List Text) : Text := separator.intercalate pieces

def dropEndWhile (p : Char → Bool) (t : Text) : Text := (t.reverse.dropWhile p).reverse

def trimStart (t : Text) : Text := t.dropWhile isBlank

def trimEnd (t : Text) : Text := t.dropEndWhile isBlank

def trim (t : Text) : Text := t.trimStart.trimEnd

/-- The maximal runs of characters that are not blank. -/
def words (t : Text) : List Text := (t.splitBy isBlank).filter (!·.isEmpty)

/-- The value of a hexadecimal digit in either case. -/
def hexDigit? (c : Char) : Option Nat :=
  if c.isDigit then some (c.toNat - '0'.toNat)
  else if 'a' ≤ c ∧ c ≤ 'f' then some (c.toNat - 'a'.toNat + 10)
  else if 'A' ≤ c ∧ c ≤ 'F' then some (c.toNat - 'A'.toNat + 10)
  else none

def decimal (n : Nat) : Text := Nat.toDigits 10 n

theorem after?_eq_some_iff {t head rest : Text} : t.after? head = some rest ↔ t = head ++ rest := by
  fun_induction after? t head with
  | case1 t => simp
  | case2 => simp
  | case3 t d head ih => simp [ih]
  | case4 c t d head h => simp [h]

theorem length_dropWhile_le (p : Char → Bool) (t : Text) : (t.dropWhile p).length ≤ t.length :=
  (List.dropWhile_sublist p).length_le

end Text

end ThemeTokens
