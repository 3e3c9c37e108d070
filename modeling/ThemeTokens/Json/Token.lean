import ThemeTokens.Json.Basic
import ThemeTokens.Json.Numeral

/-!
# JSON tokens

Brackets, marks, words, numbers and quoted texts, with blanks between them.
-/
namespace ThemeTokens.Json

inductive Token (R : Type)
  | openArray
  | closeArray
  | openObject
  | closeObject
  | comma
  | colon
  | null
  | bool (value : Bool)
  | number (value : R)
  | text (value : Text)
  deriving DecidableEq, Repr

def isBlank (c : Char) : Bool := c == ' ' || c == '\n' || c == '\t' || c == '\x0d'

/-! ## Quoted texts -/

/-- A character of a quoted text, or a 16-bit unit that its number stands for. -/
inductive Piece
  | char (c : Char)
  | unit (n : Nat)
  deriving DecidableEq, Repr

def hexUnit? (a b c d : Char) : Option Nat := do
  let digits ← [a, b, c, d].mapM Text.hexDigit?
  return digits.foldl (fun n digit => 16 * n + digit) 0

/-- The character that a backslash and a letter stand for. -/
def escaped? : Char → Option Char
  | '"' => some '"'
  | '\\' => some '\\'
  | '/' => some '/'
  | 'b' => some '\x08'
  | 'f' => some '\x0c'
  | 'n' => some '\n'
  | 'r' => some '\x0d'
  | 't' => some '\t'
  | _ => none

def prepend (piece : Option Piece) (rest : Option (List Piece × Text)) :
    Option (List Piece × Text) :=
  piece.bind fun p => rest.map fun r => (p :: r.1, r.2)

/-- The pieces before the closing quote, and the rest after it. -/
def pieces? : Text → Option (List Piece × Text)
  | [] => none
  | '"' :: t => some ([], t)
  | '\\' :: 'u' :: a :: b :: c :: d :: t => prepend ((hexUnit? a b c d).map .unit) (pieces? t)
  | '\\' :: c :: t => prepend ((escaped? c).map .char) (pieces? t)
  | c :: t => prepend (if c.toNat < 0x20 then none else some (.char c)) (pieces? t)

def isHighSurrogate (n : Nat) : Bool := 0xD800 ≤ n && n ≤ 0xDBFF

def isLowSurrogate (n : Nat) : Bool := 0xDC00 ≤ n && n ≤ 0xDFFF

/-- The characters of the pieces. A high surrogate must come right before a low one, and a low one
right after a high one. -/
def joinPieces? : List Piece → Option Text
  | [] => some []
  | .char c :: rest => (joinPieces? rest).map (c :: ·)
  | .unit n :: rest =>
    if isHighSurrogate n then
      match rest with
      | .unit m :: rest =>
        if isLowSurrogate m then
          (joinPieces? rest).map (Char.ofNat (0x10000 + 0x400 * (n - 0xD800) + (m - 0xDC00)) :: ·)
        else none
      | _ => none
    else if isLowSurrogate n then none
    else (joinPieces? rest).map (Char.ofNat n :: ·)

def quoted? (t : Text) : Option (Text × Text) := do
  let (pieces, rest) ← pieces? t
  return (← joinPieces? pieces, rest)

/-! ## Tokens -/

variable {R : Type} [Number R]

/-- The token that the text starts with, and the rest. -/
def token? : Text → Option (Token R × Text)
  | '[' :: t => some (.openArray, t)
  | ']' :: t => some (.closeArray, t)
  | '\x7b' :: t => some (.openObject, t)
  | '\x7d' :: t => some (.closeObject, t)
  | ',' :: t => some (.comma, t)
  | ':' :: t => some (.colon, t)
  | '"' :: t => (quoted? t).map fun (value, rest) => (.text value, rest)
  | 'n' :: 'u' :: 'l' :: 'l' :: t => some (.null, t)
  | 't' :: 'r' :: 'u' :: 'e' :: t => some (.bool true, t)
  | 'f' :: 'a' :: 'l' :: 's' :: 'e' :: t => some (.bool false, t)
  | t => do
    let (written, rest) ← readWritten? t
    return (.number (← written.value?), rest)

theorem rest_of_prepend {piece : Option Piece} {r : Option (List Piece × Text)}
    {pieces : List Piece} {rest : Text} (h : prepend piece r = some (pieces, rest)) :
    ∃ tail, r = some (tail, rest) := by
  obtain ⟨p, _, hr⟩ := Option.bind_eq_some_iff.1 h
  obtain ⟨q, hq, he⟩ := Option.map_eq_some_iff.1 hr
  cases he
  exact ⟨q.1, hq⟩

theorem length_pieces? {t rest : Text} {pieces : List Piece}
    (h : pieces? t = some (pieces, rest)) : rest.length < t.length := by
  fun_induction pieces? t generalizing pieces rest with
  | case1 => simp at h
  | case2 t => cases h; simp
  | case3 a b c d t ih =>
    obtain ⟨tail, ht⟩ := rest_of_prepend h
    have := ih ht
    simp; omega
  | case4 c t _ ih =>
    obtain ⟨tail, ht⟩ := rest_of_prepend h
    have := ih ht
    simp; omega
  | case5 c t _ _ _ ih =>
    obtain ⟨tail, ht⟩ := rest_of_prepend h
    have := ih ht
    simp; omega

theorem length_quoted? {t rest value : Text} (h : quoted? t = some (value, rest)) :
    rest.length < t.length := by
  simp only [quoted?, Option.bind_eq_bind, Option.bind_eq_some_iff, Option.pure_def,
    Option.some.injEq, Prod.exists, Prod.mk.injEq] at h
  obtain ⟨pieces, r, hp, v, _, _, rfl⟩ := h
  exact length_pieces? hp

theorem length_token? {t rest : Text} {token : Token R} (h : token? t = some (token, rest)) :
    rest.length < t.length := by
  unfold token? at h
  split at h
  case h_7 t =>
    obtain ⟨q, hq, he⟩ := Option.map_eq_some_iff.1 h
    cases he
    have := length_quoted? hq
    simp; omega
  case h_11 =>
    simp only [Option.bind_eq_bind, Option.bind_eq_some_iff, Option.pure_def,
      Option.some.injEq, Prod.exists, Prod.mk.injEq] at h
    obtain ⟨w, r, hw, v, _, _, rfl⟩ := h
    exact length_readWritten? hw
  all_goals cases h; simp; try omega

/-- The tokens of a text, if it consists of tokens and blanks. -/
def tokens? (t : Text) : Option (List (Token R)) :=
  match h : t.dropWhile isBlank with
  | [] => some []
  | c :: u =>
    have : (c :: u).length ≤ t.length := h ▸ Text.length_dropWhile_le isBlank t
    match ht : (token? (c :: u) : Option (Token R × Text)) with
    | none => none
    | some (token, rest) =>
      have := length_token? ht
      (tokens? rest).map (token :: ·)
termination_by t.length

end ThemeTokens.Json
