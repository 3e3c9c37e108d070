import ThemeTokens.Keyed
import ThemeTokens.Text.Basic
import ThemeTokens.Text.Word

/-!
# Statements

A stylesheet declares a name by `name: value;`, by `--name: value;`, or by
`@define-color name value;`. A scan looks for a statement at every position in turn, and goes on
after the one it finds; whatever is not part of a statement is passed over. Comments are taken out
before: one runs from `/*` to the next `*/` and stands for one blank, and an opening that is never
closed is ordinary text.
-/
namespace ThemeTokens.Declaration

/-! ## Comments -/

/-- What follows the first `*/`. -/
def afterClose? : Text → Option Text
  | [] => none
  | '*' :: '/' :: t => some t
  | _ :: t => afterClose? t

theorem length_afterClose? {t rest : Text} (h : afterClose? t = some rest) :
    rest.length < t.length := by
  fun_induction afterClose? t with
  | case1 => simp at h
  | case2 t => cases h; simp only [List.length_cons]; omega
  | case3 c t _ ih => have := ih h; simp; omega

def stripComments : Text → Text
  | [] => []
  | '/' :: '*' :: t =>
    match h : afterClose? t with
    | some rest =>
      have := length_afterClose? h
      ' ' :: stripComments rest
    | none => '/' :: '*' :: t
  | c :: t => c :: stripComments t
termination_by t => t.length
decreasing_by all_goals simp; try omega

/-! ## Names and values -/

/-- A name with its value, as they are written. -/
structure Statement where
  name : Text
  value : Text
  deriving DecidableEq, Repr

def isNameStart (c : Char) : Bool := c.isAlpha || c == '_'

def isNameChar (c : Char) : Bool := isWord c || c == '-'

/-- The longest name that the text starts with, and the rest. -/
def leadingName? : Text → Option (Text × Text)
  | [] => none
  | c :: t =>
    if isNameStart c then some (c :: t.takeWhile isNameChar, t.dropWhile isNameChar) else none

/-- A semicolon ends a value, and a brace shows that there was none. -/
def isValueEnd (c : Char) : Bool := c == ';' || c == '\x7b' || c == '\x7d'

/-- The value after a colon, which has at least one character, and the rest after its semicolon. -/
def propertyValue? (t : Text) : Option (Text × Text) :=
  match t.dropWhile isBlank with
  | ':' :: t =>
    match t.dropWhile (!isValueEnd ·) with
    | ';' :: rest =>
      let value := t.takeWhile (!isValueEnd ·)
      if value.isEmpty then none else some (value, rest)
    | _ => none
  | _ => none

/-- The value after the name of a rule: a blank and at least one more character. -/
def ruleValue? (t : Text) : Option (Text × Text) :=
  match t.dropWhile (· ≠ ';') with
  | ';' :: rest =>
    match t.takeWhile (· ≠ ';') with
    | c :: d :: value => if isBlank c then some (d :: value, rest) else none
    | _ => none
  | _ => none

def property? (t : Text) : Option (Statement × Text) :=
  let body := (t.after? "--").getD t
  (leadingName? body).bind fun (name, t) =>
    (propertyValue? t).map fun (value, rest) => (⟨name, value⟩, rest)

def rule? (t : Text) : Option (Statement × Text) :=
  match t.after? "@define-color" with
  | some (c :: t) =>
    if isBlank c then
      (leadingName? (t.dropWhile isBlank)).bind fun (name, t) =>
        (ruleValue? t).map fun (value, rest) => (⟨name, value⟩, rest)
    else none
  | _ => none

/-- The statement that the text starts with, and the rest. -/
def statement? (t : Text) : Option (Statement × Text) := (rule? t).or (property? t)

theorem length_after? {t head rest : Text} (h : t.after? head = some rest) :
    rest.length ≤ t.length := by
  rw [Text.after?_eq_some_iff.1 h]; simp

theorem length_leadingName? {t rest name : Text} (h : leadingName? t = some (name, rest)) :
    rest.length < t.length := by
  cases t with
  | nil => simp [leadingName?] at h
  | cons c t =>
    simp only [leadingName?] at h
    split at h
    · cases h; have := Text.length_dropWhile_le isNameChar t; simp; omega
    · simp at h

theorem length_propertyValue? {t rest value : Text}
    (h : propertyValue? t = some (value, rest)) : rest.length < t.length := by
  unfold propertyValue? at h
  split at h
  · next u hu =>
    have h1 := Text.length_dropWhile_le isBlank t
    rw [hu] at h1
    split at h
    · next r hr =>
      have h2 := Text.length_dropWhile_le (!isValueEnd ·) u
      rw [hr] at h2
      dsimp only at h
      split at h
      · simp at h
      · cases h; simp at h1 h2; omega
    · simp at h
  · simp at h

theorem length_ruleValue? {t rest value : Text} (h : ruleValue? t = some (value, rest)) :
    rest.length < t.length := by
  unfold ruleValue? at h
  split at h
  · next r hr =>
    have h1 := Text.length_dropWhile_le (· ≠ ';') t
    rw [hr] at h1
    split at h
    · split at h
      · cases h; simp at h1; omega
      · simp at h
    · simp at h
  · simp at h

theorem length_property? {t rest : Text} {s : Statement} (h : property? t = some (s, rest)) :
    rest.length < t.length := by
  simp only [property?, Option.bind_eq_some_iff, Option.map_eq_some_iff, Prod.exists] at h
  obtain ⟨name, u, hn, value, r, hv, he⟩ := h
  have h1 := length_leadingName? hn
  have h2 := length_propertyValue? hv
  have h3 : ((t.after? "--").getD t).length ≤ t.length := by
    cases ha : t.after? "--" with
    | none => simp
    | some u => exact length_after? ha
  cases he
  omega

theorem length_rule? {t rest : Text} {s : Statement} (h : rule? t = some (s, rest)) :
    rest.length < t.length := by
  unfold rule? at h
  split at h
  · next c u hu =>
    have h0 := length_after? hu
    split at h
    · simp only [Option.bind_eq_some_iff, Option.map_eq_some_iff, Prod.exists] at h
      obtain ⟨name, v, hn, value, r, hv, he⟩ := h
      have h1 := length_leadingName? hn
      have h2 := length_ruleValue? hv
      have h3 := Text.length_dropWhile_le isBlank u
      cases he
      simp at h0
      omega
    · simp at h
  · simp at h

theorem length_statement? {t rest : Text} {s : Statement} (h : statement? t = some (s, rest)) :
    rest.length < t.length := by
  simp only [statement?, Option.or_eq_some_iff] at h
  rcases h with h | ⟨_, h⟩
  · exact length_rule? h
  · exact length_property? h

/-- All statements of a text without comments. -/
def statements (t : Text) : List Statement :=
  match h : statement? t with
  | some (s, rest) =>
    have := length_statement? h
    s :: statements rest
  | none =>
    match t with
    | [] => []
    | _ :: u => statements u
termination_by t.length

/-- `--Window-BG` and `window_bg` are the same name. -/
def dropDashes : Text → Text
  | '-' :: '-' :: t => dropDashes t
  | t => t

def normalizeName (t : Text) : Text := ((dropDashes t.trim).replaceChar '-' '_').lower

/-- The value of each name that a source declares; the last declaration of a name wins. -/
def scan (source : Text) : Keyed Text :=
  Keyed.ofList ((statements (stripComments source)).map fun s =>
    (normalizeName s.name, s.value.trim))

end ThemeTokens.Declaration
