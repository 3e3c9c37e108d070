import ThemeTokens.Declaration.Statement
import ThemeTokens.Reference

/-!
# Declared values

A value is a text, or refers to another name as `@name` or `var(--name)`. A `var()` may bring a
value of its own for the case that its name is not declared.
-/
namespace ThemeTokens.Declaration

/-- The text before the last `!important`, in any case. -/
def beforeImportant? : Text → Option Text
  | [] => none
  | c :: t =>
    match beforeImportant? t with
    | some before => some (c :: before)
    | none => if Text.lower ((c :: t).take 10) = "!important".toList then some [] else none

/-- The value without blanks around it and without an `!important` at its end. -/
def plainValue (t : Text) : Text :=
  match beforeImportant? t.trim with
  | some before => before.trimEnd
  | none => t.trim

/-- What stands between the parentheses of `var()`. -/
def variableBody? (t : Text) : Option Text := (t.after? "var(").bind (Text.beforeLast? ')')

theorem length_trim_le (t : Text) : t.trim.length ≤ t.length := by
  have h1 := Text.length_dropWhile_le isBlank t
  have h2 := Text.length_dropWhile_le isBlank (t.dropWhile isBlank).reverse
  simp only [Text.trim, Text.trimStart, Text.trimEnd, Text.dropEndWhile, List.length_reverse] at *
  omega

theorem length_beforeImportant? {t before : Text} (h : beforeImportant? t = some before) :
    before.length ≤ t.length := by
  induction t generalizing before with
  | nil => simp [beforeImportant?] at h
  | cons c t ih =>
    simp only [beforeImportant?] at h
    split at h
    · next b hb => cases h; have := ih hb; simp; omega
    · split at h
      · cases h; simp
      · simp at h

theorem length_plainValue_le (t : Text) : (plainValue t).length ≤ t.length := by
  have ht := length_trim_le t
  unfold plainValue
  split
  · next b hb =>
    have h1 := length_beforeImportant? hb
    have h2 := Text.length_dropWhile_le isBlank b.reverse
    simp only [Text.trimEnd, Text.dropEndWhile, List.length_reverse] at *
    omega
  · exact ht

theorem length_beforeLast? {c : Char} {t body : Text} (h : t.beforeLast? c = some body) :
    body.length < t.length := by
  fun_induction Text.beforeLast? c t generalizing body with
  | case1 => simp at h
  | case2 => cases h; simp
  | case3 => simp at h
  | case4 d t _ ih =>
    obtain ⟨b, hb, rfl⟩ := Option.map_eq_some_iff.1 h
    have := ih hb
    simp; omega

theorem length_variableBody? {t body : Text} (h : variableBody? t = some body) :
    body.length < t.length := by
  obtain ⟨u, hu, hb⟩ := Option.bind_eq_some_iff.1 h
  have h1 := length_after? hu
  have h2 := length_beforeLast? hb
  omega

theorem length_cutFirst? {c : Char} {t : Text} {cut : Text × Text}
    (h : t.cutFirst? c = some cut) : cut.2.length < t.length := by
  induction t generalizing cut with
  | nil => simp [Text.cutFirst?] at h
  | cons d t ih =>
    simp only [Text.cutFirst?] at h
    split at h
    · cases h; simp
    · obtain ⟨b, hb, rfl⟩ := Option.map_eq_some_iff.1 h
      have := ih hb
      simp; omega

/-- The entry of a value. A fallback counts only where the name before it is not declared. -/
def rawValue (declared : Text → Bool) (t : Text) : RawValue Text :=
  let value := plainValue t
  have : value.length ≤ t.length := length_plainValue_le t
  match value.after? "@" with
  | some name => .reference (normalizeName name)
  | none =>
    match hv : variableBody? value with
    | none => .leaf value
    | some body =>
      have := length_variableBody? hv
      match hc : body.cutFirst? ',' with
      | none => .reference (normalizeName body)
      | some (name, fallback) =>
        have : fallback.length < body.length := length_cutFirst? hc
        if declared (normalizeName name) then .reference (normalizeName name)
        else rawValue declared fallback
termination_by t.length

end ThemeTokens.Declaration
