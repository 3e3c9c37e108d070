import ThemeTokens.Declaration.Reader
import ThemeTokens.Proofs.Binary64.Elementary
import ThemeTokens.Proofs.Declaration.Comment
import ThemeTokens.Proofs.Keyed
import ThemeTokens.Proofs.Text

/-!
# Stylesheets as they are written

A sheet is a sequence of blanks, complete comments and statements. A scan finds its statements, each
as it is written, and nothing else.
-/
namespace ThemeTokens.Declaration

/-! ## Names and values -/

/-- A name without the dashes that may stand before it. -/
structure IsName (name : Text) : Prop where
  chars : ∀ c ∈ name, isNameChar c = true
  start : ∃ c t, name = c :: t ∧ isNameStart c = true

theorem isNameChar_of_isBlank {c : Char} (h : isBlank c = true) : isNameChar c = false := by
  have hdash : (c == '-') = false :=
    Text.eq_false_of_isBlank (p := fun c => c == '-') (by decide) h
  rw [isNameChar, Text.isWord_of_isBlank h, hdash]
  rfl

theorem isNameStart_of_isBlank {c : Char} (h : isBlank c = true) : isNameStart c = false :=
  Text.eq_false_of_isBlank (by decide) h

theorem isNameChar_of_isNameStart {c : Char} (h : isNameStart c = true) : isNameChar c = true := by
  have hword : isWord c = true := by
    rw [Text.isWord_eq]
    rcases Bool.or_eq_true_iff.1 h with hletter | hunderscore
    · have hascii : c.toNat < 0x80 := by
        change (decide ('A'.val ≤ c.val ∧ c.val ≤ 'Z'.val) ||
          (decide ('a'.val ≤ c.val) && decide (c.val ≤ 'z'.val))) = true at hletter
        rw [Bool.or_eq_true, Bool.and_eq_true, decide_eq_true_eq, decide_eq_true_eq,
          decide_eq_true_eq] at hletter
        simp only [UInt32.le_iff_toNat_le] at hletter
        change (65 ≤ c.toNat ∧ c.toNat ≤ 90) ∨ (97 ≤ c.toNat ∧ c.toNat ≤ 122) at hletter
        omega
      rw [if_pos hascii, Char.isAlphanum, hletter]
      rfl
    · rw [eq_of_beq hunderscore]
      decide
  rw [isNameChar, hword, Bool.true_or]

theorem IsName.isBlank {name : Text} (h : IsName name) : ∀ c ∈ name, isBlank c = false := by
  intro c hc
  rw [Bool.eq_false_iff]
  intro hblank
  have hchar := h.chars c hc
  rw [isNameChar_of_isBlank hblank] at hchar
  cases hchar

theorem leadingName?_append {name rest : Text} (h : IsName name)
    (hrest : ∀ c, rest.head? = some c → isNameChar c = false) :
    leadingName? (name ++ rest) = some (name, rest) := by
  obtain ⟨c, t, rfl, hc⟩ := h.start
  have ht : ∀ d ∈ t, isNameChar d = true := fun d hd => h.chars d (List.mem_cons_of_mem _ hd)
  rw [List.cons_append, leadingName?, if_pos hc, Text.takeWhile_run ht hrest,
    Text.dropWhile_run ht hrest]

theorem propertyValue?_colon {value : Text} (hvalue : ∀ c ∈ value, isValueEnd c = false)
    (hne : value ≠ []) (rest : Text) :
    propertyValue? (':' :: (value ++ ';' :: rest)) = some (value, rest) := by
  have hvalue' : ∀ c ∈ value, (!isValueEnd c) = true := fun c hc => by rw [hvalue c hc]; rfl
  have hend : ∀ c, (';' :: rest).head? = some c → (!isValueEnd c) = false := by
    intro c hc
    cases hc
    rfl
  have hdrop := Text.dropWhile_run hvalue' hend
  have htake := Text.takeWhile_run hvalue' hend
  have hcolon : (':' :: (value ++ ';' :: rest)).dropWhile isBlank =
      ':' :: (value ++ ';' :: rest) := rfl
  simp only [propertyValue?, hcolon, hdrop, htake, List.isEmpty_iff, hne, if_false]

theorem ruleValue?_blank {value : Text} (hvalue : ∀ c ∈ value, c ≠ ';') (hne : value ≠ [])
    (rest : Text) : ruleValue? (' ' :: (value ++ ';' :: rest)) = some (value, rest) := by
  have hvalue' : ∀ c ∈ ' ' :: value, decide (c ≠ ';') = true := by
    simpa using hvalue
  have hend : ∀ c, (';' :: rest).head? = some c → decide (c ≠ ';') = false := by
    intro c hc
    cases hc
    rfl
  have hdrop := Text.dropWhile_run hvalue' hend
  have htake := Text.takeWhile_run hvalue' hend
  obtain ⟨c, value, rfl⟩ := List.exists_cons_of_ne_nil hne
  rw [← List.cons_append, ruleValue?, hdrop, htake]
  rfl

/-! ## The three forms -/

theorem rule?_eq_none {c : Char} (h : c ≠ '@') (t : Text) : rule? (c :: t) = none := by
  have hafter : Text.after? (c :: t) "@define-color" = none := if_neg h
  rw [rule?, hafter]

section
variable {name value : Text} (h : IsName name) (hne : value ≠ [])
include h hne

theorem property?_body (hvalue : ∀ c ∈ value, isValueEnd c = false) {t rest : Text}
    (ht : (t.after? "--").getD t = name ++ ':' :: (value ++ ';' :: rest)) :
    property? t = some (⟨name, value⟩, rest) := by
  have hlead : leadingName? (name ++ ':' :: (value ++ ';' :: rest)) =
      some (name, ':' :: (value ++ ';' :: rest)) :=
    leadingName?_append h fun c hc => by cases hc; decide
  rw [property?, ht, hlead]
  simp only [Option.bind_some, propertyValue?_colon hvalue hne, Option.map_some]

theorem statement?_property (hvalue : ∀ c ∈ value, isValueEnd c = false) (rest : Text) :
    statement? (name ++ ':' :: (value ++ ';' :: rest)) = some (⟨name, value⟩, rest) := by
  have hproperty : property? (name ++ ':' :: (value ++ ';' :: rest)) =
      some (⟨name, value⟩, rest) := by
    refine property?_body h hne hvalue ?_
    obtain ⟨c, t, rfl, hc⟩ := h.start
    have hdash : c ≠ '-' := fun he => absurd (he ▸ hc) (by decide)
    have hafter : Text.after? (c :: t ++ ':' :: (value ++ ';' :: rest)) "--" = none := if_neg hdash
    rw [hafter, Option.getD_none]
  obtain ⟨c, t, rfl, hc⟩ := h.start
  have hat : c ≠ '@' := fun he => absurd (he ▸ hc) (by decide)
  rw [statement?, List.cons_append, rule?_eq_none hat, Option.none_or]
  exact hproperty

theorem statement?_custom (hvalue : ∀ c ∈ value, isValueEnd c = false) (rest : Text) :
    statement? ('-' :: '-' :: (name ++ ':' :: (value ++ ';' :: rest))) =
      some (⟨name, value⟩, rest) := by
  rw [statement?, rule?_eq_none (by decide), Option.none_or]
  refine property?_body h hne hvalue ?_
  have hafter : Text.after? ('-' :: '-' :: (name ++ ':' :: (value ++ ';' :: rest))) "--" =
      some (name ++ ':' :: (value ++ ';' :: rest)) := Text.after?_eq_some_iff.2 rfl
  rw [hafter, Option.getD_some]

theorem statement?_rule (hvalue : ∀ c ∈ value, c ≠ ';') {t rest : Text}
    (ht : t = "@define-color ".toList ++ (name ++ ' ' :: (value ++ ';' :: rest))) :
    statement? t = some (⟨name, value⟩, rest) := by
  have hafter : t.after? "@define-color" =
      some (' ' :: (name ++ ' ' :: (value ++ ';' :: rest))) := Text.after?_eq_some_iff.2 ht
  have hhead : ∀ c, (name ++ ' ' :: (value ++ ';' :: rest)).head? = some c →
      isBlank c = false := by
    obtain ⟨d, u, rfl, _⟩ := h.start
    intro c hc
    injection hc with hc
    exact hc ▸ h.isBlank d List.mem_cons_self
  have hlead : leadingName? (name ++ ' ' :: (value ++ ';' :: rest)) =
      some (name, ' ' :: (value ++ ';' :: rest)) :=
    leadingName?_append h fun c hc => by cases hc; decide
  have hrule : rule? t = some (⟨name, value⟩, rest) := by
    have hblank : isBlank ' ' = true := by decide
    rw [rule?, hafter]
    dsimp only
    rw [if_pos hblank, Text.dropWhile_eq_self hhead, hlead]
    simp only [Option.bind_some, ruleValue?_blank hvalue hne, Option.map_some]
  rw [statement?, hrule, Option.some_or]

end

theorem statement?_blank {c : Char} (h : isBlank c = true) (t : Text) :
    statement? (c :: t) = none := by
  have hat : c ≠ '@' := fun he => absurd (he ▸ h) (by decide)
  have hdash : c ≠ '-' := fun he => absurd (he ▸ h) (by decide)
  have hafter : Text.after? (c :: t) "--" = none := if_neg hdash
  have hlead : leadingName? (c :: t) = none := by
    rw [leadingName?, isNameStart_of_isBlank h]
    exact if_neg Bool.false_ne_true
  rw [statement?, rule?_eq_none hat, Option.none_or, property?, hafter, Option.getD_none, hlead,
    Option.bind_none]

/-! ## Scanning -/

theorem statements_of_statement? {t rest : Text} {s : Statement}
    (h : statement? t = some (s, rest)) : statements t = s :: statements rest := by
  rw [statements]
  split
  · next hs =>
    rw [h] at hs
    cases hs
    rfl
  · next hs =>
    rw [h] at hs
    cases hs

theorem statements_blank {c : Char} (h : isBlank c = true) (t : Text) :
    statements (c :: t) = statements t := by
  rw [statements]
  split
  · next hs =>
    rw [statement?_blank h] at hs
    cases hs
  · rfl

theorem statements_nil : statements [] = [] := by
  rw [statements]
  rfl

/-! ## Statements as they are written -/

/-- The ways to write a statement. -/
inductive Form
  /-- As `name: value;`. -/
  | property
  /-- As `--name: value;`. -/
  | custom
  /-- As `@define-color name value;`. -/
  | rule
  deriving DecidableEq, Repr

namespace Form

/-- What stands before the name. -/
def opening : Form → Text
  | property => []
  | custom => ['-', '-']
  | rule => "@define-color "

/-- What stands between the name and the value. -/
def separator : Form → Char
  | property | custom => ':'
  | rule => ' '

/-- The characters that a value cannot have. -/
def endsValue : Form → Char → Bool
  | property | custom => isValueEnd
  | rule => (· == ';')

end Form

/-- A statement as it is written. Its value may have blanks around it. -/
structure Written where
  form : Form
  name : Text
  value : Text
  isName : IsName name
  inside : ∀ c ∈ value, form.endsValue c = false
  filled : ∃ c ∈ value, isBlank c = false
  uncommented : ¬ ['/', '*'] <:+: value

namespace Written

def text (w : Written) : Text := w.form.opening ++ w.name ++ w.form.separator :: w.value ++ ";"

def statement (w : Written) : Statement := ⟨w.name, w.value⟩

/-- The name in lower case, with underscores for dashes. -/
def key (w : Written) : Text := (w.name.replaceChar '-' '_').lower

/-- The name with the value that the statement declares for it. -/
def entry (w : Written) : Text × Text := (w.key, w.value.trim)

variable (w : Written)

theorem value_ne_nil : w.value ≠ [] := by
  obtain ⟨c, hc, _⟩ := w.filled
  exact List.ne_nil_of_mem hc

theorem normalizeName_name : normalizeName w.name = w.key := by
  obtain ⟨c, t, hname, hc⟩ := w.isName.start
  have hdashes : dropDashes w.name = w.name := by
    rw [hname, dropDashes]
    rintro u hu
    injection hu with hu
    rw [hu] at hc
    cases hc
  rw [normalizeName, Text.trim_eq_self w.isName.isBlank, hdashes, key]

theorem text_append (rest : Text) : w.text ++ rest =
    w.form.opening ++ (w.name ++ w.form.separator :: (w.value ++ ';' :: rest)) := by
  simp [text]

theorem stripComments_text (rest : Text) :
    stripComments (w.text ++ rest) = w.text ++ stripComments rest := by
  have hopening : '/' ∉ w.form.opening := by cases w.form <;> decide
  have hname : '/' ∉ w.name := fun hmem => absurd (w.isName.chars _ hmem) (by decide)
  have hseparator : w.form.separator ≠ '/' := by cases w.form <;> decide
  rw [text_append, text_append, stripComments_append hopening, stripComments_append hname,
    stripComments_cons fun he => absurd he hseparator, stripComments_semicolon w.uncommented]

theorem statement?_text (rest : Text) :
    statement? (w.text ++ rest) = some (w.statement, rest) := by
  have hinside := w.inside
  rw [text_append]
  cases hform : w.form with
  | property =>
    rw [hform] at hinside
    exact statement?_property w.isName w.value_ne_nil hinside rest
  | custom =>
    rw [hform] at hinside
    exact statement?_custom w.isName w.value_ne_nil hinside rest
  | rule =>
    rw [hform] at hinside
    refine statement?_rule w.isName w.value_ne_nil (fun c hc => ?_) rfl
    simpa [Form.endsValue] using hinside c hc

end Written

/-! ## Sheets -/

/-- What a sheet is made of. -/
inductive Piece
  | blank (c : Char) (h : isBlank c = true)
  /-- A comment that ends at its first close. -/
  | comment (body : Text) (h : ¬ ['*', '/'] <:+: body)
  | statement (w : Written)

namespace Piece

def text : Piece → Text
  | blank c _ => [c]
  | comment body _ => "/*" ++ body ++ "*/"
  | statement w => w.text

def written? : Piece → Option Written
  | blank _ _ | comment _ _ => none
  | statement w => some w

end Piece

/-- The pieces of a sheet, one after the other. -/
def sheetText (sheet : List Piece) : Text := sheet.flatMap Piece.text

/-- The statements of a sheet, in order. -/
def written (sheet : List Piece) : List Written := sheet.filterMap Piece.written?

/-- The statements that are found in a text wherever it stands. -/
def Scans (t : Text) (found : List Statement) : Prop :=
  ∀ rest, statements (stripComments (t ++ rest)) = found ++ statements (stripComments rest)

namespace Scans
variable {t u : Text} {found more : List Statement}

theorem append (ht : Scans t found) (hu : Scans u more) : Scans (t ++ u) (found ++ more) := by
  intro rest
  rw [List.append_assoc, ht, hu, List.append_assoc]

theorem flatMap {α : Type} {items : List α} {f : α → Text} {g : α → List Statement}
    (h : ∀ item ∈ items, Scans (f item) (g item)) :
    Scans (items.flatMap f) (items.flatMap g) := by
  induction items with
  | nil => exact fun _ => rfl
  | cons item items ih =>
    obtain ⟨hitem, hitems⟩ := List.forall_mem_cons.1 h
    exact hitem.append (ih hitems)

theorem statements_eq (h : Scans t found) : statements (stripComments t) = found := by
  have hnil : stripComments [] = [] := by rw [stripComments]
  have hfound := h []
  rwa [List.append_nil, hnil, statements_nil, List.append_nil] at hfound

end Scans

/-- The scan goes on after each piece of a sheet, and finds its statement if it is one. -/
theorem scans_piece (p : Piece) : Scans p.text (p.written?.map Written.statement).toList := by
  intro rest
  cases p with
  | blank c h =>
    have hslash : c ≠ '/' := fun he => absurd (he ▸ h) (by decide)
    have hstrip : stripComments (c :: rest) = c :: stripComments rest :=
      stripComments_cons fun he => absurd he hslash
    exact (congrArg statements hstrip).trans (statements_blank h _)
  | comment body h =>
    have htext : (Piece.comment body h).text ++ rest =
        '/' :: '*' :: (body ++ '*' :: '/' :: rest) := by
      simp [Piece.text]
    rw [htext, stripComments_comment h, statements_blank (by decide)]
    rfl
  | statement w =>
    have hstrip : stripComments ((Piece.statement w).text ++ rest) =
        w.text ++ stripComments rest := w.stripComments_text rest
    rw [hstrip, statements_of_statement? (w.statement?_text _)]
    rfl

theorem statements_sheetText (sheet : List Piece) :
    statements (stripComments (sheetText sheet)) = (written sheet).map Written.statement := by
  have hscans : Scans (sheetText sheet)
      (sheet.flatMap fun p => (p.written?.map Written.statement).toList) :=
    Scans.flatMap fun p _ => scans_piece p
  rw [hscans.statements_eq, written, List.map_filterMap, List.filterMap_eq_flatMap_toList]

theorem scan_sheetText (sheet : List Piece) :
    scan (sheetText sheet) = Keyed.ofList ((written sheet).map Written.entry) := by
  rw [scan, statements_sheetText, List.map_map]
  congr 1
  refine List.map_congr_left fun w _ => ?_
  rw [Function.comp_apply, Written.statement, w.normalizeName_name]
  rfl

theorem readDraft_congr_scan {R : Type} [Number R] {source other : Text}
    (h : scan other = scan source) :
    (readDraft other : Except SourceError (Draft R)) = readDraft source := by
  rw [readDraft, readDraft, h]

/-- A scan finds the statements of a sheet as they are written, none of them lost, split or merged,
and nothing in its comments. What it declares for a name is the value of the last statement of the
name, so the order matters only among statements of one name. -/
theorem scan_sheet {R : Type} [Number R] (sheet : List Piece) :
    statements (stripComments (sheetText sheet)) = (written sheet).map Written.statement ∧
      (scan (sheetText sheet)).Sorted ∧
      (∀ key value, (scan (sheetText sheet)).get? key = some value ↔
        ∃ before w after, written sheet = before ++ w :: after ∧ w.key = key ∧
          w.value.trim = value ∧ ∀ v ∈ after, v.key ≠ key) ∧
      (∀ others, (written others).Perm (written sheet) →
        ((written sheet).map Written.key).Nodup →
        scan (sheetText others) = scan (sheetText sheet) ∧
          (readDraft (sheetText others) : Except SourceError (Draft R)) =
            readDraft (sheetText sheet)) ∧
      ∀ others, (∀ key, ((written others).filter fun w => w.key = key) =
          (written sheet).filter fun w => w.key = key) →
        scan (sheetText others) = scan (sheetText sheet) ∧
          (readDraft (sheetText others) : Except SourceError (Draft R)) =
            readDraft (sheetText sheet) := by
  refine ⟨statements_sheetText sheet, ?_, fun key value => ?_, fun others hperm hdistinct => ?_,
    fun others horder => ?_⟩
  · rw [scan_sheetText]
    exact Keyed.sorted_ofList _
  · rw [scan_sheetText, Keyed.get?_ofList]
    constructor
    · rintro ⟨before, after, hentries, hafter⟩
      obtain ⟨before', rest, hwritten, rfl, hrest⟩ := List.map_eq_append_iff.1 hentries
      obtain ⟨w, after', rfl, hw, rfl⟩ := List.map_eq_cons_iff.1 hrest
      injection hw with hkey hvalue
      refine ⟨before', w, after', hwritten, hkey, hvalue, fun v hv => ?_⟩
      exact hafter _ (List.mem_map_of_mem hv)
    · rintro ⟨before, w, after, hwritten, rfl, rfl, hafter⟩
      refine ⟨before.map Written.entry, after.map Written.entry, ?_, ?_⟩
      · rw [hwritten, List.map_append, List.map_cons]
        rfl
      · rw [List.forall_mem_map]
        exact hafter
  · have hscan : scan (sheetText others) = scan (sheetText sheet) := by
      rw [scan_sheetText, scan_sheetText]
      refine Keyed.ofList_perm ?_ (hperm.map _)
      rwa [List.map_map]
    exact ⟨hscan, readDraft_congr_scan hscan⟩
  · have hscan : scan (sheetText others) = scan (sheetText sheet) := by
      rw [scan_sheetText, scan_sheetText]
      refine Keyed.ofList_congr fun key => ?_
      rw [List.filter_map, List.filter_map]
      exact congrArg (List.map Written.entry) (horder key)
    exact ⟨hscan, readDraft_congr_scan hscan⟩

/-! ## Two orders of one sheet -/

section
open Double

def cardStatement : Written where
  form := .custom
  name := "Card-BG-Color"
  value := " var(--x,\n  #123) "
  isName := ⟨List.all_eq_true.1 (by decide +kernel), 'C', _, rfl, by decide +kernel⟩
  inside := List.all_iff_forall_prop.1 (by decide +kernel)
  filled := ⟨'#', by decide +kernel, by decide +kernel⟩
  uncommented := by decide +kernel

def windowStatement : Written where
  form := .rule
  name := "window_bg_color"
  value := "mix(@a:b, \x7b)"
  isName := ⟨List.all_eq_true.1 (by decide +kernel), 'w', _, rfl, by decide +kernel⟩
  inside := List.all_iff_forall_prop.1 (by decide +kernel)
  filled := ⟨'@', by decide +kernel, by decide +kernel⟩
  uncommented := by decide +kernel

/-- The comment opens twice and holds a statement. -/
def commented : List Piece := [
  .comment " /* card-bg-color: red; " (by decide +kernel), .statement cardStatement,
  .blank '\n' (by decide +kernel), .statement windowStatement]

def reordered : List Piece := [.statement windowStatement, .statement cardStatement]

theorem scan_sheet_reordered :
    (scan (sheetText commented)).get? "card_bg_color" = some "var(--x,\n  #123)".toList ∧
      (readDraft (sheetText reordered) : Except SourceError (Draft (Double .rounded))) =
        readDraft (sheetText commented) := by
  obtain ⟨_, _, hget, hreorder, _⟩ := scan_sheet (R := Double .rounded) commented
  refine ⟨(hget _ _).2 ⟨[], cardStatement, [windowStatement], rfl, ?_, ?_, ?_⟩,
    (hreorder reordered (.swap _ _ _) ?_).2⟩
  · decide +kernel
  · decide +kernel
  · decide +kernel
  · decide +kernel

end

end ThemeTokens.Declaration
