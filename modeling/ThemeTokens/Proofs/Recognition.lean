import Mathlib.Data.List.TakeWhile
import ThemeTokens.Compiler
import ThemeTokens.Proofs.Keyed

/-!
# Choosing the format

The first character that is no blank decides which format a source can have. A source that the
reader of this format accepts is always recognized, and where the choice reports an empty source,
that reader would have reported it as well.
-/
namespace ThemeTokens

theorem Text.head?_trimStart {t : Text} {c : Char} (hc : isBlank c = false) :
    t.trimStart.head? = some c ↔ ∃ blanks rest, t = blanks ++ c :: rest ∧
      ∀ b ∈ blanks, isBlank b = true := by
  constructor
  · intro h
    obtain ⟨rest, hrest⟩ := List.head?_eq_some_iff.1 h
    refine ⟨t.takeWhile isBlank, rest, ?_, fun b hb => List.mem_takeWhile_imp hb⟩
    rw [← hrest]
    exact List.takeWhile_append_dropWhile.symm
  · rintro ⟨blanks, rest, rfl, hblanks⟩
    rw [trimStart, List.dropWhile_append_of_pos hblanks,
      List.dropWhile_cons_of_neg (by rw [hc]; decide)]
    rfl

/-! ## What the readers accept -/

theorem Document.readDraft_of_root?_eq_none {R : Type} [Number R] {source : Text}
    (h : (root? source : Option (Keyed (Json R))) = none) :
    (readDraft source : Except SourceError (Draft R)) = .error .emptySource := by
  rw [readDraft, h]
  rfl

theorem Declaration.readDraft_of_statements {R : Type} [Number R] {source : Text}
    (h : statements (stripComments source) = []) :
    (readDraft source : Except SourceError (Draft R)) = .error .emptySource := by
  have hscan : scan source = [] := by
    rw [scan, h]
    rfl
  rw [readDraft, hscan]
  rfl

namespace Format
variable {R : Type} [Number R]

/-- A source is parsed to the schema of its draft. -/
theorem parse_eq_ok {format : Format} {policy : Policy R} {provenance : Option Text}
    {source : Text} {s : Schema R} : format.parse policy provenance source = .ok s ↔
      ∃ d, format.readDraft source = .ok d ∧ d.isEmpty = false ∧
        Schema.finalize d.complete policy provenance = s := by
  rw [parse]
  cases hread : (format.readDraft source : Except SourceError (Draft R)) with
  | error e => simp [bind, Except.bind]
  | ok d =>
    change d.toSchema policy provenance = .ok s ↔ _
    cases hempty : d.isEmpty with
    | true => simp [Draft.toSchema, hempty]
    | false => simp [Draft.toSchema, hempty]

/-- The only format that a source can have. -/
def ofOpening (source : Text) : Format :=
  if source.trimStart.head? = some '\x7b' then .document else .declarations

theorem ofOpening_eq_document {source : Text} : ofOpening source = .document ↔
    ∃ blanks rest, source = blanks ++ '\x7b' :: rest ∧ ∀ b ∈ blanks, isBlank b = true := by
  rw [← Text.head?_trimStart (by decide), ofOpening]
  split <;> simp_all

theorem eq_ofOpening_of_recognizes {format : Format} {source : Text}
    (h : format.recognizes R source = true) : format = ofOpening source := by
  cases format with
  | document =>
    simp only [recognizes, Document.recognizes, Bool.and_eq_true, decide_eq_true_eq] at h
    rw [ofOpening, if_pos h.1]
  | declarations =>
    simp only [recognizes, Declaration.recognizes, Bool.and_eq_true, decide_eq_true_eq] at h
    rw [ofOpening, if_neg h.1]

/-- A source that is not recognized holds nothing that the reader of its format could read. -/
theorem readDraft_of_not_recognizes {source : Text}
    (h : (ofOpening source).recognizes R source = false) :
    ((ofOpening source).readDraft source : Except SourceError (Draft R)) =
      .error .emptySource := by
  by_cases hbrace : source.trimStart.head? = some '\x7b'
  · rw [ofOpening, if_pos hbrace] at h ⊢
    simp only [recognizes, Document.recognizes, hbrace, decide_true, Bool.true_and,
      Option.isSome_eq_false_iff, Option.isNone_iff_eq_none] at h
    exact Document.readDraft_of_root?_eq_none h
  · rw [ofOpening, if_neg hbrace] at h ⊢
    simp only [recognizes, Declaration.recognizes, ne_eq, hbrace, not_false_eq_true, decide_true,
      Bool.true_and, Bool.not_eq_false', List.isEmpty_iff] at h
    exact Declaration.readDraft_of_statements h

theorem parse_of_not_recognizes {source : Text}
    (h : (ofOpening source).recognizes R source = false) (policy : Policy R)
    (provenance : Option Text) :
    (ofOpening source).parse policy provenance source = .error .emptySource := by
  rw [parse, readDraft_of_not_recognizes h]
  rfl

theorem mem_all (format : Format) : format ∈ all := by cases format <;> decide

theorem find?_recognizes (source : Text) : (all.find? fun format => format.recognizes R source) =
    if (ofOpening source).recognizes R source then some (ofOpening source) else none := by
  split
  · next h =>
    cases hfind : all.find? fun format => format.recognizes R source with
    | none => exact absurd h (List.find?_eq_none.1 hfind _ (mem_all _))
    | some format =>
      have hformat := (List.find?_eq_some_iff_append.1 hfind).1
      rw [eq_ofOpening_of_recognizes hformat]
  · next h =>
    refine List.find?_eq_none.2 fun format _ hformat => h ?_
    rwa [← eq_ofOpening_of_recognizes hformat]

theorem ofName?_name (format : Format) : ofName? format.name = some format := by
  cases format <;> decide

end Format

/-- Parsing a source without naming its format is parsing it by the name of the format that its
opening shows: a document if a brace comes first, after blanks or none. No other format recognizes
the source; this one does unless its reader finds the source empty. -/
theorem Compiler.parse_eq_parseWith {R : Type} [Number R] (c : Compiler R) (source : Text) :
    let format := Format.ofOpening source
    (format = .document ↔
        ∃ blanks rest, source = blanks ++ '\x7b' :: rest ∧ ∀ b ∈ blanks, isBlank b = true) ∧
      c.parse source = c.parseWith format.name source ∧
      (∀ other : Format, other.recognizes R source = true → other = format) ∧
      (∀ schema, c.parseWith format.name source = .ok schema →
        format.recognizes R source = true) ∧
      (c.parse source = .error (.source .emptySource) ↔
        c.parseWith format.name source = .error (.source .emptySource)) ∧
      (format.recognizes R source = false →
        (format.readDraft source : Except SourceError (Draft R)) = .error .emptySource) := by
  intro format
  have hname : c.parseWith format.name source = c.parseAs format source := by
    rw [parseWith, Format.ofName?_name]
  have hunrecognized (h : format.recognizes R source = false) :
      c.parseAs format source = .error (.source .emptySource) := by
    rw [parseAs, Format.parse_of_not_recognizes h]
    rfl
  have hparse : c.parse source = c.parseWith format.name source := by
    rw [hname, parse, Format.find?_recognizes]
    by_cases h : format.recognizes R source = true
    · rw [if_pos h]
    · rw [if_neg h, hunrecognized (Bool.eq_false_iff.2 h)]
  refine ⟨Format.ofOpening_eq_document, hparse, fun _ => Format.eq_ofOpening_of_recognizes,
    fun schema hschema => ?_, by rw [hparse], Format.readDraft_of_not_recognizes⟩
  by_contra h
  rw [hname, hunrecognized (Bool.eq_false_iff.2 h)] at hschema
  cases hschema

end ThemeTokens
