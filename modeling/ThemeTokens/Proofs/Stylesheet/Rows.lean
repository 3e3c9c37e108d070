import ThemeTokens.Proofs.Color.Literal
import ThemeTokens.Proofs.Declaration
import ThemeTokens.Proofs.Paint
import ThemeTokens.Target.Stylesheet

/-!
# Stylesheets as sheets of declarations

The comment at the top of a stylesheet ends where it should, whatever the label of the schema says,
and each row is a statement. What is read from the statements follows from the rows alone.
-/
namespace ThemeTokens.Stylesheet
open Declaration Double

/-! ## The header -/

theorem head?_insideComment (t : Text) : (insideComment t).head? = t.head? := by
  fun_cases insideComment t with
  | case1 t => rfl
  | case2 c t => rfl
  | case3 => rfl

theorem not_close_cons {c : Char} {t : Text} (h : c = '*' → t.head? ≠ some '/')
    (ht : ¬ ['*', '/'] <:+: t) : ¬ ['*', '/'] <:+: c :: t := by
  rw [List.infix_cons_iff]
  rintro (hstart | hin)
  · obtain ⟨hc, hstart⟩ := List.cons_prefix_cons.1 hstart
    obtain ⟨rest, rfl⟩ := hstart
    exact h hc.symm rfl
  · exact ht hin

theorem not_close_append {t rest : Text} (h : '*' ∉ t) (hrest : ¬ ['*', '/'] <:+: rest) :
    ¬ ['*', '/'] <:+: t ++ rest := by
  induction t with
  | nil => exact hrest
  | cons c t ih =>
    obtain ⟨hc, ht⟩ := not_or.1 (mt List.mem_cons.2 h)
    exact not_close_cons (fun he => absurd he.symm hc) (ih ht)

/-- Escaped text does not close a comment, not even together with what follows it. -/
theorem not_close_insideComment {rest : Text} (hhead : rest.head? ≠ some '/')
    (hrest : ¬ ['*', '/'] <:+: rest) (t : Text) :
    ¬ ['*', '/'] <:+: insideComment t ++ rest := by
  fun_induction insideComment t with
  | case1 t ih =>
    have hslash : ¬ ['*', '/'] <:+: '/' :: (insideComment t ++ rest) :=
      not_close_cons (fun he => absurd he (by decide)) ih
    refine not_close_cons (fun _ he => ?_) (not_close_cons (fun he => absurd he (by decide)) hslash)
    cases he
  | case2 c t hopen ih =>
    -- a star that is kept stands before a slash neither in the text nor where the text ends
    refine not_close_cons (fun hc hslash => ?_) ih
    change (insideComment t ++ rest).head? = _ at hslash
    rw [List.head?_append, head?_insideComment] at hslash
    cases t with
    | nil => exact hhead hslash
    | cons d t =>
      injection hslash with hd
      exact hopen t hc (hd ▸ rfl)
  | case3 => exact hrest

section
variable {R : Type} (s : Schema R)

/-- What the comment at the top of a stylesheet says. -/
def headerBody (toolkit : Text) : Text :=
  " " ++ toolkit ++ " colors generated by tincture from " ++ insideComment (origin s) ++ " "

theorem not_close_headerBody {toolkit : Text} (h : '*' ∉ toolkit) :
    ¬ ['*', '/'] <:+: headerBody s toolkit := by
  have hopening : '*' ∉ " ".toList ++ toolkit ++ " colors generated by tincture from " := by
    rw [List.mem_append, List.mem_append, not_or, not_or]
    exact ⟨⟨by decide, h⟩, by decide⟩
  have hend : ¬ ['*', '/'] <:+: " ".toList := by decide
  rw [headerBody, List.append_assoc]
  exact not_close_append hopening (not_close_insideComment (by decide) hend _)

theorem scans_header {toolkit : Text} (h : '*' ∉ toolkit) : Scans (header toolkit s) [] := by
  have htext : header toolkit s =
      (Piece.comment (headerBody s toolkit) (not_close_headerBody s h)).text ++
        (Piece.blank '\n' (by decide)).text := by
    have happend (body middle label : Text) :
        ['/', '*', ' '] ++ body ++ middle ++ label ++ [' ', '*', '/', '\n'] =
          ['/', '*'] ++ ([' '] ++ body ++ middle ++ label ++ [' ']) ++ ['*', '/'] ++ ['\n'] := by
      simp
    exact happend toolkit " colors generated by tincture from " (insideComment (origin s))
  rw [htext]
  exact (scans_piece _).append (scans_piece _)

end

/-! ## Colours -/

section
variable {lib : Binary64.Elementary} {c : Color (Double lib)}

/-- The characters of colours. -/
def colorAlphabet : Text := "#abcdef0123456789rg(), .-"

theorem mem_colorText (h : c.HasOpacity) : ∀ d ∈ colorText c, d ∈ colorAlphabet := by
  have hliteral : literalAlphabet ⊆ colorAlphabet := List.all_iff_forall_prop.1 (by decide)
  intro d hd
  rw [colorText] at hd
  split at hd
  · obtain ⟨e, he, rfl⟩ := List.mem_map.1 hd
    exact Color.forall_mem_hexText (p := fun e => e.toLower ∈ colorAlphabet) (by decide)
      (by decide) c e he
  · exact hliteral (mem_literalText h.1 h.2 d hd)

theorem trim_colorText (c : Color (Double lib)) : (colorText c).trim = colorText c := by
  rw [colorText]
  split
  · exact Text.trim_eq_self c.isBlank_lower_hexText
  · exact trim_literalText c

theorem head?_colorText (c : Color (Double lib)) :
    (colorText c).head? = some '#' ∨ (colorText c).head? = some 'r' := by
  rw [colorText]
  split
  · rw [c.lower_hexText]
    exact .inl rfl
  · next hc =>
    rw [literalText_eq, literalOpening, if_neg hc]
    exact .inr rfl

/-- What is written for a colour is read as the colour with the nearest thousandth of its alpha. -/
theorem ofLiteral_colorText (h : c.HasOpacity) :
    Color.ofLiteral (colorText c) = .ok c.rounded := by
  rw [colorText]
  split
  · next hc => rw [c.ofLiteral_lower_hexText, printed_eq_rounded h.1 h.2 hc]
  · exact ofLiteral_literalText h.1 h.2

theorem looksLikeLiteral_colorText (h : c.HasOpacity) :
    Color.looksLikeLiteral (colorText c) = true := by
  rw [colorText]
  split
  · exact c.looksLikeLiteral_lower_hexText
  · exact looksLikeLiteral_literalText h.1 h.2

theorem rawValue_colorText (h : c.HasOpacity) (declared : Text → Bool) :
    rawValue declared (colorText c) = .leaf (colorText c) := by
  have himportant : ∀ d ∈ colorAlphabet, d.toLower ≠ '!' := List.all_iff_forall_prop.1 (by decide)
  refine rawValue_eq_leaf declared (trim_colorText c)
    (fun d hd => himportant d (mem_colorText h d hd)) ?_ ?_
  · rcases head?_colorText c with hhead | hhead <;> rw [hhead] <;> decide
  · rcases head?_colorText c with hhead | hhead <;> rw [hhead] <;> decide

/-- The rule that gives a name to a colour. -/
def written (name : Text) (hname : IsName name) (c : Color (Double lib)) (h : c.HasOpacity) :
    Written where
  form := .rule
  name := name
  value := colorText c
  isName := hname
  inside := by
    have hinside : ∀ d ∈ colorAlphabet, Form.endsValue .rule d = false :=
      List.all_iff_forall_prop.1 (by decide)
    exact fun d hd => hinside d (mem_colorText h d hd)
  filled := by
    rcases head?_colorText c with hhead | hhead
    · exact ⟨'#', List.mem_of_mem_head? hhead, by decide⟩
    · exact ⟨'r', List.mem_of_mem_head? hhead, by decide⟩
  uncommented := by
    intro hin
    have hslash : '/' ∈ colorAlphabet := mem_colorText h _ (hin.subset List.mem_cons_self)
    exact absurd hslash (by decide)

end

/-! ## Rows -/

/-- A name of letters and underscores in lower case. -/
def IsPlain (name : Text) : Prop :=
  name ≠ [] ∧ ∀ c ∈ name, isNameStart c = true ∧ c.toLower = c

instance (name : Text) : Decidable (IsPlain name) :=
  @instDecidableAnd _ _ inferInstance (List.decidableBAll _ name)

theorem IsPlain.isName {name : Text} (h : IsPlain name) : IsName name where
  chars c hc := isNameChar_of_isNameStart (h.2 c hc).1
  start := by
    obtain ⟨c, t, rfl⟩ := List.exists_cons_of_ne_nil h.1
    exact ⟨c, t, rfl, (h.2 c List.mem_cons_self).1⟩

theorem IsPlain.key_eq {name : Text} (h : IsPlain name) :
    (name.replaceChar '-' '_').lower = name := by
  have hdash : name.replaceChar '-' '_' = name := by
    refine (List.map_congr_left fun c hc => if_neg ?_).trans (List.map_id name)
    rintro rfl
    exact absurd (h.2 _ hc).1 (by decide)
  rw [hdash]
  exact Text.lower_eq_self fun c hc => (h.2 c hc).2

section
variable {R : Type}

/-- Rows that declare different names by colours of the schema. -/
structure WellFormed (rows : List (PaintRow R)) : Prop where
  plain : ∀ name ∈ Keyed.keys rows, IsPlain name
  nodup : (Keyed.keys rows).Nodup
  unfixed : ∀ row ∈ rows, row.2.isFixed = false

/-- What the colour slot of a schema is read from: the first of its names that has a row. -/
def answering? {α : Type} (rows : Keyed α) (slot : ColorSlot) : Option α :=
  (colorNames slot).findSome? (Keyed.get? · rows)

theorem answering?_mapValues {α β : Type} (f : α → β) (rows : Keyed α) (slot : ColorSlot) :
    answering? (rows.mapValues fun _ => f) slot = (answering? rows slot).map f := by
  rw [answering?, answering?, List.map_findSome?]
  congr 1
  funext name
  exact Keyed.get?_mapValues _ name rows

end

/-! ## Scanning -/

section
variable {lib : Binary64.Elementary} {s : Schema (Double lib)} {rows : List (PaintRow (Double lib))}

/-- What a row declares. -/
def rowStatement (s : Schema (Double lib)) (row : PaintRow (Double lib)) : Statement :=
  ⟨row.1, colorText (s.paint row.2)⟩

/-- The texts of the rows' colours. -/
def declared (s : Schema (Double lib)) (rows : List (PaintRow (Double lib))) : Keyed Text :=
  Keyed.mapValues (fun _ p => colorText (s.paint p)) rows

/-- The draft that is read from the rows: each slot has what answers for it. -/
def reread (s : Schema (Double lib)) (rows : List (PaintRow (Double lib))) : Draft (Double lib) :=
  Table.ofFn (fun slot => (answering? rows slot).map fun p => (s.paint p).rounded) fun _ => none

theorem keys_declared : Keyed.keys (declared s rows) = Keyed.keys rows := by
  rw [declared, Keyed.keys, Keyed.mapValues, List.map_map]
  rfl

theorem WellFormed.nodup_declared (h : WellFormed rows) :
    (Keyed.keys (declared s rows)).Nodup := by
  rw [keys_declared]
  exact h.nodup

variable (hs : ∀ slot, (s.color slot).HasOpacity)
include hs

theorem scans_definition {row : PaintRow (Double lib)} (hname : IsPlain row.1)
    (hfixed : row.2.isFixed = false) : Scans (definition s row) [rowStatement s row] := by
  have hopacity := s.hasOpacity_paint hs hfixed
  have htext : definition s row =
      (Piece.statement (written row.1 hname.isName (s.paint row.2) hopacity)).text ++
        (Piece.blank '\n' (by decide)).text := by
    have happend (opening name value : Text) : opening ++ name ++ [' '] ++ value ++ [';', '\n'] =
        opening ++ name ++ ' ' :: value ++ [';'] ++ ['\n'] := by simp
    exact happend "@define-color " row.1 (colorText (s.paint row.2))
  rw [htext]
  exact (scans_piece _).append (scans_piece _)

theorem scans_text {toolkit : Text} (htoolkit : '*' ∉ toolkit)
    {groups : List (List (PaintRow (Double lib)))} (hrows : WellFormed groups.flatten) :
    Scans (text toolkit groups s) (groups.flatten.map (rowStatement s)) := by
  have hgroup : ∀ rows ∈ groups, Scans (definitions s rows) (rows.map (rowStatement s)) := by
    intro rows hgroup
    have hdefinitions : Scans (rows.flatMap (definition s))
        (rows.flatMap fun row => [rowStatement s row]) := by
      refine Scans.flatMap fun row hrow => ?_
      have hmem : row ∈ groups.flatten := List.mem_flatten_of_mem hgroup hrow
      exact scans_definition hs (hrows.plain row.1 (List.mem_map_of_mem hmem))
        (hrows.unfixed row hmem)
    rw [← List.map_eq_flatMap] at hdefinitions
    exact (scans_piece (.blank '\n' (by decide))).append hdefinitions
  rw [List.map_flatten]
  exact (scans_header s htoolkit).append (Scans.flatMap hgroup)

section
variable {source : Text} (hscans : statements (stripComments source) = rows.map (rowStatement s))
  (hrows : WellFormed rows)
include hscans hrows

theorem scan_eq : scan source = Keyed.ofList (declared s rows) := by
  rw [scan, hscans, List.map_map]
  congr 1
  refine List.map_congr_left fun row hrow => ?_
  have hplain := hrows.plain row.1 (List.mem_map_of_mem hrow)
  have hopacity := s.hasOpacity_paint hs (hrows.unfixed row hrow)
  have hname := (written row.1 hplain.isName (s.paint row.2) hopacity).normalizeName_name
  exact Prod.ext (hname.trans hplain.key_eq) (trim_colorText _)

theorem get?_scan (name : Text) : (scan source).get? name =
    (Keyed.get? name rows).map fun p => colorText (s.paint p) := by
  rw [scan_eq hs hscans hrows, Keyed.get?_ofList_of_nodup hrows.nodup_declared, declared,
    Keyed.get?_mapValues]

theorem get?_entries (name : Text) : (entries (scan source)).get? name =
    (Keyed.get? name rows).map fun p => .leaf (colorText (s.paint p)) := by
  rw [entries, Keyed.get?_mapValues, get?_scan hs hscans hrows, Option.map_map]
  refine Option.map_congr fun p hp => ?_
  exact rawValue_colorText (s.hasOpacity_paint hs (hrows.unfixed _ (Keyed.mem_of_get? hp))) _

theorem colorIs_answering (slot : ColorSlot) : ColorIs (entries (scan source)) slot
    ((answering? rows slot).map fun p => (s.paint p).rounded) := by
  have hentries := get?_entries hs hscans hrows
  have hpassed {name : Text} (h : Keyed.get? name rows = none) :
      PassedOver (entries (scan source)) (Suits (Double lib) (.color slot)) name :=
    .inl (by rw [hentries, h]; rfl)
  cases hanswer : answering? rows slot with
  | none =>
    have hnone := List.findSome?_eq_none_iff.1 hanswer
    exact .unset fun name hname => hpassed (hnone name hname)
  | some p =>
    obtain ⟨before, name, after, hnames, hname, hbefore⟩ := List.findSome?_eq_some_iff.1 hanswer
    have hopacity := s.hasOpacity_paint hs (hrows.unfixed _ (Keyed.mem_of_get? hname))
    have hleaf : (entries (scan source)).get? name = some (.leaf (colorText (s.paint p))) := by
      rw [hentries, hname]
      rfl
    exact .settled ⟨⟨before, after, hnames, fun n hn => hpassed (hbefore n hn)⟩,
      ⟨name, .refl, hleaf⟩, looksLikeLiteral_colorText hopacity⟩ (ofLiteral_colorText hopacity)

theorem readDraft_eq_reread (hscalar : ∀ slot, ∀ name ∈ scalarNames slot, name ∉ Keyed.keys rows)
    (hne : rows ≠ []) : readDraft source = .ok (reread s rows) := by
  have hscan : scan source ≠ [] := by
    intro hempty
    obtain ⟨row, rest, rfl⟩ := List.exists_cons_of_ne_nil hne
    have hget := get?_scan hs hscans hrows row.1
    rw [hempty, Keyed.get?, Keyed.get?, if_pos rfl] at hget
    cases hget
  refine (readDraft_eq_ok_iff hscan).2 ⟨fun slot => ?_, fun slot => ?_⟩
  · rw [reread, Table.color_ofFn]
    exact colorIs_answering hs hscans hrows slot
  · rw [reread, Table.scalar_ofFn]
    refine .unset fun name hname => .inl ?_
    rw [get?_entries hs hscans hrows, Keyed.get?_eq_none (hscalar slot name hname)]
    rfl

end

/-- What a stylesheet says of a schema: one statement for each row, by whose name a scan finds the
text of its colour, and nothing else. -/
structure Declares (source : Text) (rows : List (PaintRow (Double lib)))
    (s : Schema (Double lib)) : Prop where
  statements : statements (stripComments source) = rows.map (rowStatement s)
  scan : (scan source).Perm (declared s rows)
  color : ∀ row ∈ rows, ∃ t c, (Declaration.scan source).get? row.1 = some t ∧
    Color.ofLiteral t = .ok c ∧ IsRounded (s.paint row.2) c

theorem declares_of_statements {source : Text}
    (hscans : Declaration.statements (stripComments source) = rows.map (rowStatement s))
    (hrows : WellFormed rows) : Declares source rows s := by
  have hscan := scan_eq hs hscans hrows
  have hperm : (scan source).Perm (declared s rows) := by
    rw [hscan]
    exact Keyed.perm_ofList hrows.nodup_declared
  have hsorted : (scan source).Sorted := by
    rw [hscan]
    exact Keyed.sorted_ofList _
  refine ⟨hscans, hperm, fun row hrow => ?_⟩
  have hopacity := s.hasOpacity_paint hs (hrows.unfixed row hrow)
  have hmem : (row.1, colorText (s.paint row.2)) ∈ scan source :=
    hperm.mem_iff.2 (List.mem_map_of_mem hrow)
  exact ⟨_, _, hsorted.get?_of_mem hmem, ofLiteral_colorText hopacity,
    isRounded_rounded hopacity.1 hopacity.2⟩

end

end ThemeTokens.Stylesheet
