import ThemeTokens.Keyed
import ThemeTokens.Proofs.Text
import ThemeTokens.Target.Output

/-!
# Reading sections of keys

A reader of configuration texts that knows nothing of how they are written: a text is cut into
lines, and each line is empty, a header, or an entry of the section above it. What is read from a
text of sections depends on the breaks in their values.
-/
namespace ThemeTokens.Ini

/-! ## Lines -/

/-- A break ends a line, and the last line may go without. -/
def lines : Text → List Text
  | [] => []
  | c :: t =>
    if c = '\n' then [] :: lines t
    else match lines t with
      | [] => [[c]]
      | line :: rest => (c :: line) :: rest

theorem lines_append (t rest : Text) :
    lines (t ++ '\n' :: rest) = t.split '\n' ++ lines rest := by
  induction t with
  | nil => rfl
  | cons c t ih =>
    by_cases hc : c = '\n'
    · simp [lines, ih, hc, Text.split_cons_self]
    · obtain ⟨piece, pieces, hsplit⟩ := Text.exists_split '\n' t
      rw [hsplit] at ih
      simp [lines, ih, hc, Text.split_cons_of_ne hc hsplit]

theorem lines_flatMap (written : List Text) :
    lines (written.flatMap (· ++ ['\n'])) = written.flatMap (Text.split '\n') := by
  induction written with
  | nil => rfl
  | cons line written ih => simp [lines_append, ih]

theorem not_mem_of_mem_lines {t : Text} : ∀ line ∈ lines t, '\n' ∉ line := by
  induction t with
  | nil => exact fun line hline => absurd hline List.not_mem_nil
  | cons c t ih =>
    rw [lines]
    split
    · exact List.forall_mem_cons.2 ⟨List.not_mem_nil, ih⟩
    · next hc =>
      split
      · simp [Ne.symm hc]
      · next line rest hrest =>
        rw [hrest] at ih
        obtain ⟨hline, hlines⟩ := List.forall_mem_cons.1 ih
        exact List.forall_mem_cons.2
          ⟨List.not_mem_cons_of_ne_of_not_mem (Ne.symm hc) hline, hlines⟩

def entryText (entry : Text × Text) : Text := entry.1 ++ '=' :: entry.2

/-- The lines of a section, if there is no break in them. -/
def Section.lines (s : Section) : List Text := ('[' :: s.name ++ [']']) :: s.entries.map entryText

/-- The lines of sections, if there is no break in them. -/
def layout : List Section → List Text
  | [] => []
  | s :: rest => s.lines ++ rest.flatMap fun next => [] :: next.lines

theorem entryLine_eq (entry : Text × Text) : entryLine entry = entryText entry ++ ['\n'] := by
  simp [entryLine, entryText]

theorem Section.text_eq (s : Section) : s.text = s.lines.flatMap (· ++ ['\n']) := by
  simp [text, lines, List.flatMap_map, funext entryLine_eq]

theorem text_eq (sections : List Section) :
    text sections = (layout sections).flatMap (· ++ ['\n']) := by
  cases sections with
  | nil => rfl
  | cons s rest =>
    simp [text, layout, Text.join_cons, List.flatMap_map, List.flatMap_append, Section.text_eq,
      List.flatMap_assoc]

/-- A text of sections has the lines that were meant, and each break in one of them adds a line. -/
theorem lines_text (sections : List Section) :
    lines (text sections) = (layout sections).flatMap (Text.split '\n') := by
  rw [text_eq, lines_flatMap]

theorem layout_append {before : List Section} (h : before ≠ []) (after : List Section) :
    layout (before ++ after) = layout before ++ after.flatMap fun next => [] :: next.lines := by
  cases before with
  | nil => exact absurd rfl h
  | cons s before => simp [layout]

theorem mem_layout {sections : List Section} : ∀ line ∈ layout sections,
    line = [] ∨ ∃ s ∈ sections, line ∈ s.lines := by
  cases sections with
  | nil => exact fun line hline => absurd hline List.not_mem_nil
  | cons s rest =>
    intro line hline
    simp only [layout, List.mem_append, List.mem_flatMap, List.mem_cons] at hline
    rcases hline with hline | ⟨next, hnext, hline | hline⟩
    · exact .inr ⟨s, List.mem_cons_self, hline⟩
    · exact .inl hline
    · exact .inr ⟨next, List.mem_cons_of_mem _ hnext, hline⟩

theorem flatMap_split {written : List Text} (h : ∀ line ∈ written, '\n' ∉ line) :
    written.flatMap (Text.split '\n') = written := by
  have hsplit : ∀ line ∈ written, Text.split '\n' line = [line] :=
    fun line hline => Text.split_of_not_mem (h line hline)
  rw [List.flatMap_def, List.map_congr_left hsplit, ← List.flatMap_def, List.flatMap_singleton']

theorem Section.isEmpty_of_mem_lines {s : Section} : ∀ line ∈ s.lines, line.isEmpty = false := by
  refine List.forall_mem_cons.2 ⟨rfl, List.forall_mem_map.2 fun e _ => ?_⟩
  simp [entryText]

/-- What the lines of a section become in a text, apart from those that break off empty. -/
def Section.written (s : Section) : List Text :=
  s.lines.flatMap fun line => (line.split '\n').filter (!·.isEmpty)

theorem Section.written_eq_lines {s : Section} (h : ∀ line ∈ s.lines, '\n' ∉ line) :
    s.written = s.lines := by
  have hlines : ∀ line ∈ s.lines, (!line.isEmpty) = true := fun line hline => by
    rw [isEmpty_of_mem_lines line hline, Bool.not_false]
  rw [written, ← List.filter_flatMap, flatMap_split h, List.filter_eq_self.2 hlines]

theorem filter_lines_text (sections : List Section) :
    (lines (text sections)).filter (!·.isEmpty) = sections.flatMap Section.written := by
  have hblank : Text.split '\n' [] = [[]] := rfl
  change _ = sections.flatMap fun s =>
    s.lines.flatMap fun line => (line.split '\n').filter (!·.isEmpty)
  rw [lines_text, List.filter_flatMap]
  cases sections with
  | nil => rfl
  | cons s rest => simp [layout, List.flatMap_append, List.flatMap_assoc, hblank]

/-! ## Reading -/

inductive Line
  | blank
  | header (name : Text)
  | entry (key value : Text)
  deriving DecidableEq, Repr

/-- A header stands between brackets, and a value after the first equals sign. -/
def Line.read? : Text → Option Line
  | [] => some .blank
  | c :: t =>
    if c = '[' then (Text.beforeLast? ']' t).map .header
    else (Text.cutFirst? '=' (c :: t)).map fun cut => .entry cut.1 cut.2

/-- The entries above the first header, and the sections from there on. -/
def gather? : List Text → Option (List (Text × Text) × List Section)
  | [] => some ([], [])
  | line :: rest =>
    (gather? rest).bind fun below => (Line.read? line).map fun
      | .blank => below
      | .header name => ([], ⟨name, below.1⟩ :: below.2)
      | .entry key value => ((key, value) :: below.1, below.2)

/-- The sections of a text. There are none if a line cannot be read or stands in no section. -/
def read? (t : Text) : Option (List Section) :=
  (gather? (lines t)).bind fun found => if found.1 = [] then some found.2 else none

/-- Such a key stays on its line, is not taken for a header and does not end early. -/
def IsKey (key : Text) : Prop := '\n' ∉ key ∧ '=' ∉ key ∧ key.head? ≠ some '['

instance : DecidablePred IsKey := fun _ => inferInstanceAs (Decidable (_ ∧ _ ∧ _))

theorem Line.read?_header (name : Text) : read? ('[' :: name ++ [']']) = some (.header name) := by
  have hbefore : Text.beforeLast? ']' (name ++ [']']) = some name := Text.beforeLast?_append _ _
  simp [read?, hbefore]

theorem Line.read?_entry {key : Text} (h : IsKey key) (value : Text) :
    read? (entryText (key, value)) = some (.entry key value) := by
  obtain ⟨-, hequals, hbracket⟩ := h
  have hcut := Text.cutFirst?_append hequals value
  cases key with
  | nil => rfl
  | cons c key =>
    have hc : c ≠ '[' := fun h => hbracket (congrArg some h)
    rw [List.cons_append] at hcut
    simp [read?, entryText, hc, hcut]

theorem gather?_filter (ls : List Text) : gather? (ls.filter (!·.isEmpty)) = gather? ls := by
  induction ls with
  | nil => rfl
  | cons line rest ih =>
    cases line with
    | nil => simpa [gather?, Line.read?] using ih
    | cons c t =>
      rw [List.filter_cons_of_pos rfl, gather?, ih]
      rfl

theorem gather?_lines {s : Section} (hkeys : ∀ key ∈ Keyed.keys s.entries, IsKey key)
    {rest : List Text} {found : List Section} (hrest : gather? rest = some ([], found)) :
    gather? (s.lines ++ rest) = some ([], s :: found) := by
  obtain ⟨name, entries⟩ := s
  have hentries : gather? (entries.map entryText ++ rest) = some (entries, found) := by
    induction entries with
    | nil => exact hrest
    | cons e entries ih =>
      obtain ⟨he, hkeys⟩ := List.forall_mem_cons.1 hkeys
      rw [List.map_cons, List.cons_append, gather?, ih hkeys, Line.read?_entry he]
      rfl
  rw [Section.lines, List.cons_append, gather?, hentries, Line.read?_header]
  rfl

/-- Empty lines say nothing, and the others are read as the sections that have them. -/
theorem read?_eq_some {t : Text} {found : List Section}
    (hkeys : ∀ s ∈ found, ∀ key ∈ Keyed.keys s.entries, IsKey key)
    (hlines : (lines t).filter (!·.isEmpty) = found.flatMap Section.lines) :
    read? t = some found := by
  have hgather : gather? (found.flatMap Section.lines) = some ([], found) := by
    clear hlines
    induction found with
    | nil => rfl
    | cons s found ih =>
      obtain ⟨hs, hkeys⟩ := List.forall_mem_cons.1 hkeys
      exact gather?_lines hs (ih hkeys)
  rw [← hlines, gather?_filter] at hgather
  rw [read?, hgather]
  rfl

/-! ## Values -/

/-- Every value that a key is given below a header, in the order of the text. -/
def values (sections : List Section) (header key : Text) : List Text :=
  (sections.filter (·.name = header)).flatMap fun s =>
    (s.entries.filter (·.1 = key)).map Prod.snd

theorem values_append (before after : List Section) (header key : Text) :
    values (before ++ after) header key = values before header key ++ values after header key := by
  simp [values]

theorem values_eq_nil {sections : List Section} {header : Text}
    (h : header ∉ sections.map Section.name) (key : Text) : values sections header key = [] := by
  have hfilter : sections.filter (·.name = header) = [] := by
    simp only [List.filter_eq_nil_iff, decide_eq_true_eq]
    exact fun s hs heq => h (heq ▸ List.mem_map_of_mem hs)
  rw [values, hfilter, List.flatMap_nil]

theorem filter_eq_singleton {α : Type} {f : α → Text} {l : List α} (h : (l.map f).Nodup) {a : α}
    (ha : a ∈ l) : l.filter (f · = f a) = [a] := by
  induction l with
  | nil => cases ha
  | cons b l ih =>
    obtain ⟨hb, hl⟩ := List.nodup_cons.1 h
    rcases List.mem_cons.1 ha with rfl | ha
    · have hrest : ∀ c ∈ l, ¬ f c = f a := fun c hc heq => hb (heq ▸ List.mem_map_of_mem hc)
      simpa using hrest
    · have hne : ¬ f b = f a := fun heq => hb (heq ▸ List.mem_map_of_mem ha)
      rw [List.filter_cons_of_neg (by simpa using hne), ih hl ha]

/-- Where no header and no key is repeated, a key has the one value of its entry. -/
theorem values_eq_singleton {sections : List Section} (hheaders : (sections.map Section.name).Nodup)
    {s : Section} (hs : s ∈ sections) (hkeys : (Keyed.keys s.entries).Nodup)
    {entry : Text × Text} (hentry : entry ∈ s.entries) :
    values sections s.name entry.1 = [entry.2] := by
  rw [values, filter_eq_singleton hheaders hs, List.flatMap_singleton,
    filter_eq_singleton hkeys hentry, List.map_singleton]

/-- The value that a line gives to a key. -/
def valueOf? (key line : Text) : Option Text :=
  (line.cutFirst? '=').bind fun cut => if cut.1 = key then some cut.2 else none

theorem valueOf?_entryText {other : Text} (h : '=' ∉ other) (key value : Text) :
    valueOf? key (entryText (other, value)) = if other = key then some value else none := by
  rw [valueOf?, entryText, Text.cutFirst?_append h, Option.bind_some]

/-- A line that gives a key a value is the entry of the two. -/
theorem entryText_of_valueOf? {key line value : Text} (h : valueOf? key line = some value) :
    line = entryText (key, value) := by
  obtain ⟨⟨front, rest⟩, hcut, hfront⟩ := Option.bind_eq_some_iff.1 h
  obtain ⟨rfl, hrest⟩ := Option.ite_none_right_eq_some.1 hfront
  cases hrest
  exact (Text.cutFirst?_eq_some_iff.1 hcut).1

theorem valueOf?_header {key : Text} (h : key.head? ≠ some '[') (t : Text) :
    valueOf? key ('[' :: t) = none := by
  have hequals : ¬ '[' = '=' := by decide
  rw [valueOf?, Text.cutFirst?, if_neg hequals, Option.bind_map, Option.bind_eq_none_iff]
  intro cut _
  refine if_neg ?_
  rintro rfl
  exact h rfl

theorem Section.valueOf?_eq_none {s : Section} {key : Text} (hbracket : key.head? ≠ some '[')
    (hkeys : ∀ other ∈ Keyed.keys s.entries, IsKey other) (h : key ∉ Keyed.keys s.entries) :
    ∀ line ∈ s.lines, valueOf? key line = none := by
  refine List.forall_mem_cons.2 ⟨valueOf?_header hbracket _, List.forall_mem_map.2 fun e he => ?_⟩
  have hmem : e.1 ∈ Keyed.keys s.entries := List.mem_map_of_mem he
  rw [valueOf?_entryText (hkeys e.1 hmem).2.1]
  refine if_neg ?_
  rintro rfl
  exact h hmem

end ThemeTokens.Ini
