import ThemeTokens.Proofs.Recognition
import ThemeTokens.Proofs.Stylesheet.Rows
import ThemeTokens.Proofs.Synthesis

/-!
# Reading a stylesheet back

The stylesheets of a schema declare their rows and nothing else. Their colours are read as they are,
up to three decimal places of alpha, and so are the slots that have a row of their own.
-/
namespace ThemeTokens.Stylesheet
open Declaration Double

/-! ## The two sheets -/

section
variable {R : Type}

/-- What can be told of rows without numbers. -/
def outline (rows : List (PaintRow R)) : Keyed (Option ColorSlot × Bool) :=
  Keyed.mapValues (fun _ p => (p.slot?, p.isLegible)) rows

theorem keys_outline (rows : List (PaintRow R)) :
    Keyed.keys (outline rows) = Keyed.keys rows := by
  rw [outline, Keyed.keys, Keyed.mapValues, List.map_map]
  rfl

theorem answering?_outline (rows : List (PaintRow R)) (slot : ColorSlot) :
    answering? (outline rows) slot =
      (answering? rows slot).map fun p => (p.slot?, p.isLegible) :=
  answering?_mapValues _ rows slot

theorem answering?_of_outline {rows : List (PaintRow R)} {slot : ColorSlot}
    (h : answering? (outline rows) slot = some (some slot, false)) :
    answering? rows slot = some (.slot slot) := by
  rw [answering?_outline] at h
  obtain ⟨p, hp, hslot⟩ := Option.map_eq_some_iff.1 h
  rw [hp, Paint.slot?_eq_some.1 (congrArg Prod.fst hslot)]

/-- The slots that a stylesheet has under names by which they are read. -/
def carriedSlots : List ColorSlot := [
  .surfacesPrimary, .surfacesSecondary, .surfacesTertiary, .surfacesElevated, .surfacesInverse,
  .contentPrimary, .contentInverse, .contentLink, .contentLinkVisited, .accentsPrimary,
  .accentsSuccess, .accentsWarning, .accentsError, .bordersSubtle, .bordersDefault]

/-- What holds of the outline of rows that a theme can be read from. -/
structure Readable (outline : Keyed (Option ColorSlot × Bool)) : Prop where
  plain : ∀ name ∈ Keyed.keys outline, IsPlain name
  nodup : (Keyed.keys outline).Nodup
  scalar : ∀ slot ∈ ScalarSlot.all, ∀ name ∈ scalarNames slot, name ∉ Keyed.keys outline
  carried : ∀ slot ∈ carriedSlots, (answering? outline slot) = some (some slot, false)
  neutral : ∀ slot ∈ ColorSlot.all, ((answering? outline slot).map Prod.snd) ≠ some true

variable [Number R]

/-- The rows of the stylesheet of GTK 3. -/
def gtk3Rows : List (PaintRow R) := adwaitaRows ++ legacyRows

def gtk3Outline : Keyed (Option ColorSlot × Bool) := outline (gtk3Rows : List (PaintRow Float))

/-- The outline does not depend on the kind of numbers. -/
theorem outline_gtk3Rows : outline (gtk3Rows : List (PaintRow R)) = gtk3Outline := rfl

/-- These facts are evaluated together, so that each name is decoded once. -/
theorem readable_gtk3Outline : Readable gtk3Outline := by
  obtain ⟨hplain, hnodup, hscalar, hcarried, hneutral⟩ :
      (∀ name ∈ Keyed.keys gtk3Outline, IsPlain name) ∧ (Keyed.keys gtk3Outline).Nodup ∧
      (∀ slot ∈ ScalarSlot.all, ∀ name ∈ scalarNames slot, name ∉ Keyed.keys gtk3Outline) ∧
      (∀ slot ∈ carriedSlots, answering? gtk3Outline slot = some (some slot, false)) ∧
      ∀ slot ∈ ColorSlot.all, (answering? gtk3Outline slot).map Prod.snd ≠ some true := by
    decide +kernel
  exact ⟨hplain, hnodup, hscalar, hcarried, hneutral⟩

theorem keys_gtk3Rows :
    Keyed.keys (gtk3Rows : List (PaintRow R)) = Keyed.keys gtk3Outline := by
  rw [← outline_gtk3Rows (R := R), keys_outline]

theorem wellFormed_gtk3Rows : WellFormed (gtk3Rows : List (PaintRow R)) := by
  refine ⟨?_, ?_, ?_⟩
  · rw [keys_gtk3Rows]
    exact readable_gtk3Outline.plain
  · rw [keys_gtk3Rows]
    exact readable_gtk3Outline.nodup
  · have hall : (gtk3Rows : List (PaintRow R)).all (fun row => !row.2.isFixed) = true := rfl
    simpa using hall

theorem keys_append_legacyRows : Keyed.keys (gtk3Rows : List (PaintRow R)) =
    Keyed.keys (adwaitaRows : List (PaintRow R)) ++ Keyed.keys (legacyRows : List (PaintRow R)) :=
  List.map_append

theorem wellFormed_adwaitaRows : WellFormed (adwaitaRows : List (PaintRow R)) := by
  have h : WellFormed (gtk3Rows : List (PaintRow R)) := wellFormed_gtk3Rows
  refine ⟨fun name hname => h.plain name ?_, ?_, fun row hrow => h.unfixed row ?_⟩
  · rw [keys_append_legacyRows]
    exact List.mem_append_left _ hname
  · have hnodup := h.nodup
    rw [keys_append_legacyRows] at hnodup
    exact (List.nodup_append.1 hnodup).1
  · exact List.mem_append_left _ hrow

theorem scalarNames_gtk3Rows : ∀ slot, ∀ name ∈ scalarNames slot,
    name ∉ Keyed.keys (gtk3Rows : List (PaintRow R)) := by
  rw [keys_gtk3Rows]
  exact fun slot => readable_gtk3Outline.scalar slot (ScalarSlot.mem_all slot)

theorem scalarNames_adwaitaRows : ∀ slot, ∀ name ∈ scalarNames slot,
    name ∉ Keyed.keys (adwaitaRows : List (PaintRow R)) := by
  intro slot name hname hmem
  refine scalarNames_gtk3Rows (R := R) slot name hname ?_
  rw [keys_append_legacyRows]
  exact List.mem_append_left _ hmem

theorem answering?_carried {slot : ColorSlot} (h : slot ∈ carriedSlots) :
    answering? (gtk3Rows : List (PaintRow R)) slot = some (.slot slot) :=
  answering?_of_outline (readable_gtk3Outline.carried slot h)

theorem answering?_window : answering? (adwaitaRows : List (PaintRow R)) .surfacesPrimary =
    some (.slot .surfacesPrimary) := by
  refine answering?_of_outline ?_
  have hwindow : answering? (outline (adwaitaRows : List (PaintRow Float))) .surfacesPrimary =
      some (some .surfacesPrimary, false) := by decide
  exact hwindow

theorem isLegible_answering? {slot : ColorSlot} {p : Paint R}
    (h : answering? gtk3Rows slot = some p) : p.isLegible = false := by
  have hneutral := readable_gtk3Outline.neutral slot (ColorSlot.mem_all slot)
  rw [← outline_gtk3Rows (R := R), answering?_outline, h] at hneutral
  exact Bool.eq_false_iff.2 fun hlegible => hneutral (congrArg some hlegible)

end

/-! ## Reading the sheets -/

section
variable {lib : Binary64.Elementary} {s : Schema (Double lib)}

def gtk3Text (s : Schema (Double lib)) : Text := text "GTK 3" [adwaitaRows, legacyRows] s

def gtk4Text (s : Schema (Double lib)) : Text := text "GTK 4" [adwaitaRows] s

theorem file?_output (s : Schema (Double lib)) :
    (output s).file? gtk3Path = some (gtk3Text s) ∧
      (output s).file? gtk4Path = some (gtk4Text s) := by
  have hne : gtk3Path ≠ gtk4Path := by decide
  have hfiles : (output s).files =
      Keyed.insert gtk4Path (gtk4Text s) (Keyed.insert gtk3Path (gtk3Text s) []) := rfl
  constructor
  · rw [Output.file?, hfiles, Keyed.get?_insert, if_neg hne, Keyed.get?_insert, if_pos rfl]
  · rw [Output.file?, hfiles, Keyed.get?_insert, if_pos rfl]

theorem ofOpening_text (toolkit : Text) (groups : List (List (PaintRow (Double lib)))) :
    Format.ofOpening (text toolkit groups s) = .declarations := by
  have hhead : (text toolkit groups s).trimStart.head? = some '/' := rfl
  rw [Format.ofOpening, hhead]
  exact if_neg (by decide)

/-- A source that declares a window is parsed to a schema of the window's variant. -/
theorem parse_of_window (c : Compiler (Double lib)) {source : Text} {d : Draft (Double lib)}
    {window : Color (Double lib)} (hopening : Format.ofOpening source = .declarations)
    (hd : readDraft source = .ok d) (hwindow : d.color .surfacesPrimary = some window) :
    ∃ schema, c.parse source = .ok schema ∧ schema.variant = Variant.ofSurface window := by
  have hrecognizes : (Format.ofOpening source).recognizes (Double lib) source = true := by
    by_contra h
    have hempty := Format.readDraft_of_not_recognizes (Bool.eq_false_iff.2 h)
    rw [hopening, Format.readDraft, hd] at hempty
    cases hempty
  have hparse : c.parse source =
      .ok (Schema.finalize d.complete c.config.policy none) := by
    rw [Compiler.parse, Format.find?_recognizes, if_pos hrecognizes, hopening]
    have := Format.parse_declarations hd hwindow c.config.policy none
    simp only [Compiler.parseAs, this]
    rfl
  refine ⟨_, hparse, ?_⟩
  have hsurface := Schema.finalize_surfacesPrimary d.complete c.config.policy none
  rw [Draft.color_complete hwindow] at hsurface
  exact congrArg Variant.ofSurface hsurface

/-! ## Schemas -/

/-- The stylesheets of a schema, which do not depend on the name of the scheme. -/
structure AreSheets (s : Schema (Double lib)) (gtk3 gtk4 : Text) : Prop where
  gtk3 : ∀ scheme, (Target.gtk.render scheme s).file? "gtk-3.0/gtk.css" = some gtk3
  gtk4 : ∀ scheme, (Target.gtk.render scheme s).file? "gtk-4.0/gtk.css" = some gtk4

theorem areSheets (s : Schema (Double lib)) : AreSheets s (gtk3Text s) (gtk4Text s) :=
  ⟨fun _ => (file?_output s).1, fun _ => (file?_output s).2⟩

/-- What is read from the stylesheets of a schema. -/
structure ReadsBack (s : Schema (Double lib)) (gtk3 gtk4 : Text) : Prop where
  declares : Declares gtk3 (adwaitaRows ++ legacyRows) s ∧ Declares gtk4 adwaitaRows s
  carried : ∃ d, readDraft gtk3 = .ok d ∧
    ∀ slot ∈ carriedSlots, ∃ c, d.color slot = some c ∧ IsRounded (s.color slot) c
  /-- Apart from the tokens nothing matters, least of all the label. -/
  draft : ∀ other : Schema (Double lib), other.tokens = s.tokens →
    ∀ gtk3' gtk4', AreSheets other gtk3' gtk4' →
      (readDraft gtk3' : Except SourceError (Draft (Double lib))) = readDraft gtk3 ∧
        (other.policy = s.policy → scan gtk3' = scan gtk3 ∧ scan gtk4' = scan gtk4)
  variant : ∀ c : Compiler (Double lib), ∀ source ∈ [gtk3, gtk4],
    ∃ schema, c.parse source = .ok schema ∧ schema.variant = s.variant

theorem carried_reread {slot : ColorSlot} (h : slot ∈ carriedSlots) :
    (reread s gtk3Rows).color slot = some (s.color slot).rounded := by
  rw [reread, Table.color_ofFn, answering?_carried h]
  rfl

theorem window_reread :
    (reread s adwaitaRows).color .surfacesPrimary = some (s.color .surfacesPrimary).rounded := by
  rw [reread, Table.color_ofFn, answering?_window]
  rfl

section
variable (hs : ∀ slot, (s.color slot).HasOpacity)
include hs

theorem statements_gtk3Text :
    statements (stripComments (gtk3Text s)) = gtk3Rows.map (rowStatement s) := by
  have hrows : [adwaitaRows, legacyRows].flatten = (gtk3Rows : List (PaintRow (Double lib))) := by
    rw [List.flatten_cons, List.flatten_singleton, gtk3Rows]
  have htoolkit : '*' ∉ "GTK 3".toList := by decide
  have hscans := scans_text hs htoolkit (hrows ▸ wellFormed_gtk3Rows)
  rw [hrows] at hscans
  exact hscans.statements_eq

theorem statements_gtk4Text :
    statements (stripComments (gtk4Text s)) = adwaitaRows.map (rowStatement s) := by
  have hrows : [adwaitaRows].flatten = (adwaitaRows : List (PaintRow (Double lib))) :=
    List.flatten_singleton
  have htoolkit : '*' ∉ "GTK 4".toList := by decide
  have hscans := scans_text hs htoolkit (hrows ▸ wellFormed_adwaitaRows)
  rw [hrows] at hscans
  exact hscans.statements_eq

theorem readDraft_gtk3Text : readDraft (gtk3Text s) = .ok (reread s gtk3Rows) :=
  readDraft_eq_reread hs (statements_gtk3Text hs) wellFormed_gtk3Rows scalarNames_gtk3Rows
    (List.cons_ne_nil _ _)

theorem readDraft_gtk4Text : readDraft (gtk4Text s) = .ok (reread s adwaitaRows) :=
  readDraft_eq_reread hs (statements_gtk4Text hs) wellFormed_adwaitaRows scalarNames_adwaitaRows
    (List.cons_ne_nil _ _)

end

section
variable {other : Schema (Double lib)} (htokens : other.tokens = s.tokens)
include htokens

/-- No slot is read from a name whose paint depends on the contrast policy. -/
theorem reread_congr : reread other gtk3Rows = reread s gtk3Rows := by
  rw [reread, reread]
  congr 1
  funext slot
  refine Option.map_congr fun p hp => ?_
  rw [Schema.paint_congr htokens (.inl (isLegible_answering? hp))]

theorem declared_congr (hpolicy : other.policy = s.policy)
    (rows : List (PaintRow (Double lib))) : declared other rows = declared s rows := by
  rw [declared, declared]
  congr 1
  funext _ p
  rw [Schema.paint_congr htokens (.inr hpolicy)]

end

/-- Both stylesheets of a schema declare their rows and nothing else, with the colours that the rows
resolve to up to three decimal places of alpha. From that of GTK 3 a draft is read with the colours
of the schema in the slots that the sheet carries. No label and no warning has a part in it, and
either sheet is parsed to a schema of the same variant. -/
theorem rendered_readsBack (t : TokenSet (Double lib)) (policy : Policy (Double lib))
    (label : Option Text)
    (hopacity : ∀ slot, ((Schema.finalize t policy label).color slot).HasOpacity) :
    ∃ gtk3 gtk4, AreSheets (Schema.finalize t policy label) gtk3 gtk4 ∧
      ReadsBack (Schema.finalize t policy label) gtk3 gtk4 := by
  generalize hfinal : Schema.finalize t policy label = s at hopacity ⊢
  have hvariant : Variant.ofSurface (s.color .surfacesPrimary).rounded = s.variant := by
    rw [Variant.ofSurface, Color.luminance_rounded, ← hfinal]
    rfl
  have h3 := statements_gtk3Text hopacity
  have h4 := statements_gtk4Text hopacity
  have hdraft := readDraft_gtk3Text hopacity
  refine ⟨gtk3Text s, gtk4Text s, areSheets s, ⟨declares_of_statements hopacity h3
    wellFormed_gtk3Rows, declares_of_statements hopacity h4 wellFormed_adwaitaRows⟩,
    ⟨_, hdraft, fun slot hslot => ⟨_, carried_reread hslot, ?_⟩⟩, ?_, ?_⟩
  · exact isRounded_rounded (hopacity slot).1 (hopacity slot).2
  · intro other htokens sheet3 sheet4 hsheets
    have hother : ∀ slot, (other.color slot).HasOpacity := by
      intro slot
      rw [Schema.color, htokens]
      exact hopacity slot
    obtain rfl : gtk3Text other = sheet3 :=
      Option.some.inj (((areSheets other).gtk3 []).symm.trans (hsheets.gtk3 []))
    obtain rfl : gtk4Text other = sheet4 :=
      Option.some.inj (((areSheets other).gtk4 []).symm.trans (hsheets.gtk4 []))
    refine ⟨?_, fun hpolicy => ⟨?_, ?_⟩⟩
    · rw [hdraft, readDraft_gtk3Text hother, reread_congr htokens]
    · rw [scan_eq hother (statements_gtk3Text hother) wellFormed_gtk3Rows,
        scan_eq hopacity h3 wellFormed_gtk3Rows, declared_congr htokens hpolicy]
    · rw [scan_eq hother (statements_gtk4Text hother) wellFormed_adwaitaRows,
        scan_eq hopacity h4 wellFormed_adwaitaRows, declared_congr htokens hpolicy]
  · intro c
    rw [← hvariant, List.forall_mem_cons, List.forall_mem_singleton]
    exact ⟨parse_of_window c (ofOpening_text _ _) hdraft (carried_reread (by decide)),
      parse_of_window c (ofOpening_text _ _) (readDraft_gtk4Text hopacity) window_reread⟩

/-- A translucent blue in every slot. -/
def glass : TokenSet (Double .platform) :=
  Table.ofFn (fun _ => ⟨51, 102, 153, 0.3335⟩) fun _ => 0.5

/-- A label that closes a comment, declares a window and opens another comment. -/
def forgedLabel : Text :=
  "*/ @define-color window_bg_color red; .x \x7b --window-bg-color: red; /*\n"

theorem rendered_readsBack_glass :
    (∀ slot, ((Schema.finalize glass .standard (some forgedLabel)).color slot).HasOpacity) ∧
      ∃ gtk3 gtk4, AreSheets (Schema.finalize glass .standard (some forgedLabel)) gtk3 gtk4 ∧
        ReadsBack (Schema.finalize glass .standard (some forgedLabel)) gtk3 gtk4 := by
  have hopacity (slot : ColorSlot) : (glass.color slot).HasOpacity := by
    rw [glass, Table.color_ofFn]
    exact ⟨by decide +kernel, by decide +kernel⟩
  have hfinal := Schema.hasOpacity_finalize hopacity .standard (some forgedLabel)
  exact ⟨hfinal, rendered_readsBack glass .standard (some forgedLabel) hfinal⟩

end

end ThemeTokens.Stylesheet
