import ThemeTokens.Proofs.Declaration
import ThemeTokens.Proofs.Draft
import ThemeTokens.Proofs.Stylesheet.Rows

/-!
# Drafts written as declarations

One statement for each assignment of a draft, under the canonical name of its slot. No canonical
name is an alias or the short name of a slot, so each statement is read for its own slot, in
whatever order they stand.
-/
namespace ThemeTokens

/-! ## The texts of values -/

section
variable {R : Type} [Number R]

/-- What is read back from its text is no infinity and has a positional text. -/
theorem Number.mem_text {x : R} (h : read? (text x) = some x) :
    ∀ c ∈ text x, c ∈ Numeral.alphabet := by
  rw [text] at h ⊢
  cases hshortest : shortest .up x with
  | notANumber =>
    rw [hshortest] at h
    cases h
  | infinite negative =>
    rw [hshortest] at h
    cases negative <;> cases h
  | finite n => exact n.mem_positional

theorem Number.text_ne_nil {x : R} (h : read? (text x) = some x) : text x ≠ [] := by
  intro hnil
  rw [hnil] at h
  cases h

end

namespace Assignment
open Declaration
variable {R : Type} [Number R] {a : Assignment R}

/-- The characters of values. -/
def alphabet : Text := "#ABCDEF0123456789.-"

theorem mem_text (h : a.Exact) : ∀ c ∈ a.text, c ∈ alphabet := by
  cases a with
  | color slot value => exact Color.forall_mem_hexText (by decide) (by decide) value
  | scalar slot x =>
    have hsub : Numeral.alphabet ⊆ alphabet := List.all_iff_forall_prop.1 (by decide)
    exact fun c hc => hsub (Number.mem_text h.1 c hc)

theorem text_ne_nil (h : a.Exact) : a.text ≠ [] := by
  cases a with
  | color slot value => simp [text, Color.hexText_eq, Color.hexForm]
  | scalar slot x => exact Number.text_ne_nil h.1

/-- What is evaluated on the few characters of values. -/
theorem forall_mem_text (h : a.Exact) {p : Char → Prop} [DecidablePred p]
    (hp : alphabet.all (p ·) = true) : ∀ c ∈ a.text, p c :=
  fun c hc => List.all_iff_forall_prop.1 hp c (mem_text h c hc)

theorem trim_text (h : a.Exact) : a.text.trim = a.text :=
  Text.trim_eq_self (forall_mem_text h (by decide))

theorem rawValue_text (h : a.Exact) (declared : Text → Bool) :
    rawValue declared a.text = .leaf a.text := by
  have hhead {first : Char} (hfirst : first ∉ alphabet) : a.text.head? ≠ some first :=
    fun he => hfirst (mem_text h first (List.mem_of_mem_head? he))
  exact rawValue_eq_leaf declared (trim_text h) (forall_mem_text h (by decide))
    (hhead (by decide)) (hhead (by decide))

end Assignment

/-! ## Canonical names -/

namespace Declaration

def canonicalNames : List Text := Slot.all.map fun slot => canonicalName slot.path

/-- These facts are evaluated together, so that each name is decoded once. -/
theorem canonicalNames_spec : (∀ name ∈ canonicalNames, Stylesheet.IsPlain name) ∧
    canonicalNames.Nodup ∧
    (∀ s ∈ ColorSlot.all, ∀ name ∈ aliases s, name ∉ canonicalNames) ∧
    ∀ s ∈ ScalarSlot.all, s.name ∉ canonicalNames := by
  decide +kernel

theorem canonicalName_mem (slot : Slot) : canonicalName slot.path ∈ canonicalNames :=
  List.mem_map_of_mem (Slot.mem_all slot)

theorem isPlain_canonicalName (slot : Slot) : Stylesheet.IsPlain (canonicalName slot.path) :=
  canonicalNames_spec.1 _ (canonicalName_mem slot)

theorem canonicalName_injective {slot other : Slot}
    (h : canonicalName slot.path = canonicalName other.path) : slot = other :=
  List.inj_on_of_nodup_map canonicalNames_spec.2.1 (Slot.mem_all slot) (Slot.mem_all other) h

theorem aliases_notMem {s : ColorSlot} {name : Text} (h : name ∈ aliases s) :
    name ∉ canonicalNames :=
  canonicalNames_spec.2.2.1 s (ColorSlot.mem_all s) name h

theorem name_notMem (s : ScalarSlot) : s.name ∉ canonicalNames :=
  canonicalNames_spec.2.2.2 s (ScalarSlot.mem_all s)

end Declaration

/-! ## Statements -/

namespace Assignment
open Declaration

section
variable {R : Type} [Number R]

/-- The name under which the value is declared. -/
def key (a : Assignment R) : Text := canonicalName a.slot.path

/-- What is declared under the name. -/
def entry (a : Assignment R) : Text × Text := (a.key, a.text)

def gap : Form → Text
  | .property | .custom => " "
  | .rule => []

/-- The statement that declares the value, on a line of its own. -/
def statementText (form : Form) (a : Assignment R) : Text :=
  form.opening ++ a.key ++ form.separator :: (gap form ++ a.text) ++ ";\n"

def statement (form : Form) (a : Assignment R) : Statement := ⟨a.key, gap form ++ a.text⟩

theorem forall_mem_value {a : Assignment R} (h : a.Exact) (form : Form) {p : Char → Prop}
    [DecidablePred p] (hblank : p ' ') (hp : alphabet.all (p ·) = true) :
    ∀ c ∈ gap form ++ a.text, p c := by
  rw [List.forall_mem_append]
  refine ⟨?_, forall_mem_text h hp⟩
  cases form <;> simp [gap, hblank]

/-- The statement as a piece of a sheet. -/
def written (a : Assignment R) (h : a.Exact) (form : Form) : Written where
  form := form
  name := a.key
  value := gap form ++ a.text
  isName := (isPlain_canonicalName a.slot).isName
  inside := by
    cases form with
    | property => exact forall_mem_value h .property (by decide) (by decide)
    | custom => exact forall_mem_value h .custom (by decide) (by decide)
    | rule => exact forall_mem_value h .rule (by decide) (by decide)
  filled := by
    obtain ⟨c, hc⟩ := List.exists_mem_of_ne_nil _ (text_ne_nil h)
    have hblank : isBlank c = false :=
      forall_mem_text (p := (isBlank · = false)) h (by decide) c hc
    exact ⟨c, List.mem_append_right _ hc, hblank⟩
  uncommented := by
    intro hin
    have hslash : '/' ∈ gap form ++ a.text := hin.subset List.mem_cons_self
    exact forall_mem_value (p := (· ≠ '/')) h form (by decide) (by decide) '/' hslash rfl

theorem scans_statementText {a : Assignment R} (h : a.Exact) (form : Form) :
    Scans (a.statementText form) [a.statement form] := by
  have htext : a.statementText form =
      (Piece.statement (a.written h form)).text ++ (Piece.blank '\n' (by decide)).text := by
    simp [statementText, Piece.text, Written.text, written]
  rw [htext]
  exact (scans_piece _).append (scans_piece _)

theorem trim_value {a : Assignment R} (h : a.Exact) (form : Form) :
    (gap form ++ a.text).trim = a.text := by
  cases form with
  | property | custom => exact (Text.trim_cons (by decide)).trans (trim_text h)
  | rule => exact trim_text h

theorem normalizeName_key {a : Assignment R} (h : a.Exact) (form : Form) :
    normalizeName a.key = a.key :=
  (a.written h form).normalizeName_name.trans (isPlain_canonicalName a.slot).key_eq

end

end Assignment

/-! ## Reading the sheet -/

namespace Declaration
open Assignment
variable {R : Type} [Number R] {d : Draft R} {order : List (Assignment R)}
  {form : Assignment R → Form}

/-- The statements of assignments, one on each line. -/
def draftText (form : Assignment R → Form) (order : List (Assignment R)) : Text :=
  order.flatMap fun a => a.statementText (form a)

theorem scan_draftText (h : ∀ a ∈ order, a.Exact) :
    scan (draftText form order) = Keyed.ofList (order.map entry) := by
  have hscans : Scans (draftText form order) (order.flatMap fun a => [a.statement (form a)]) :=
    Scans.flatMap fun a ha => scans_statementText (h a ha) (form a)
  rw [← List.map_eq_flatMap] at hscans
  rw [scan, hscans.statements_eq, List.map_map]
  congr 1
  refine List.map_congr_left fun a ha => ?_
  exact Prod.ext (normalizeName_key (h a ha) (form a)) (trim_value (h a ha) (form a))

section
variable (hd : ∀ a ∈ d.assignments, a.Exact) (horder : order.Perm d.assignments)
include hd horder

theorem get?_entries_of_mem {a : Assignment R} (ha : a ∈ d.assignments) :
    (entries (scan (draftText form order))).get? a.key = some (.leaf a.text) := by
  have hkeys : ((order.map entry).map Prod.fst).Nodup := by
    have hslots := (d.nodup_assignments.map fun slot other he => canonicalName_injective he)
    rw [List.map_map] at hslots ⊢
    exact ((horder.map _).nodup_iff).2 hslots
  have hmem : a.entry ∈ Keyed.ofList (order.map entry) :=
    (Keyed.mem_ofList hkeys).2 (List.mem_map_of_mem (horder.mem_iff.2 ha))
  have hget := (Keyed.sorted_ofList (order.map entry)).get?_of_mem hmem
  rw [entries, Keyed.get?_mapValues, scan_draftText fun a ha => hd a (horder.mem_iff.1 ha), hget]
  exact congrArg some (rawValue_text (hd a ha) _)

theorem get?_entries_eq_none {name : Text} (h : ∀ a ∈ d.assignments, a.key ≠ name) :
    (entries (scan (draftText form order))).get? name = none := by
  have hname : name ∉ (order.map entry).map Prod.fst := by
    simp only [List.map_map, List.mem_map, not_exists, not_and]
    exact fun a ha => h a (horder.mem_iff.1 ha)
  rw [entries, Keyed.get?_mapValues, scan_draftText fun a ha => hd a (horder.mem_iff.1 ha),
    Keyed.get?_eq_none fun hkey => hname (Keyed.mem_keys_ofList.1 hkey)]
  rfl

/-- Only canonical names have an entry. -/
theorem passedOver_of_notMem {suits : Text → Prop} {name : Text} (h : name ∉ canonicalNames) :
    PassedOver (entries (scan (draftText form order))) suits name := by
  refine .inl (get?_entries_eq_none hd horder fun a _ hkey => h ?_)
  rw [← hkey]
  exact canonicalName_mem a.slot

theorem passedOver_canonicalName {suits : Text → Prop} {slot : Slot}
    (h : d.assignment? slot = none) :
    PassedOver (entries (scan (draftText form order))) suits (canonicalName slot.path) := by
  refine .inl (get?_entries_eq_none hd horder fun a ha hkey => ?_)
  rw [Draft.mem_assignments, canonicalName_injective hkey, h] at ha
  cases ha

theorem colorIs_draftText (s : ColorSlot) :
    ColorIs (entries (scan (draftText form order))) s (d.color s) := by
  have haliases : ∀ name ∈ aliases s,
      PassedOver (entries (scan (draftText form order))) (Suits R (.color s)) name :=
    fun name hname => passedOver_of_notMem hd horder (aliases_notMem hname)
  cases hc : d.color s with
  | none =>
    refine .unset fun name hname => ?_
    rcases List.mem_append.1 hname with hname | hname
    · exact haliases name hname
    · rw [List.mem_singleton.1 hname]
      have hslot : d.assignment? (.color s) = none := by simp [Draft.assignment?, hc]
      exact passedOver_canonicalName hd horder hslot
  | some c =>
    have hmem : .color s c ∈ d.assignments := Draft.color_mem_assignments.2 hc
    have hexact : c.printed = c := hd _ hmem
    refine .settled (t := c.hexText) ⟨⟨aliases s, [], rfl, haliases⟩, ⟨_, .refl, ?_⟩,
      c.looksLikeLiteral_hexText⟩ ?_
    · exact get?_entries_of_mem hd horder hmem
    · rw [Color.ofLiteral_hexText, hexact]

theorem scalarIs_draftText (s : ScalarSlot) :
    ScalarIs (entries (scan (draftText form order))) s (d.scalar s) := by
  cases hx : d.scalar s with
  | none =>
    refine .unset fun name hname => ?_
    rcases List.mem_cons.1 hname with rfl | hname
    · have hslot : d.assignment? (.scalar s) = none := by simp [Draft.assignment?, hx]
      exact passedOver_canonicalName hd horder hslot
    · rw [List.mem_singleton.1 hname]
      exact passedOver_of_notMem hd horder (name_notMem s)
  | some x =>
    have hmem : .scalar s x ∈ d.assignments := Draft.scalar_mem_assignments.2 hx
    have hexact := hd _ hmem
    have hread : Number.readFraction? (Number.text x) = some x := by
      have hpercent : '%' ∉ Number.text x :=
        fun hin => absurd (mem_text hexact '%' hin) (by decide)
      have htrim : (Number.text x).trim = Number.text x := trim_text hexact
      rw [Number.readFraction?, htrim, Number.readPart?_of_not_mem _ hpercent]
      exact hexact.1
    refine .settled (t := Number.text x) ⟨⟨[], [s.name], rfl, by simp⟩, ⟨_, .refl, ?_⟩,
      ⟨x, hread⟩⟩ hread
    exact get?_entries_of_mem hd horder hmem

theorem readDraft_draftText (hne : d.isEmpty = false) :
    readDraft (draftText form order) = .ok d := by
  have hscan : scan (draftText form order) ≠ [] := by
    obtain ⟨a, ha⟩ := List.exists_mem_of_ne_nil _ (Draft.assignments_ne_nil hne)
    have hget : (entries (scan (draftText form order))).get? a.key = some (.leaf a.text) :=
      get?_entries_of_mem hd horder ha
    intro hnil
    rw [hnil] at hget
    cases hget
  exact (readDraft_eq_ok_iff hscan).2
    ⟨colorIs_draftText hd horder, scalarIs_draftText hd horder⟩

end

end Declaration

end ThemeTokens
