import ThemeTokens.Declaration.Reader
import ThemeTokens.Proofs.Color.Hex
import ThemeTokens.Proofs.Reading
import ThemeTokens.Proofs.Table

/-!
# How declarations come out

A slot tries its names in order and is settled by the first that leads to a text of use. Only the
names that are tried, and what they lead to, have a part in the draft or in the error.
-/
namespace ThemeTokens.Declaration
open Keyed
open Resolver (outcome_total)

/-! ## Trying names -/

section Names
variable (table : Keyed (RawValue Text)) (suits : Text → Prop)

/-- A name that leaves the choice to the names after it: it has no entry, or leads to a text of no
use. -/
def PassedOver (name : Text) : Prop :=
  table.get? name = none ∨ ∃ t, LeadsTo table name t ∧ ¬ suits t

/-- A name is tried when all names before it are passed over. -/
def Tried (names : List Text) (name : Text) : Prop :=
  ∃ before after, names = before ++ name :: after ∧ ∀ n ∈ before, PassedOver table suits n

/-- The first name that leads to a text of use, and the text. -/
structure Settles (names : List Text) (name t : Text) : Prop where
  tried : Tried table suits names name
  leadsTo : LeadsTo table name t
  suits : suits t

/-- A declared name that is tried, and from which following references fails. -/
structure Breaks (names : List Text) (name : Text) (e : ReferenceError) : Prop where
  tried : Tried table suits names name
  declared : (table.get? name).isSome
  outcome : Outcome table name (.error e)

variable {table suits} {names : List Text} {name : Text}

theorem Tried.cons (h : PassedOver table suits name) {other : Text}
    (ht : Tried table suits names other) : Tried table suits (name :: names) other := by
  obtain ⟨before, after, rfl, hbefore⟩ := ht
  exact ⟨name :: before, after, rfl, List.forall_mem_cons.2 ⟨h, hbefore⟩⟩

theorem Tried.head (table : Keyed (RawValue Text)) (suits : Text → Prop) (names : List Text) :
    Tried table suits (name :: names) name :=
  ⟨[], names, rfl, fun _ h => absurd h List.not_mem_nil⟩

/-- The names of a slot either are all passed over, or one of them ends the search. -/
theorem search_total (table : Keyed (RawValue Text)) (suits : Text → Prop) (names : List Text) :
    (∀ name ∈ names, PassedOver table suits name) ∨
      (∃ name t, Settles table suits names name t) ∨ ∃ name e, Breaks table suits names name e := by
  induction names with
  | nil => exact .inl fun _ h => absurd h List.not_mem_nil
  | cons name names ih =>
    by_cases hpassed : PassedOver table suits name
    · rcases ih with h | ⟨other, t, h⟩ | ⟨other, e, h⟩
      · exact .inl (List.forall_mem_cons.2 ⟨hpassed, h⟩)
      · exact .inr (.inl ⟨other, t, h.tried.cons hpassed, h.leadsTo, h.suits⟩)
      · exact .inr (.inr ⟨other, e, h.tried.cons hpassed, h.declared, h.outcome⟩)
    · obtain ⟨hdeclared, hsuits⟩ := not_or.1 hpassed
      rcases outcome_total table name with ⟨t, h⟩ | ⟨e, h⟩
      · have ht : suits t := by_contra fun hn => hsuits ⟨t, h, hn⟩
        exact .inr (.inl ⟨name, t, .head table suits names, h, ht⟩)
      · have hsome := Option.isSome_iff_ne_none.2 hdeclared
        exact .inr (.inr ⟨name, e, .head table suits names, hsome, h⟩)

end Names

/-! ## Reading the names of a slot -/

section Search
variable {β : Type} (verdict? : Text → Option (Except SourceError β))

/-- The verdict on the first text that has one. -/
def firstVerdict : List Text → Reading Text (Option β)
  | [] => pure none
  | name :: names => do
    match (← Reading.leaf? name).bind verdict? with
    | some result => return some (← StateT.lift result)
    | none => firstVerdict names

variable {verdict?} {table : Keyed (RawValue Text)} {suits : Text → Prop}
  {names : List Text} {name t : Text}

theorem gives_firstVerdict_cons {o : Option Text} {result : Except SourceError (Option β)}
    (h : Reading.Gives table (Reading.leaf? name) (.ok o)) (hnone : o.bind verdict? = none)
    (hnames : Reading.Gives table (firstVerdict verdict? names) result) :
    Reading.Gives table (firstVerdict verdict? (name :: names)) result := by
  refine h.bind ?_
  simpa only [hnone] using hnames

theorem gives_firstVerdict_append (hverdict : ∀ t, ¬ suits t → verdict? t = none)
    {before : List Text} (hbefore : ∀ n ∈ before, PassedOver table suits n)
    {result : Except SourceError (Option β)}
    (hnames : Reading.Gives table (firstVerdict verdict? names) result) :
    Reading.Gives table (firstVerdict verdict? (before ++ names)) result := by
  induction before with
  | nil => exact hnames
  | cons n before ih =>
    obtain ⟨hn, hbefore⟩ := List.forall_mem_cons.1 hbefore
    rcases hn with hn | ⟨t, hleads, ht⟩
    · exact gives_firstVerdict_cons (Reading.gives_leaf?_of_get?_eq_none hn) rfl (ih hbefore)
    · exact gives_firstVerdict_cons (Reading.gives_leaf?_of_leadsTo hleads) (hverdict t ht)
        (ih hbefore)

theorem gives_firstVerdict_unset (hverdict : ∀ t, ¬ suits t → verdict? t = none)
    (h : ∀ n ∈ names, PassedOver table suits n) :
    Reading.Gives table (firstVerdict verdict? names) (.ok none) := by
  have hnil : Reading.Gives table (firstVerdict verdict? []) (.ok none) := Reading.gives_pure none
  have happend := gives_firstVerdict_append hverdict h hnil
  rwa [List.append_nil] at happend

theorem gives_firstVerdict_settled (hverdict : ∀ t, ¬ suits t → verdict? t = none)
    (h : Settles table suits names name t) {result : Except SourceError β}
    (ht : verdict? t = some result) :
    Reading.Gives table (firstVerdict verdict? names) (result.map some) := by
  obtain ⟨before, after, rfl, hbefore⟩ := h.tried
  refine gives_firstVerdict_append hverdict hbefore ?_
  refine (Reading.gives_leaf?_of_leadsTo h.leadsTo).bind ?_
  simpa only [Option.bind_some, ht] using (Reading.gives_lift result).map some

theorem gives_firstVerdict_breaks (hverdict : ∀ t, ¬ suits t → verdict? t = none)
    {e : ReferenceError} (h : Breaks table suits names name e) :
    Reading.Gives table (firstVerdict verdict? names) (.error (.reference e)) := by
  obtain ⟨before, after, rfl, hbefore⟩ := h.tried
  refine gives_firstVerdict_append hverdict hbefore ?_
  exact (Reading.gives_leaf?_of_error h.declared h.outcome).bind_error _

end Search

section Verdicts
variable {R : Type} [Number R]

/-- What looks like a literal settles a colour slot, if only by being malformed. -/
def colorVerdict? (t : Text) : Option (Except SourceError (Color R)) :=
  if Color.looksLikeLiteral t then some ((Color.ofLiteral t).mapError .ofMalformed) else none

def scalarVerdict? (t : Text) : Option (Except SourceError R) := (Number.readFraction? t).map .ok

theorem readColor_eq_firstVerdict (names : List Text) :
    (readColor names : Reading Text (Option (Color R))) = firstVerdict colorVerdict? names := by
  induction names with
  | nil => rfl
  | cons name names ih =>
    rw [readColor, firstVerdict]
    congr 1
    funext o
    cases o with
    | none => exact ih
    | some t =>
      dsimp only [Option.bind_some]
      rw [colorVerdict?]
      split
      · cases (Color.ofLiteral t : Except MalformedColor (Color R)) <;> rfl
      · exact ih

theorem readScalar_eq_firstVerdict (names : List Text) :
    (readScalar names : Reading Text (Option R)) = firstVerdict scalarVerdict? names := by
  induction names with
  | nil => rfl
  | cons name names ih =>
    rw [readScalar, firstVerdict]
    congr 1
    funext o
    cases o with
    | none => exact ih
    | some t =>
      dsimp only [Option.bind_some]
      rw [scalarVerdict?]
      cases (Number.readFraction? t : Option R) with
      | none => exact ih
      | some x => rfl

end Verdicts

/-! ## The slots -/

section Slots
variable (R : Type) [Number R] (table : Keyed (RawValue Text))

/-- The names of a slot, in the order in which they are tried. -/
def slotNames : Slot → List Text
  | .color s => colorNames s
  | .scalar s => scalarNames s

/-- The texts that settle a slot: for a colour whatever looks like a literal, malformed or not. -/
def Suits : Slot → Text → Prop
  | .color _, t => Color.looksLikeLiteral t = true
  | .scalar _, t => ∃ x : R, Number.readFraction? t = some x

/-- A name is tried for a slot. -/
def TriedFor (slot : Slot) (name : Text) : Prop := Tried table (Suits R slot) (slotNames slot) name

/-- No name of the slot is of use to it. -/
def Unset (slot : Slot) : Prop := ∀ name ∈ slotNames slot, PassedOver table (Suits R slot) name

/-- The slot is settled by the text that a name leads to. -/
def SettledBy (slot : Slot) (name t : Text) : Prop :=
  Settles table (Suits R slot) (slotNames slot) name t

/-- Why a slot fails. -/
inductive Fails (slot : Slot) : SourceError → Prop
  | reference {name : Text} {e : ReferenceError}
      (h : Breaks table (Suits R slot) (slotNames slot) name e) : Fails slot (.reference e)
  | malformed {s : ColorSlot} {name literal : Text} (hs : slot = .color s)
      (h : SettledBy R table slot name literal)
      (hm : ∀ c : Color R, Color.ofLiteral literal ≠ .ok c) : Fails slot (.malformedColor literal)

/-- A slot has its turn when no slot before it fails. -/
def HasTurn (slot : Slot) : Prop :=
  ∃ before after, Slot.all = before ++ slot :: after ∧
    ∀ other ∈ before, ∀ e, ¬ Fails R table other e

/-- The error of the first slot that fails. -/
def FirstFailure (e : SourceError) : Prop := ∃ slot, HasTurn R table slot ∧ Fails R table slot e

/-- The keys that reading the slots can come by. -/
def Consulted (key : Text) : Prop :=
  ∃ slot name, HasTurn R table slot ∧ TriedFor R table slot name ∧ Reaches table name key

variable {R}

/-- The colour in a slot, or that there is none. -/
inductive ColorIs (s : ColorSlot) : Option (Color R) → Prop
  | unset (h : Unset R table (.color s)) : ColorIs s none
  | settled {name t : Text} {c : Color R} (h : SettledBy R table (.color s) name t)
      (hc : Color.ofLiteral t = .ok c) : ColorIs s (some c)

/-- The number in a slot, or that there is none. -/
inductive ScalarIs (s : ScalarSlot) : Option R → Prop
  | unset (h : Unset R table (.scalar s)) : ScalarIs s none
  | settled {name t : Text} {x : R} (h : SettledBy R table (.scalar s) name t)
      (hx : Number.readFraction? t = some x) : ScalarIs s (some x)

structure Fills (d : Draft R) : Prop where
  color : ∀ s, ColorIs table s (d.color s)
  scalar : ∀ s, ScalarIs table s (d.scalar s)

variable {table}

def readSlot (d : Draft R) : Slot → Reading Text (Draft R)
  | .color s => readColorSlot d s
  | .scalar s => readScalarSlot d s

theorem readSlots_eq_foldlM :
    (readSlots : Reading Text (Draft R)) = Slot.all.foldlM readSlot Draft.empty := by
  rw [Slot.all, List.foldlM_append, List.foldlM_map, readSlots]
  congr 1

theorem colorVerdict?_eq_none (s : ColorSlot) : ∀ t, ¬ Suits R (.color s) t →
    (colorVerdict? t : Option (Except SourceError (Color R))) = none :=
  fun _ h => if_neg h

theorem scalarVerdict?_eq_none (s : ScalarSlot) : ∀ t, ¬ Suits R (.scalar s) t →
    (scalarVerdict? t : Option (Except SourceError R)) = none := by
  intro t h
  rw [scalarVerdict?, Option.map_eq_none_iff, Option.eq_none_iff_forall_ne_some]
  exact fun x hx => h ⟨x, hx⟩

theorem ColorIs.gives {s : ColorSlot} {o : Option (Color R)} (h : ColorIs table s o) (d : Draft R) :
    Reading.Gives table (readColorSlot d s) (.ok (d.putColor s o)) := by
  have hread : Reading.Gives table (readColor (colorNames s)) (.ok o) := by
    rw [readColor_eq_firstVerdict]
    cases h with
    | unset h => exact gives_firstVerdict_unset (colorVerdict?_eq_none s) h
    | @settled name t c h hc =>
      have hlooks : Color.looksLikeLiteral t = true := h.suits
      have hverdict : (colorVerdict? t : Option (Except SourceError (Color R))) = some (.ok c) := by
        rw [colorVerdict?, if_pos hlooks, hc]
        rfl
      exact gives_firstVerdict_settled (colorVerdict?_eq_none s) h hverdict
  exact hread.map _

theorem ScalarIs.gives {s : ScalarSlot} {o : Option R} (h : ScalarIs table s o) (d : Draft R) :
    Reading.Gives table (readScalarSlot d s) (.ok (d.putScalar s o)) := by
  have hread : Reading.Gives table (readScalar (scalarNames s)) (.ok o) := by
    rw [readScalar_eq_firstVerdict]
    cases h with
    | unset h => exact gives_firstVerdict_unset (scalarVerdict?_eq_none s) h
    | @settled name t x h hx =>
      have hverdict : (scalarVerdict? t : Option (Except SourceError R)) = some (.ok x) := by
        rw [scalarVerdict?, hx]
        rfl
      exact gives_firstVerdict_settled (scalarVerdict?_eq_none s) h hverdict
  exact hread.map _

theorem Fails.gives {slot : Slot} {e : SourceError} (h : Fails R table slot e) (d : Draft R) :
    Reading.Gives table (readSlot d slot) (.error e) := by
  cases slot with
  | color s =>
    have hread : Reading.Gives table (readColor (colorNames s) : Reading Text (Option (Color R)))
        (.error e) := by
      rw [readColor_eq_firstVerdict]
      cases h with
      | reference h => exact gives_firstVerdict_breaks (colorVerdict?_eq_none s) h
      | @malformed _ name literal hs h hm =>
        have hlooks : Color.looksLikeLiteral literal = true := h.suits
        have hverdict : (colorVerdict? literal : Option (Except SourceError (Color R))) =
            some (.error (.malformedColor literal)) := by
          rw [colorVerdict?, if_pos hlooks]
          cases hc : (Color.ofLiteral literal : Except MalformedColor (Color R)) with
          | ok c => exact absurd hc (hm c)
          | error m =>
            rw [Color.ofLiteral_error hc]
            rfl
        exact gives_firstVerdict_settled (colorVerdict?_eq_none s) h hverdict
    exact hread.map _
  | scalar s =>
    have hread : Reading.Gives table (readScalar (scalarNames s) : Reading Text (Option R))
        (.error e) := by
      rw [readScalar_eq_firstVerdict]
      cases h with
      | reference h => exact gives_firstVerdict_breaks (scalarVerdict?_eq_none s) h
      | malformed hs _ _ => cases hs
    exact hread.map _

/-! ## All slots -/

/-- What becomes of a slot that does not fail. -/
def Succeeds (R : Type) [Number R] (table : Keyed (RawValue Text)) : Slot → Prop
  | .color s => ∃ o : Option (Color R), ColorIs table s o
  | .scalar s => ∃ o : Option R, ScalarIs table s o

theorem Succeeds.gives {slot : Slot} (h : Succeeds R table slot) (d : Draft R) :
    ∃ d', Reading.Gives table (readSlot d slot) (.ok d') := by
  cases slot with
  | color s =>
    obtain ⟨o, ho⟩ := h
    exact ⟨_, ho.gives d⟩
  | scalar s =>
    obtain ⟨o, ho⟩ := h
    exact ⟨_, ho.gives d⟩

theorem Succeeds.not_fails {slot : Slot} (h : Succeeds R table slot) (e : SourceError) :
    ¬ Fails R table slot e := by
  intro hf
  obtain ⟨d, hd⟩ := h.gives Draft.empty
  cases hd.unique (hf.gives Draft.empty)

theorem succeeds_or_fails (R : Type) [Number R] (table : Keyed (RawValue Text)) (slot : Slot) :
    Succeeds R table slot ∨ ∃ e, Fails R table slot e := by
  rcases search_total table (Suits R slot) (slotNames slot) with h | ⟨name, t, h⟩ | ⟨name, e, h⟩
  · cases slot with
    | color s => exact .inl ⟨none, .unset h⟩
    | scalar s => exact .inl ⟨none, .unset h⟩
  · cases slot with
    | color s =>
      by_cases hc : ∃ c : Color R, Color.ofLiteral t = .ok c
      · obtain ⟨c, hc⟩ := hc
        exact .inl ⟨some c, .settled h hc⟩
      · exact .inr ⟨_, .malformed rfl h fun c hok => hc ⟨c, hok⟩⟩
    | scalar s =>
      obtain ⟨x, hx⟩ := h.suits
      exact .inl ⟨some x, .settled h hx⟩
  · exact .inr ⟨_, .reference h⟩

theorem FirstFailure.gives {e : SourceError} (h : FirstFailure R table e) :
    Reading.Gives table (readSlots : Reading Text (Draft R)) (.error e) := by
  obtain ⟨slot, ⟨before, after, hall, hbefore⟩, hfails⟩ := h
  rw [readSlots_eq_foldlM, hall]
  refine Reading.gives_foldlM_error (fun other hother d => ?_) hfails.gives
  refine ((succeeds_or_fails R table other).resolve_right ?_).gives d
  rintro ⟨e', he'⟩
  exact hbefore other hother e' he'

theorem Fills.gives {d : Draft R} (h : Fills table d) : Reading.Gives table readSlots (.ok d) := by
  let colors : Draft R :=
    ColorSlot.all.foldl (fun d' s => d'.putColor s (d.color s)) Draft.empty
  have hcolors : Reading.Gives table (ColorSlot.all.foldlM readColorSlot Draft.empty)
      (.ok colors) := Reading.gives_foldlM fun s _ d' => (h.color s).gives d'
  have hscalars : Reading.Gives table (ScalarSlot.all.foldlM readScalarSlot colors)
      (.ok (ScalarSlot.all.foldl (fun d' s => d'.putScalar s (d.scalar s)) colors)) :=
    Reading.gives_foldlM fun s _ d' => (h.scalar s).gives d'
  rw [Table.foldl_put_slots] at hscalars
  exact hcolors.bind hscalars

theorem Fills.succeeds {d : Draft R} (h : Fills table d) : ∀ slot, Succeeds R table slot
  | .color s => ⟨d.color s, h.color s⟩
  | .scalar s => ⟨d.scalar s, h.scalar s⟩

theorem Fills.hasTurn {d : Draft R} (h : Fills table d) (slot : Slot) : HasTurn R table slot := by
  obtain ⟨before, after, hall⟩ := List.append_of_mem (Slot.mem_all slot)
  exact ⟨before, after, hall, fun other _ => (h.succeeds other).not_fails⟩

theorem exists_firstFailure {slot : Slot} {e : SourceError} (h : Fails R table slot e) :
    ∃ e', FirstFailure R table e' := by
  classical
  have hsome : (Slot.all.find? fun s => decide (∃ e, Fails R table s e)).isSome := by
    rw [List.find?_isSome]
    exact ⟨slot, Slot.mem_all slot, decide_eq_true ⟨e, h⟩⟩
  obtain ⟨first, hfirst⟩ := Option.isSome_iff_exists.1 hsome
  obtain ⟨hfails, before, after, hall, hbefore⟩ := List.find?_eq_some_iff_append.1 hfirst
  obtain ⟨e', he'⟩ := of_decide_eq_true hfails
  refine ⟨e', first, ⟨before, after, hall, fun other hother e'' he'' => ?_⟩, he'⟩
  have hnot := hbefore other hother
  rw [decide_eq_true ⟨e'', he''⟩] at hnot
  cases hnot

theorem fills_or_fails (R : Type) [Number R] (table : Keyed (RawValue Text)) :
    (∃ d : Draft R, Fills table d) ∨ ∃ e, FirstFailure R table e := by
  by_cases h : ∃ slot e, Fails R table slot e
  · obtain ⟨slot, e, h⟩ := h
    exact .inr (exists_firstFailure h)
  · have hsucceeds (slot : Slot) : Succeeds R table slot :=
      (succeeds_or_fails R table slot).resolve_right fun ⟨e, he⟩ => h ⟨slot, e, he⟩
    choose color hcolor using fun s => hsucceeds (.color s)
    choose scalar hscalar using fun s => hsucceeds (.scalar s)
    refine .inl ⟨Table.ofFn color scalar, fun s => ?_, fun s => ?_⟩
    · rw [Table.color_ofFn]
      exact hcolor s
    · rw [Table.scalar_ofFn]
      exact hscalar s

theorem ColorIs.unique {s : ColorSlot} {a b : Option (Color R)} (ha : ColorIs table s a)
    (hb : ColorIs table s b) : a = b := by
  have h := (ha.gives Draft.empty).unique (hb.gives Draft.empty)
  injection h with h
  simpa only [Table.color_putColor, if_true] using congrArg (fun d => d.color s) h

theorem ScalarIs.unique {s : ScalarSlot} {a b : Option R} (ha : ScalarIs table s a)
    (hb : ScalarIs table s b) : a = b := by
  have h := (ha.gives Draft.empty).unique (hb.gives Draft.empty)
  injection h with h
  simpa only [Table.scalar_putScalar, if_true] using congrArg (fun d => d.scalar s) h

theorem ColorIs.eq_some_iff {s : ColorSlot} {o : Option (Color R)} (h : ColorIs table s o)
    (c : Color R) : o = some c ↔
      ∃ name t, SettledBy R table (.color s) name t ∧ Color.ofLiteral t = .ok c := by
  constructor
  · rintro rfl
    cases h with
    | settled h hc => exact ⟨_, _, h, hc⟩
  · rintro ⟨name, t, hsettled, hc⟩
    exact h.unique (.settled hsettled hc)

theorem ColorIs.eq_none_iff {s : ColorSlot} {o : Option (Color R)} (h : ColorIs table s o) :
    o = none ↔ Unset R table (.color s) := by
  constructor
  · rintro rfl
    cases h with
    | unset h => exact h
  · exact fun hunset => h.unique (.unset hunset)

theorem ScalarIs.eq_some_iff {s : ScalarSlot} {o : Option R} (h : ScalarIs table s o) (x : R) :
    o = some x ↔
      ∃ name t, SettledBy R table (.scalar s) name t ∧ Number.readFraction? t = some x := by
  constructor
  · rintro rfl
    cases h with
    | settled h hx => exact ⟨_, _, h, hx⟩
  · rintro ⟨name, t, hsettled, hx⟩
    exact h.unique (.settled hsettled hx)

theorem ScalarIs.eq_none_iff {s : ScalarSlot} {o : Option R} (h : ScalarIs table s o) :
    o = none ↔ Unset R table (.scalar s) := by
  constructor
  · rintro rfl
    cases h with
    | unset h => exact h
  · exact fun hunset => h.unique (.unset hunset)

/-- The names after the one that settles a slot are not tried. -/
theorem Settles.mem_of_tried {suits : Text → Prop} {before after : List Text} {name other t : Text}
    (h : Settles table suits (before ++ name :: after) name t)
    (ht : Tried table suits (before ++ name :: after) other) : other ∈ before ∨ other = name := by
  have hnot : ¬ PassedOver table suits name := by
    rintro (hn | ⟨u, hu, hsuits⟩)
    · exact h.leadsTo.not_dangles (.inl ⟨hn, rfl, rfl⟩)
    · exact hsuits (h.leadsTo.unique hu ▸ h.suits)
  obtain ⟨before', after', heq, hbefore'⟩ := ht
  rcases List.append_eq_append_iff.1 heq with ⟨as, rfl, has⟩ | ⟨as, rfl, has⟩
  · cases as with
    | nil =>
      injection has with hname
      exact .inr hname.symm
    | cons a as =>
      injection has with hname
      exact absurd (hbefore' a (List.mem_append_right _ List.mem_cons_self)) (hname ▸ hnot)
  · cases as with
    | nil =>
      injection has with hname
      exact .inr hname
    | cons a as =>
      injection has with hname
      exact .inl (List.mem_append_right _ (hname ▸ List.mem_cons_self))

end Slots

/-! ## The draft -/

section Draft
variable {R : Type} [Number R] {source : Text}

theorem readDraft_of_scan (h : scan source ≠ []) :
    (readDraft source : Except SourceError (Draft R)) =
      Reading.runOn (entries (scan source)) readSlots :=
  if_neg fun hempty => h (List.isEmpty_iff.1 hempty)

theorem readDraft_eq_ok_iff (h : scan source ≠ []) {d : Draft R} :
    readDraft source = .ok d ↔ Fills (entries (scan source)) d := by
  rw [readDraft_of_scan h]
  refine ⟨fun hd => ?_, fun hfills => hfills.gives.runOn⟩
  rcases fills_or_fails R (entries (scan source)) with ⟨d', hfills⟩ | ⟨e, hfails⟩
  · cases hd.symm.trans hfills.gives.runOn
    exact hfills
  · cases hd.symm.trans hfails.gives.runOn

theorem readDraft_eq_error_iff (h : scan source ≠ []) {e : SourceError} :
    (readDraft source : Except SourceError (Draft R)) = .error e ↔
      FirstFailure R (entries (scan source)) e := by
  rw [readDraft_of_scan h]
  refine ⟨fun he => ?_, fun hfails => hfails.gives.runOn⟩
  rcases fills_or_fails R (entries (scan source)) with ⟨d, hfills⟩ | ⟨e', hfails⟩
  · cases he.symm.trans hfills.gives.runOn
  · cases he.symm.trans hfails.gives.runOn
    exact hfails

end Draft

end ThemeTokens.Declaration
