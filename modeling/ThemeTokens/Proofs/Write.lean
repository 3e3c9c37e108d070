import ThemeTokens.Proofs.Completion
import ThemeTokens.Proofs.Draft
import ThemeTokens.Token.Theme

/-!
# Writing slots one after the other

After a sequence of writes a slot holds the last value written to it, and a slot that was never
written holds what it held before. A draft that starts empty assigns exactly the last writes, so it
has as many values as slots were written. A token set takes over what such a draft declares, and a
theme by category is the same as a token set.
-/
namespace ThemeTokens

/-! ## The last write to a slot -/

namespace Assignment
variable {R : Type} {a b : Assignment R} {writes : List (Assignment R)}

/-- The write is the last one to its slot. -/
def IsLast (a : Assignment R) (writes : List (Assignment R)) : Prop :=
  ∃ earlier later, writes = earlier ++ a :: later ∧ ∀ b ∈ later, b.slot ≠ a.slot

theorem not_isLast_nil (a : Assignment R) : ¬ a.IsLast [] := by
  rintro ⟨earlier, later, h, -⟩
  simp at h

theorem IsLast.mem (h : a.IsLast writes) : a ∈ writes := by
  obtain ⟨earlier, later, rfl, -⟩ := h
  simp

theorem isLast_concat : a.IsLast (writes ++ [b]) ↔ a = b ∨ a.slot ≠ b.slot ∧ a.IsLast writes := by
  constructor
  · rintro ⟨earlier, later, h, hlater⟩
    -- `b` is the final write: it is `a` itself if nothing comes later than `a`.
    obtain rfl | ⟨later, final, rfl⟩ := later.eq_nil_or_concat
    · obtain ⟨-, hb⟩ := List.append_inj' h rfl
      exact .inl (List.singleton_inj.1 hb).symm
    · rw [List.concat_eq_append, ← List.cons_append, ← List.append_assoc] at h
      obtain ⟨rfl, hb⟩ := List.append_inj' h rfl
      obtain rfl := List.singleton_inj.1 hb
      refine .inr ⟨(hlater b (by simp)).symm, earlier, later, rfl, fun c hc => ?_⟩
      exact hlater c (by simp [hc])
  · rintro (rfl | ⟨hne, earlier, later, rfl, hlater⟩)
    · exact ⟨writes, [], rfl, by simp⟩
    · refine ⟨earlier, later ++ [b], by simp, fun c hc => ?_⟩
      obtain hc | rfl : c ∈ later ∨ c = b := by simpa using hc
      · exact hlater c hc
      · exact hne.symm

/-- A slot has a last write if it was written at all. -/
theorem exists_isLast_iff {slot : Slot} :
    (∃ a : Assignment R, a.slot = slot ∧ a.IsLast writes) ↔ slot ∈ writes.map Assignment.slot := by
  constructor
  · rintro ⟨a, rfl, h⟩
    exact List.mem_map_of_mem h.mem
  · intro h
    induction writes using List.reverseRecOn with
    | nil => simp at h
    | append_singleton writes b ih =>
      by_cases hb : b.slot = slot
      · exact ⟨b, hb, isLast_concat.2 (.inl rfl)⟩
      · have hmem : slot ∈ writes.map Assignment.slot := by simpa [Ne.symm hb] using h
        obtain ⟨a, rfl, ha⟩ := ih hmem
        exact ⟨a, rfl, isLast_concat.2 (.inr ⟨Ne.symm hb, ha⟩)⟩

end Assignment

/-! ## Drafts -/

namespace Draft
variable {R : Type} {d : Draft R} {a b : Assignment R} {writes : List (Assignment R)}

def write (d : Draft R) : Assignment R → Draft R
  | .color slot c => d.setColor slot c
  | .scalar slot x => d.setScalar slot x

/-- The draft of a source that writes these slots in this order. -/
def ofWrites (writes : List (Assignment R)) : Draft R := writes.foldl write empty

/-- A write replaces what the draft assigns to its slot. -/
theorem mem_assignments_write :
    a ∈ (d.write b).assignments ↔ a = b ∨ a.slot ≠ b.slot ∧ a ∈ d.assignments := by
  cases a with
  | color slot c =>
    cases b with
    | color other e =>
      by_cases h : slot = other
      · simp [write, setColor, Table.color_putColor, Assignment.slot, h, eq_comm]
      · simp [write, setColor, Table.color_putColor, Assignment.slot, h]
    | scalar other y => simp [write, setScalar, Assignment.slot]
  | scalar slot x =>
    cases b with
    | color other e => simp [write, setColor, Assignment.slot]
    | scalar other y =>
      by_cases h : slot = other
      · simp [write, setScalar, Table.scalar_putScalar, Assignment.slot, h, eq_comm]
      · simp [write, setScalar, Table.scalar_putScalar, Assignment.slot, h]

theorem not_mem_assignments_empty (a : Assignment R) : a ∉ (empty : Draft R).assignments := by
  cases a with
  | color slot c => simp [empty]
  | scalar slot x => simp [empty]

/-- The draft assigns the last writes and nothing else. -/
theorem mem_assignments_ofWrites : a ∈ (ofWrites writes).assignments ↔ a.IsLast writes := by
  -- From the end: the final write meets the draft that all others have left.
  induction writes using List.reverseRecOn with
  | nil => exact iff_of_false (not_mem_assignments_empty a) a.not_isLast_nil
  | append_singleton writes b ih =>
    rw [ofWrites, List.foldl_concat, mem_assignments_write, Assignment.isLast_concat, ← ih,
      ofWrites]

theorem color_ofWrites_eq_some {slot : ColorSlot} {c : Color R} :
    (ofWrites writes).color slot = some c ↔ (Assignment.color slot c).IsLast writes := by
  rw [← color_mem_assignments, mem_assignments_ofWrites]

theorem scalar_ofWrites_eq_some {slot : ScalarSlot} {x : R} :
    (ofWrites writes).scalar slot = some x ↔ (Assignment.scalar slot x).IsLast writes := by
  rw [← scalar_mem_assignments, mem_assignments_ofWrites]

theorem mem_slots_ofWrites {slot : Slot} :
    slot ∈ (ofWrites writes).assignments.map Assignment.slot ↔
      slot ∈ writes.map Assignment.slot := by
  simp only [← Assignment.exists_isLast_iff, List.mem_map (l := assignments _),
    mem_assignments_ofWrites, and_comm]

theorem assignment?_eq_none {slot : Slot} :
    d.assignment? slot = none ↔ slot ∉ d.assignments.map Assignment.slot := by
  rw [Option.eq_none_iff_forall_ne_some, List.mem_map]
  constructor
  · rintro h ⟨a, ha, rfl⟩
    exact h a (mem_assignments.1 ha)
  · intro h a ha
    obtain rfl := slot_of_assignment? ha
    exact h ⟨a, mem_assignments.2 ha, rfl⟩

theorem color_ofWrites_eq_none {slot : ColorSlot} :
    (ofWrites writes).color slot = none ↔ .color slot ∉ writes.map Assignment.slot := by
  rw [← mem_slots_ofWrites, ← assignment?_eq_none, assignment?, Option.map_eq_none_iff]

theorem scalar_ofWrites_eq_none {slot : ScalarSlot} :
    (ofWrites writes).scalar slot = none ↔ .scalar slot ∉ writes.map Assignment.slot := by
  rw [← mem_slots_ofWrites, ← assignment?_eq_none, assignment?, Option.map_eq_none_iff]

/-! ### Counting -/

theorem size_eq_length (d : Draft R) : d.size = d.assignments.length := by
  simp [size, assignments, Slot.all, List.length_filterMap_eq_countP,
    Function.comp_def, assignment?]

/-- The size is the number of entries with a value. -/
theorem size_eq_countP (d : Draft R) : d.size =
    d.colors.toList.countP Option.isSome + d.scalars.toList.countP Option.isSome := by
  rw [Table.toList_colors, Table.toList_scalars, List.countP_map, List.countP_map]
  rfl

theorem isEmpty_iff_size_eq_zero : d.isEmpty = true ↔ d.size = 0 := by
  simp [isEmpty, size, List.countP_eq_zero]

theorem size_ofWrites (writes : List (Assignment R)) :
    (ofWrites writes).size = (writes.map Assignment.slot).toFinset.card := by
  have hslots : ((ofWrites writes).assignments.map Assignment.slot).toFinset =
      (writes.map Assignment.slot).toFinset := by
    ext slot
    rw [List.mem_toFinset, List.mem_toFinset, mem_slots_ofWrites]
  rw [size_eq_length, ← hslots, List.toFinset_card_of_nodup (nodup_assignments _), List.length_map]

theorem isEmpty_ofWrites : (ofWrites writes).isEmpty = true ↔ writes = [] := by
  rw [isEmpty_iff_size_eq_zero, size_ofWrites, Finset.card_eq_zero, List.toFinset_eq_empty_iff,
    List.map_eq_nil_iff]

end Draft

/-! ## Token sets -/

namespace TokenSet
variable {R : Type} [Number R]

def write (t : TokenSet R) : Assignment R → TokenSet R
  | .color slot c => t.putColor slot c
  | .scalar slot x => t.setScalar slot x

def writeAll (t : TokenSet R) (writes : List (Assignment R)) : TokenSet R := writes.foldl write t

/-- The token set with what a draft declares in the place of its own values. -/
def overlay (t : TokenSet R) (d : Draft R) : TokenSet R :=
  Table.ofFn (fun slot => (d.color slot).getD (t.color slot))
    (fun slot => (d.scalar slot).elim (t.scalar slot) (Number.clampOr 0.0))

theorem overlay_empty (t : TokenSet R) : t.overlay Draft.empty = t := by
  refine Table.ext_slots (fun slot => ?_) fun slot => ?_
  · simp [overlay, Draft.empty]
  · simp [overlay, Draft.empty]

/-- It is the same to write to a draft or to the token set under it. -/
theorem overlay_write (t : TokenSet R) (d : Draft R) (a : Assignment R) :
    t.overlay (d.write a) = (t.overlay d).write a := by
  cases a with
  | color slot c =>
    refine Table.ext_slots (fun other => ?_) fun other => ?_
    · by_cases h : other = slot
      · simp [overlay, write, Draft.write, Draft.setColor, Table.color_putColor, h]
      · simp [overlay, write, Draft.write, Draft.setColor, Table.color_putColor, h]
    · simp [overlay, write, Draft.write, Draft.setColor]
  | scalar slot x =>
    refine Table.ext_slots (fun other => ?_) fun other => ?_
    · simp [overlay, write, Draft.write, Draft.setScalar, setScalar]
    · by_cases h : other = slot
      · simp [overlay, write, Draft.write, Draft.setScalar, setScalar, Table.scalar_putScalar, h]
      · simp [overlay, write, Draft.write, Draft.setScalar, setScalar, Table.scalar_putScalar, h]

theorem writeAll_eq_overlay (t : TokenSet R) (writes : List (Assignment R)) :
    t.writeAll writes = t.overlay (Draft.ofWrites writes) := by
  have hrun : writes.foldl write (t.overlay Draft.empty) = t.overlay (Draft.ofWrites writes) :=
    List.foldl_hom t.overlay fun d a => (t.overlay_write d a).symm
  rwa [overlay_empty] at hrun

theorem color_writeAll (t : TokenSet R) (writes : List (Assignment R)) (slot : ColorSlot) :
    (t.writeAll writes).color slot = ((Draft.ofWrites writes).color slot).getD (t.color slot) := by
  rw [writeAll_eq_overlay, overlay, Table.color_ofFn]

theorem scalar_writeAll (t : TokenSet R) (writes : List (Assignment R)) (slot : ScalarSlot) :
    (t.writeAll writes).scalar slot =
      ((Draft.ofWrites writes).scalar slot).elim (t.scalar slot) (Number.clampOr 0.0) := by
  rw [writeAll_eq_overlay, overlay, Table.scalar_ofFn]

end TokenSet

/-! ## Themes by category -/

namespace Theme
variable {R : Type}

/-- A theme by category is the same as a token set. -/
def equivTokens : Theme R ≃ TokenSet R where
  toFun t := Table.ofFn t.color t.scalar
  invFun t := {
    surfaces := {
      primary := t.color .surfacesPrimary
      secondary := t.color .surfacesSecondary
      tertiary := t.color .surfacesTertiary
      elevated := t.color .surfacesElevated
      inverse := t.color .surfacesInverse }
    content := {
      primary := t.color .contentPrimary
      secondary := t.color .contentSecondary
      tertiary := t.color .contentTertiary
      inverse := t.color .contentInverse
      link := t.color .contentLink
      linkVisited := t.color .contentLinkVisited }
    accents := {
      primary := t.color .accentsPrimary
      primaryContainer := t.color .accentsPrimaryContainer
      secondary := t.color .accentsSecondary
      success := t.color .accentsSuccess
      warning := t.color .accentsWarning
      error := t.color .accentsError }
    states := {
      hoverOverlay := t.scalar .hoverOverlay
      pressedOverlay := t.scalar .pressedOverlay
      focusRing := t.color .statesFocusRing
      disabledOpacity := t.scalar .disabledOpacity }
    borders := {
      subtle := t.color .bordersSubtle
      default := t.color .bordersDefault
      strong := t.color .bordersStrong } }
  left_inv t := by simp [color, scalar]
  right_inv t := by
    refine Table.ext_slots (fun slot => ?_) fun slot => ?_
    · rw [Table.color_ofFn]
      cases slot <;> rfl
    · rw [Table.scalar_ofFn]
      cases slot <;> rfl

@[simp] theorem color_equivTokens (t : Theme R) (slot : ColorSlot) :
    (equivTokens t).color slot = t.color slot := Table.color_ofFn _ _ slot

@[simp] theorem scalar_equivTokens (t : Theme R) (slot : ScalarSlot) :
    (equivTokens t).scalar slot = t.scalar slot := Table.scalar_ofFn _ _ slot

variable [Number R]

def write (t : Theme R) : Assignment R → Theme R
  | .color slot c => t.setColor slot c
  | .scalar slot x => t.setScalar slot x

def writeAll (t : Theme R) (writes : List (Assignment R)) : Theme R := writes.foldl write t

theorem equivTokens_write (t : Theme R) (a : Assignment R) :
    equivTokens (t.write a) = (equivTokens t).write a := by
  cases a with
  | color slot c =>
    refine Table.ext_slots (fun other => ?_) fun other => ?_
    · simp [write, TokenSet.write, color_setColor, Table.color_putColor]
    · simp [write, TokenSet.write]
  | scalar slot x =>
    refine Table.ext_slots (fun other => ?_) fun other => ?_
    · simp [write, TokenSet.write, TokenSet.setScalar]
    · simp [write, TokenSet.write, TokenSet.setScalar, scalar_setScalar, Table.scalar_putScalar]

theorem equivTokens_writeAll (t : Theme R) (writes : List (Assignment R)) :
    equivTokens (t.writeAll writes) = (equivTokens t).writeAll writes :=
  (List.foldl_hom equivTokens fun t a => (equivTokens_write t a).symm).symm

theorem color_writeAll (t : Theme R) (writes : List (Assignment R)) (slot : ColorSlot) :
    (t.writeAll writes).color slot = ((Draft.ofWrites writes).color slot).getD (t.color slot) := by
  rw [← color_equivTokens, equivTokens_writeAll, TokenSet.color_writeAll, color_equivTokens]

theorem scalar_writeAll (t : Theme R) (writes : List (Assignment R)) (slot : ScalarSlot) :
    (t.writeAll writes).scalar slot =
      ((Draft.ofWrites writes).scalar slot).elim (t.scalar slot) (Number.clampOr 0.0) := by
  rw [← scalar_equivTokens, equivTokens_writeAll, TokenSet.scalar_writeAll, scalar_equivTokens]

end Theme

/-! ## What slots hold after a sequence of writes -/

section
variable {R : Type}

/-- A draft in which nothing but these writes was made. -/
structure Draft.Holds (d : Draft R) (writes : List (Assignment R)) : Prop where
  color : ∀ {slot c}, d.color slot = some c ↔ (Assignment.color slot c).IsLast writes
  color_none : ∀ {slot}, d.color slot = none ↔ .color slot ∉ writes.map Assignment.slot
  scalar : ∀ {slot x}, d.scalar slot = some x ↔ (Assignment.scalar slot x).IsLast writes
  scalar_none : ∀ {slot}, d.scalar slot = none ↔ .scalar slot ∉ writes.map Assignment.slot
  size : d.size = (writes.map Assignment.slot).toFinset.card
  entries : d.colors.toList.countP Option.isSome + d.scalars.toList.countP Option.isSome = d.size
  isEmpty : d.isEmpty = true ↔ writes = []

/-- How complete tokens are read before and after a sequence of writes. -/
structure Overwritten [Number R] (writes : List (Assignment R))
    (colorBefore colorAfter : ColorSlot → Color R) (scalarBefore scalarAfter : ScalarSlot → R) :
    Prop where
  color : ∀ {slot c}, (Assignment.color slot c).IsLast writes → colorAfter slot = c
  /-- No write to another slot has any effect here. -/
  color_kept : ∀ {slot}, .color slot ∉ writes.map Assignment.slot →
    colorAfter slot = colorBefore slot
  scalar : ∀ {slot x}, (Assignment.scalar slot x).IsLast writes →
    Number.ClampsTo x (scalarAfter slot)
  scalar_kept : ∀ {slot}, .scalar slot ∉ writes.map Assignment.slot →
    scalarAfter slot = scalarBefore slot

/-- What drafts, token sets and themes hold in their slots after a sequence of writes. -/
structure WritesHeld [Number R] (writes : List (Assignment R)) : Prop where
  draft : (Draft.ofWrites writes).Holds writes
  tokenSet : ∀ t : TokenSet R, Overwritten writes t.color (t.writeAll writes).color
    t.scalar (t.writeAll writes).scalar
  theme : ∀ t : Theme R, Overwritten writes t.color (t.writeAll writes).color
    t.scalar (t.writeAll writes).scalar
  /-- A theme by category and its token set stay the same under writes. -/
  same : ∀ t : Theme R,
    Theme.equivTokens (t.writeAll writes) = (Theme.equivTokens t).writeAll writes

theorem Draft.holds_ofWrites (writes : List (Assignment R)) :
    (Draft.ofWrites writes).Holds writes where
  color := color_ofWrites_eq_some
  color_none := color_ofWrites_eq_none
  scalar := scalar_ofWrites_eq_some
  scalar_none := scalar_ofWrites_eq_none
  size := size_ofWrites writes
  entries := (size_eq_countP _).symm
  isEmpty := isEmpty_ofWrites

end

section
variable {lib : Binary64.Elementary} {writes : List (Assignment (Double lib))}
  {colorBefore colorAfter : ColorSlot → Color (Double lib)}
  {scalarBefore scalarAfter : ScalarSlot → Double lib}

/-- It is enough that the tokens take over what the draft of the writes declares. -/
theorem Overwritten.of_draft
    (hcolor : ∀ slot, colorAfter slot =
      ((Draft.ofWrites writes).color slot).getD (colorBefore slot))
    (hscalar : ∀ slot, scalarAfter slot =
      ((Draft.ofWrites writes).scalar slot).elim (scalarBefore slot) (Number.clampOr 0.0)) :
    Overwritten writes colorBefore colorAfter scalarBefore scalarAfter where
  color h := by
    rw [hcolor, Draft.color_ofWrites_eq_some.2 h]
    rfl
  color_kept h := by
    rw [hcolor, Draft.color_ofWrites_eq_none.2 h]
    rfl
  scalar h := by
    rw [hscalar, Draft.scalar_ofWrites_eq_some.2 h]
    exact Double.clampsTo_clampOr _
  scalar_kept h := by
    rw [hscalar, Draft.scalar_ofWrites_eq_none.2 h]
    rfl

theorem writesHeld (writes : List (Assignment (Double lib))) : WritesHeld writes where
  draft := Draft.holds_ofWrites writes
  tokenSet t := .of_draft (t.color_writeAll writes) (t.scalar_writeAll writes)
  theme t := .of_draft (t.color_writeAll writes) (t.scalar_writeAll writes)
  same t := t.equivTokens_writeAll writes

end

end ThemeTokens
