import ThemeTokens.Proofs.Color.Hex
import ThemeTokens.Proofs.Json
import ThemeTokens.Proofs.Numeral
import ThemeTokens.Token.Set

/-!
# Drafts as assignments

A draft assigns a value to each slot that it declares. Such an assignment can be written wherever
the text of its value is read as the value.
-/
namespace ThemeTokens

/-- A slot with its value. -/
inductive Assignment (R : Type)
  | color (slot : ColorSlot) (value : Color R)
  | scalar (slot : ScalarSlot) (value : R)

section
variable {R : Type}

def Assignment.slot : Assignment R → Slot
  | .color slot _ => .color slot
  | .scalar slot _ => .scalar slot

namespace Draft
variable {d : Draft R}

def assignment? (d : Draft R) : Slot → Option (Assignment R)
  | .color slot => (d.color slot).map (.color slot)
  | .scalar slot => (d.scalar slot).map (.scalar slot)

/-- What a draft declares, in canonical order. -/
def assignments (d : Draft R) : List (Assignment R) := Slot.all.filterMap d.assignment?

theorem slot_of_assignment? {slot : Slot} {a : Assignment R} (h : d.assignment? slot = some a) :
    a.slot = slot := by
  cases slot with
  | color slot =>
    obtain ⟨c, -, rfl⟩ := Option.map_eq_some_iff.1 h
    rfl
  | scalar slot =>
    obtain ⟨x, -, rfl⟩ := Option.map_eq_some_iff.1 h
    rfl

theorem mem_assignments {a : Assignment R} :
    a ∈ d.assignments ↔ d.assignment? a.slot = some a := by
  rw [assignments, List.mem_filterMap]
  constructor
  · rintro ⟨slot, -, h⟩
    rwa [slot_of_assignment? h]
  · intro h
    exact ⟨a.slot, Slot.mem_all a.slot, h⟩

@[simp] theorem color_mem_assignments {slot : ColorSlot} {c : Color R} :
    .color slot c ∈ d.assignments ↔ d.color slot = some c := by
  simp [mem_assignments, Assignment.slot, assignment?]

@[simp] theorem scalar_mem_assignments {slot : ScalarSlot} {x : R} :
    .scalar slot x ∈ d.assignments ↔ d.scalar slot = some x := by
  simp [mem_assignments, Assignment.slot, assignment?]

theorem nodup_assignments (d : Draft R) : (d.assignments.map Assignment.slot).Nodup := by
  rw [assignments, List.map_filterMap]
  refine List.Nodup.filterMap (fun slot other key hslot hother => ?_) (by decide)
  obtain ⟨a, ha, rfl⟩ := Option.map_eq_some_iff.1 hslot
  obtain ⟨b, hb, hkey⟩ := Option.map_eq_some_iff.1 hother
  rw [← slot_of_assignment? ha, ← slot_of_assignment? hb, hkey]

/-- A slot is assigned one value at most. -/
theorem eq_of_slot_eq {a b : Assignment R} (ha : a ∈ d.assignments) (hb : b ∈ d.assignments)
    (h : a.slot = b.slot) : a = b := by
  rw [mem_assignments] at ha hb
  rw [h, hb] at ha
  exact (Option.some_inj.1 ha).symm

theorem assignments_ne_nil (h : d.isEmpty = false) : d.assignments ≠ [] := by
  intro hnil
  have hcolor (slot : ColorSlot) : d.color slot = none := by
    rw [Option.eq_none_iff_forall_ne_some]
    intro c hc
    simp [← color_mem_assignments, hnil] at hc
  have hscalar (slot : ScalarSlot) : d.scalar slot = none := by
    rw [Option.eq_none_iff_forall_ne_some]
    intro x hx
    simp [← scalar_mem_assignments, hnil] at hx
  simp [isEmpty, hcolor, hscalar] at h

end Draft

end

/-! ## Values and their texts -/

namespace Assignment
variable {R : Type} [Number R]

/-- The hexadecimal text of a colour or the decimal text of a number. -/
def text : Assignment R → Text
  | .color _ c => c.hexText
  | .scalar _ x => Number.text x

/-- The text of the value is read as the value, by the readers of both formats. -/
def Exact : Assignment R → Prop
  | .color _ c => c.printed = c
  | .scalar _ x => Number.read? (Number.text x) = some x ∧ Json.ReadsBack x ∧
      Number.isFinite x = true

end Assignment

end ThemeTokens
