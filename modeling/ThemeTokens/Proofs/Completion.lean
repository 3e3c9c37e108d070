import ThemeTokens.Proofs.Paint
import ThemeTokens.Proofs.Synthesis

/-!
# Completing a draft

A completed draft keeps what was declared. Everything that is synthesised comes from six slots, so
declaring any other slot changes nothing but that slot. The values of a completed draft are
themselves a draft that is completed to them.
-/
namespace ThemeTokens

/-! ## What missing slots depend on -/

namespace Draft
variable {R : Type} {d e : Draft R}

/-- The slots that missing ones are synthesised from. -/
def sources : List ColorSlot :=
  [.surfacesPrimary, .surfacesSecondary, .contentPrimary, .contentLink, .accentsPrimary,
    .statesFocusRing]

/-- Drafts that declare the same sources, whatever else they declare. -/
def SameSources (d e : Draft R) : Prop := ∀ slot ∈ sources, e.color slot = d.color slot

theorem sameSources_setColor {slot : ColorSlot} (h : slot ∉ sources) (c : Color R) :
    d.SameSources (d.setColor slot c) := by
  intro s hs
  have hne : s ≠ slot := fun he => h (he ▸ hs)
  simp only [setColor, Table.color_putColor, hne, if_false]

theorem sameSources_setScalar (slot : ScalarSlot) (x : R) : d.SameSources (d.setScalar slot x) :=
  fun s _ => Table.color_putScalar d slot s (some x)

variable [Number R]

theorem SameSources.surface_eq (h : d.SameSources e) : e.surface = d.surface := by
  simp only [SameSources, sources, List.forall_mem_cons] at h
  simp only [surface, h]

theorem SameSources.accent_eq (h : d.SameSources e) : e.accent = d.accent := by
  simp only [SameSources, sources, List.forall_mem_cons] at h
  simp only [accent, h]

theorem SameSources.variant_eq (h : d.SameSources e) : e.variant = d.variant := by
  simp only [variant, h.surface_eq]

theorem SameSources.basis_eq (h : d.SameSources e) (base : TokenSet R) :
    e.basis base = d.basis base := by
  have hcontent : e.color .contentPrimary = d.color .contentPrimary := h _ (by simp [sources])
  have hlink : e.color .contentLink = d.color .contentLink := h _ (by simp [sources])
  simp only [basis, h.surface_eq, h.variant_eq, h.accent_eq, hcontent, hlink]

/-- What a slot is completed to depends on the sources and on its own declaration. -/
theorem SameSources.color_complete_eq (h : d.SameSources e) {slot : ColorSlot}
    (hslot : e.color slot = d.color slot) : e.complete.color slot = d.complete.color slot := by
  simp only [complete, Table.color_ofFn, hslot, h.accent_eq, h.variant_eq, h.basis_eq]

/-! ## Declared and default numbers -/

theorem scalar_complete_of_some {slot : ScalarSlot} {x : R} (h : d.scalar slot = some x) :
    d.complete.scalar slot = Number.clampOr 0.0 x := by
  simp only [complete, Table.scalar_ofFn, h]

theorem scalar_complete_of_none {slot : ScalarSlot} (h : d.scalar slot = none) :
    d.complete.scalar slot = Palette.scalar slot := by
  simp only [complete, Table.scalar_ofFn, h, Palette.tokens]

/-- A number is completed by itself: no other declaration has a part in it. -/
theorem scalar_complete_congr {slot : ScalarSlot} (h : e.scalar slot = d.scalar slot) :
    e.complete.scalar slot = d.complete.scalar slot := by
  cases hd : d.scalar slot with
  | none => rw [scalar_complete_of_none hd, scalar_complete_of_none (h.trans hd)]
  | some x => rw [scalar_complete_of_some hd, scalar_complete_of_some (h.trans hd)]

end Draft

/-! ## Declaring the values of a token set -/

namespace TokenSet
variable {R : Type}

/-- The draft that also declares one slot, as the token set has it. -/
def declare (t : TokenSet R) (d : Draft R) : Slot → Draft R
  | .color s => d.setColor s (t.color s)
  | .scalar s => d.setScalar s (t.scalar s)

theorem color_foldl_declare (t : TokenSet R) (slots : List Slot) (d : Draft R) (s : ColorSlot) :
    (slots.foldl t.declare d).color s =
      if .color s ∈ slots then some (t.color s) else d.color s := by
  induction slots generalizing d with
  | nil => rfl
  | cons slot slots ih =>
    rw [List.foldl_cons, ih]
    cases slot with
    | color other =>
      by_cases he : s = other
      · simp [declare, Draft.setColor, Table.color_putColor, he]
      · simp [declare, Draft.setColor, Table.color_putColor, he]
    | scalar other => simp [declare, Draft.setScalar]

theorem scalar_foldl_declare (t : TokenSet R) (slots : List Slot) (d : Draft R)
    (s : ScalarSlot) : (slots.foldl t.declare d).scalar s =
      if .scalar s ∈ slots then some (t.scalar s) else d.scalar s := by
  induction slots generalizing d with
  | nil => rfl
  | cons slot slots ih =>
    rw [List.foldl_cons, ih]
    cases slot with
    | color other => simp [declare, Draft.setColor]
    | scalar other =>
      by_cases he : s = other
      · simp [declare, Draft.setScalar, Table.scalar_putScalar, he]
      · simp [declare, Draft.setScalar, Table.scalar_putScalar, he]

variable [Number R]

/-- Where all slots are declared, nothing is left to synthesise. -/
theorem complete_foldl_declare {t : TokenSet R}
    (hclamp : ∀ s, Number.clampOr 0.0 (t.scalar s) = t.scalar s) {slots : List Slot}
    (hall : ∀ s, s ∈ slots) (d : Draft R) : (slots.foldl t.declare d).complete = t := by
  apply Table.ext_slots
  · intro s
    apply Draft.color_complete
    simp [color_foldl_declare, hall]
  · intro s
    rw [Draft.scalar_complete_of_some (x := t.scalar s) (by simp [scalar_foldl_declare, hall]),
      hclamp]

end TokenSet

/-! ## Numbers in the unit interval -/

/-- The number in `[0, 1]` that stands for any other: the nearest one, and zero if there is
none. -/
structure Number.ClampsTo {R : Type} [Number R] (x y : R) : Prop where
  nan : isNaN x = true → y = 0.0
  low : x < 0.0 → y = 0.0
  high : 1.0 < x → y = 1.0
  kept : 0.0 ≤ x → x ≤ 1.0 → y = x

namespace Binary64
open Float.Model

theorem isNaN_of_le {x y : Float} (h : x ≤ y) : y.isNaN = false := by
  rw [le_iff_unpack] at h
  change y.toModel.unpack.isNaN = false
  generalize x.toModel.unpack = u at h
  cases hv : y.toModel.unpack with
  | notANumber =>
    rw [hv] at h
    rcases u with _ | _ | _ | _ <;> cases h
  | _ => rfl

end Binary64

namespace Double
variable {lib : Binary64.Elementary} {x : Double lib}

/-- Nothing is both above one and below zero. -/
theorem not_lt_zero_of_one_lt (h : 1.0 < x) : ¬ x < 0.0 := by
  intro hlow
  have hfinite : Finite x := Binary64.isFinite_of_between finite_one finite_zero
    (Binary64.le_of_lt h) (Binary64.le_of_lt hlow)
  rw [lt_iff finite_one hfinite, toReal_one] at h
  rw [lt_iff hfinite finite_zero, toReal_zero] at hlow
  linarith

theorem clampsTo_clampOr (x : Double lib) : Number.ClampsTo x (Number.clampOr 0.0 x) where
  nan h := by simp [Number.clampOr, h]
  low h := by simp [Number.clampOr, Number.clamp, h]
  high h := by
    have hnan : Number.isNaN x = false := Binary64.isNaN_of_le (Binary64.le_of_lt h)
    simp [Number.clampOr, Number.clamp, hnan, not_lt_zero_of_one_lt h, h]
  kept h0 h1 := clampOr_of_mem 0.0 h0 h1

theorem zero_mem : 0.0 ≤ (0.0 : Double lib) ∧ (0.0 : Double lib) ≤ 1.0 := by
  simp [le_iff finite_zero finite_zero, le_iff finite_zero finite_one]

theorem fraction_mem {m e : ℕ} (hm : m < 2 ^ 53) (he : e ≤ 22)
    (h0 : slip ≤ (OfScientific.ofScientific m true e : ℝ))
    (h1 : (OfScientific.ofScientific m true e : ℝ) + slip ≤ 1) :
    0.0 ≤ (OfScientific.ofScientific m true e : Double lib) ∧
      (OfScientific.ofScientific m true e : Double lib) ≤ 1.0 := by
  have hslip : 0 ≤ slip := by norm_num [slip]
  have hnear : Near 1 slip (OfScientific.ofScientific m true e : Double lib)
      (OfScientific.ofScientific m true e : ℝ) := near_fraction hm he (by linarith)
  have hge := hnear.ge
  have hle := hnear.le
  rw [le_iff finite_zero hnear.finite, le_iff hnear.finite finite_one, toReal_zero, toReal_one]
  constructor <;> linarith

end Double

theorem Palette.scalar_mem {lib : Binary64.Elementary} (slot : ScalarSlot) :
    0.0 ≤ (scalar slot : Double lib) ∧ (scalar slot : Double lib) ≤ 1.0 := by
  cases slot with
  | _ =>
    rw [scalar]
    apply Double.fraction_mem
    all_goals norm_num [Double.slip]

/-! ## The completed draft -/

/-- What completing a draft keeps, and what it lets other slots depend on. -/
structure Draft.Completion {R : Type} [Number R] (d : Draft R) : Prop where
  color : ∀ {slot c}, d.color slot = some c → d.complete.color slot = c
  scalar : ∀ {slot x}, d.scalar slot = some x → Number.ClampsTo x (d.complete.scalar slot)
  default : ∀ {slot}, d.scalar slot = none → d.complete.scalar slot = Palette.scalar slot
  /-- A colour that nothing is synthesised from changes its own slot alone. -/
  setColor : ∀ {slot}, slot ∉ sources → ∀ c,
    (∀ other, other ≠ slot →
      (d.setColor slot c).complete.color other = d.complete.color other) ∧
    ∀ other, (d.setColor slot c).complete.scalar other = d.complete.scalar other
  setScalar : ∀ slot x,
    (∀ other, (d.setScalar slot x).complete.color other = d.complete.color other) ∧
    ∀ other, other ≠ slot →
      (d.setScalar slot x).complete.scalar other = d.complete.scalar other
  /-- Declaring all slots as completed, in any order, is completed to the same tokens. -/
  again : ∀ {slots : List Slot}, (∀ s, s ∈ slots) →
    (slots.foldl d.complete.declare Draft.empty).complete = d.complete

section
variable {lib : Binary64.Elementary}

theorem Draft.scalar_complete_mem (d : Draft (Double lib)) (slot : ScalarSlot) :
    0.0 ≤ d.complete.scalar slot ∧ d.complete.scalar slot ≤ 1.0 := by
  cases h : d.scalar slot with
  | none =>
    rw [scalar_complete_of_none h]
    exact Palette.scalar_mem slot
  | some x =>
    rw [scalar_complete_of_some h]
    exact Double.clampOr_mem Double.zero_mem

theorem Draft.completion (d : Draft (Double lib)) : d.Completion where
  color := color_complete
  scalar h := by
    rw [scalar_complete_of_some h]
    exact Double.clampsTo_clampOr _
  default := scalar_complete_of_none
  setColor hslot c := by
    have hsame := sameSources_setColor (d := d) hslot c
    constructor
    · intro other hne
      apply hsame.color_complete_eq
      simp [setColor, Table.color_putColor, hne]
    · intro other
      exact scalar_complete_congr (Table.scalar_putColor d _ other _)
  setScalar slot x := by
    constructor
    · intro other
      exact (sameSources_setScalar slot x).color_complete_eq (Table.color_putScalar d slot other _)
    · intro other hne
      apply scalar_complete_congr
      simp [setScalar, Table.scalar_putScalar, hne]
  again hall := by
    apply TokenSet.complete_foldl_declare _ hall
    intro s
    obtain ⟨h0, h1⟩ := d.scalar_complete_mem s
    exact Double.clampOr_of_mem 0.0 h0 h1

end

end ThemeTokens
