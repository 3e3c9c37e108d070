import ThemeTokens.Proofs.Declaration.Draft
import ThemeTokens.Proofs.Document.Draft
import ThemeTokens.Proofs.Document.RoundTrip
import ThemeTokens.Proofs.Recognition

/-!
# Agreement of the formats

A draft says the same as declarations and as a document: both readers give the draft back, so it
makes the same schema either way.
-/
namespace ThemeTokens

/-- What both formats make of a draft, in whatever order and style it is written. -/
structure Draft.WrittenAlike {R : Type} [Number R] (d : Draft R) : Prop where
  /-- It can be written as a document, for instance with a group for every category. -/
  layout : Document.IsLayout d (Document.byCategory d)
  declarations : ∀ form {order}, order.Perm d.assignments →
    Declaration.readDraft (Declaration.draftText form order) = .ok d
  document : ∀ style {layout}, Document.IsLayout d layout →
    Document.readDraft (Document.draftText style layout) = .ok d
  schema : ∀ form style {order layout}, order.Perm d.assignments → Document.IsLayout d layout →
    ∀ (policy : Policy R) (label : Option Text), ∃ s,
      Format.declarations.parse policy label (Declaration.draftText form order) = .ok s ∧
        Format.document.parse policy label (Document.draftText style layout) = .ok s

namespace Double
variable {lib : Binary64.Elementary}

theorem printed_of_alpha {c : Color (Double lib)} {k : UInt8} (h : c.alpha = Number.ofByte k) :
    c.printed = c := by
  have hc : c = Color.ofChannels c.red c.green c.blue (Number.ofByte k) := by
    rw [Color.ofChannels, clampOr_of_mem _ (ofByte_nonneg k) (ofByte_le_one k), ← h]
  rw [hc, printed_ofByte]

end Double

namespace Draft
variable {lib : Binary64.Elementary}

section
variable {d : Draft (Double lib)}
  (halpha : ∀ slot c, d.color slot = some c → ∃ k : UInt8, c.alpha = Number.ofByte k)
  (hfinite : ∀ slot x, d.scalar slot = some x → Number.isFinite x = true)
  (hnumbers : ∀ slot x, d.scalar slot = some x →
    Number.read? (Number.text x) = some x ∧ Json.ReadsBack x)
include halpha hfinite hnumbers

theorem exact_assignments : ∀ a ∈ d.assignments, a.Exact := by
  intro a ha
  cases a with
  | color slot c =>
    obtain ⟨k, hk⟩ := halpha slot c (color_mem_assignments.1 ha)
    exact Double.printed_of_alpha hk
  | scalar slot x =>
    have hx := scalar_mem_assignments.1 ha
    exact ⟨(hnumbers slot x hx).1, (hnumbers slot x hx).2, hfinite slot x hx⟩

theorem writtenAlike (hne : d.isEmpty = false) : d.WrittenAlike := by
  have hexact := exact_assignments halpha hfinite hnumbers
  refine ⟨Document.isLayout_byCategory d, fun form order horder => ?_,
    fun style layout hlayout => ?_, fun form style order layout horder hlayout policy label => ?_⟩
  · exact Declaration.readDraft_draftText hexact horder hne
  · exact Document.readDraft_draftText hexact hlayout hne
  · refine ⟨Schema.finalize d.complete policy label, ?_, ?_⟩
    · exact Format.parse_eq_ok.2
        ⟨d, Declaration.readDraft_draftText hexact horder hne, hne, rfl⟩
    · exact Format.parse_eq_ok.2
        ⟨d, Document.readDraft_draftText hexact hlayout hne, hne, rfl⟩

end

/-- A translucent window, and a number that is brought into range when the draft is completed. -/
def glass {R : Type} [Number R] : Draft R :=
  (Draft.empty.setColor .surfacesPrimary ⟨0x24, 0x24, 0x24, Number.ofByte 0x80⟩).setScalar
    .hoverOverlay 1.5

theorem color_glass (slot : ColorSlot) : (glass : Draft (Double lib)).color slot =
    if slot = .surfacesPrimary then some ⟨0x24, 0x24, 0x24, Number.ofByte 0x80⟩ else none := by
  simp [glass, setScalar, setColor, Table.color_putColor, empty]

theorem scalar_glass (slot : ScalarSlot) : (glass : Draft (Double lib)).scalar slot =
    if slot = .hoverOverlay then some 1.5 else none := by
  simp [glass, setScalar, setColor, Table.scalar_putScalar, empty]

theorem isEmpty_glass : (glass : Draft (Double lib)).isEmpty = false := by
  simp [isEmpty, ColorSlot.all, color_glass]

theorem alpha_glass : ∀ slot c, (glass : Draft (Double lib)).color slot = some c →
    ∃ k : UInt8, c.alpha = Number.ofByte k := by
  intro slot c hc
  rw [color_glass, Option.ite_none_right_eq_some] at hc
  cases hc.2
  exact ⟨0x80, rfl⟩

theorem isFinite_glass : ∀ slot x, (glass : Draft (Double .rounded)).scalar slot = some x →
    Number.isFinite x = true := by
  intro slot x hx
  rw [scalar_glass, Option.ite_none_right_eq_some] at hx
  cases hx.2
  decide +kernel

theorem readsBack_glass : ∀ slot x, (glass : Draft (Double .rounded)).scalar slot = some x →
    Number.read? (Number.text x) = some x ∧ Json.ReadsBack x := by
  intro slot x hx
  rw [scalar_glass, Option.ite_none_right_eq_some] at hx
  cases hx.2
  exact ⟨by decide +kernel, Schema.readsBack_of_token (c := '1') (t := ".5") rfl
    (by decide +kernel) (by decide +kernel)⟩

/-- The glass is written as properties, and as a document with a group for every category. -/
theorem writtenAlike_glass :
    (∀ slot c, (glass : Draft (Double .rounded)).color slot = some c →
      ∃ k : UInt8, c.alpha = Number.ofByte k) ∧
    (∀ slot x, (glass : Draft (Double .rounded)).scalar slot = some x →
      Number.isFinite x = true) ∧
    (∀ slot x, (glass : Draft (Double .rounded)).scalar slot = some x →
      Number.read? (Number.text x) = some x ∧ Json.ReadsBack x) ∧
    (glass : Draft (Double .rounded)).isEmpty = false ∧
    (glass : Draft (Double .rounded)).WrittenAlike ∧
    ∃ s : Schema (Double .rounded),
      Format.declarations.parse .standard none (Declaration.draftText (fun _ => .property)
          (glass : Draft (Double .rounded)).assignments) = .ok s ∧
      Format.document.parse .standard none (Document.draftText (fun _ => .bare)
        (Document.byCategory (glass : Draft (Double .rounded)))) = .ok s := by
  have halike : (glass : Draft (Double .rounded)).WrittenAlike :=
    writtenAlike alpha_glass isFinite_glass readsBack_glass isEmpty_glass
  exact ⟨alpha_glass, isFinite_glass, readsBack_glass, isEmpty_glass, halike,
    halike.schema _ _ (.refl _) halike.layout .standard none⟩

end Draft

end ThemeTokens
