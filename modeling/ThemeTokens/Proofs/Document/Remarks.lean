import ThemeTokens.Proofs.Document.RoundTrip

/-!
# Remarks in a document

A rendered document has a leaf for every slot, and beside them texts about where the schema comes
from and what its warnings are. Whatever these texts look like, reading gives the slots and nothing
else.
-/
namespace ThemeTokens

theorem Document.size_filled {R : Type} (color : ColorSlot → Color R) (scalar : ScalarSlot → R) :
    (filled color scalar).size = 24 := by
  simp only [Draft.size, filled, Table.color_ofFn, Table.scalar_ofFn, Option.isSome_some,
    List.countP_true]
  rfl

namespace TokenDocument
open Document

/-- What reading makes of a rendered schema, for any provenance and any warning texts beside it. -/
theorem readDraft_rendered {R : Type} [Number R] (s : Schema R)
    (hfinite : ∀ slot, Number.isFinite (s.scalar slot) = true)
    (hnumbers : ∀ slot, Json.ReadsBack (s.scalar slot)) :
    (∀ scheme, (Target.tokens.render scheme s).file? "tokens/tokens.json" =
        some (textWith s.provenance (s.warnings.map Warning.message) s)) ∧
      ∀ provenance warnings,
        (∃ root : Keyed (Json R), root? (textWith provenance warnings s) = some root ∧
          ∀ path entry, (path, entry) ∈ flatten root ↔
            ∃ slot : Slot, path = slot.path ∧
              entry = ⟨.leaf (slotLeaf s slot), some (slotKind slot)⟩) ∧
        ∃ d, readDraft (textWith provenance warnings s) = .ok d ∧ d.size = 24 ∧
          (∀ slot, ∃ c, Color.ofHex (s.color slot).hexText = .ok c ∧ d.color slot = some c) ∧
          ∀ slot, d.scalar slot = some (s.scalar slot) := by
  refine ⟨fun _ => ?_, fun provenance warnings => ⟨?_, ?_⟩⟩
  · rw [← text_eq_textWith]
    rfl
  · refine ⟨_, root?_textWith hnumbers provenance warnings, fun path entry => ?_⟩
    simp only [mem_flatten, Prod.mk.injEq, slotEntry]
  · refine ⟨_, readDraft_textWith hnumbers hfinite provenance warnings, size_filled _ _,
      fun slot => ⟨_, Color.ofHex_hexText _, Table.color_ofFn _ _ slot⟩,
      fun slot => Table.scalar_ofFn _ _ slot⟩

open Schema in
/-- Remarks that look like a reference and like the end of the document. -/
theorem readDraft_rendered_inkOnPaper :
    let s := finalize (inkOnPaper : TokenSet (Double .rounded)) .standard none
    (∀ slot, Number.isFinite (s.scalar slot) = true) ∧ (∀ slot, Json.ReadsBack (s.scalar slot)) ∧
      ∃ d, readDraft (textWith (some "\x7bborders.none\x7d") ["\"\x7d", "surfaces.primary"] s) =
        .ok d ∧ d.size = 24 ∧
        (∀ slot, ∃ c, Color.ofHex (s.color slot).hexText = .ok c ∧ d.color slot = some c) ∧
        ∀ slot, d.scalar slot = some (s.scalar slot) := by
  intro s
  have hscalar (slot : ScalarSlot) : s.scalar slot = Palette.scalar slot :=
    (TokenSet.scalar_foldl_enforcePair _ EnforcedPair.all inkOnPaper slot).trans
      (Table.scalar_ofFn _ _ slot)
  have hfinite (slot : ScalarSlot) : Number.isFinite (s.scalar slot) = true := by
    rw [hscalar]
    cases slot <;> decide +kernel
  have hnumbers (slot : ScalarSlot) : Json.ReadsBack (s.scalar slot) := by
    rw [hscalar]
    exact readsBack_scalar slot
  exact ⟨hfinite, hnumbers, ((readDraft_rendered s hfinite hnumbers).2 _ _).2⟩

end TokenDocument

end ThemeTokens
