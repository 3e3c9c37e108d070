import ThemeTokens.Number.Binary64
import ThemeTokens.Proofs.Binary64.Elementary
import ThemeTokens.Proofs.Document.Outcome

/-!
# The leaves that matter

Where all references of a document lead somewhere, each slot depends on one leaf alone. Documents
with the same deciding tokens give the same draft or the same error, whatever their other leaves
hold.
-/
namespace ThemeTokens.Document
open Keyed (LeadsTo)

section
variable {R : Type} {entries : Keyed (Entry R)}

theorem exists_decides (hs : Keyed.Sorted entries) (hr : Resolves entries) {slot : Slot}
    {path : Text} {rank : Rank} (hpath : path ∈ entries.keys)
    (hslot : slotFor? path = some (slot, rank)) :
    ∃! decider, Decides entries.keys slot decider := by
  obtain ⟨tokens, _, hkeys, hw⟩ := exists_tokens hs hr
  cases hwinner : winner? (candidates tokens) slot with
  | none => exact absurd hslot (winner?_eq_none.1 hwinner path (hkeys ▸ hpath) rank)
  | some token =>
    obtain ⟨decider, hdecides, _⟩ := (hw slot token).1 hwinner
    exact ⟨decider, hdecides, fun _ hother => hother.unique hdecides⟩

/-- Leaves without references resolve. -/
theorem resolves_of_leaf (hs : Keyed.Sorted entries)
    (h : ∀ entry ∈ entries, ∃ leaf, entry.2.value = .leaf leaf) : Resolves entries := by
  intro path hpath
  obtain ⟨entry, hentry, rfl⟩ := List.mem_map.1 hpath
  obtain ⟨leaf, hleaf⟩ := h entry hentry
  refine ⟨leaf, entry.1, .refl, ?_⟩
  rw [absoluteValues, Keyed.get?_mapValues, hs.get?_of_mem hentry, Option.map_some, hleaf]
  rfl

end

variable {R : Type} [Number R]

theorem Fills.scalar_eq {entries : Keyed (Entry R)} {d : Draft R} (h : Fills entries d)
    {s : ScalarSlot} {token : Token R} (hwins : Wins entries (.scalar s) token) :
    d.scalar s = token.scalar? := by
  refine Option.ext fun x => ?_
  rw [h.scalar, Token.scalar?_eq_some]
  constructor
  · rintro ⟨other, hother, hx⟩
    rwa [hother.unique hwins] at hx
  · exact fun hx => ⟨token, hwins, hx⟩

/-- Documents with the same deciding tokens read alike. -/
theorem readDraft_congr {source other : Text} (hne : (leaves source : Keyed (Entry R)) ≠ [])
    (hr : Resolves (leaves source : Keyed (Entry R)))
    (hne' : (leaves other : Keyed (Entry R)) ≠ [])
    (hr' : Resolves (leaves other : Keyed (Entry R)))
    (h : ∀ slot token, Wins (leaves other : Keyed (Entry R)) slot token ↔
      Wins (leaves source) slot token) :
    (readDraft other : Except SourceError (Draft R)) = readDraft source := by
  obtain ⟨found, hw, hread⟩ := exists_found hne hr
  obtain ⟨found', hw', hread'⟩ := exists_found hne' hr'
  have hwinner : winner? found' = winner? found := by
    funext slot
    refine Option.ext fun token => ?_
    rw [hw, hw', h]
  have hcolor : readColorSlot found' = readColorSlot found := by
    funext d s
    rw [readColorSlot, readColorSlot, hwinner]
  have hscalar : readScalarSlot found' = readScalarSlot found := by
    funext d s
    rw [readScalarSlot, readScalarSlot, hwinner]
  rw [hread, hread', readSlots, readSlots, hcolor, hscalar]

/-- Of the leaves whose paths stand for a slot, the one with the least standing is read and no
other has any influence: neither is a value taken from another one, nor does another one cause an
error. -/
theorem readDraft_deciders {source : Text} (hne : (leaves source : Keyed (Entry R)) ≠ [])
    (hr : Resolves (leaves source : Keyed (Entry R))) :
    let entries : Keyed (Entry R) := leaves source
    let result : Except SourceError (Draft R) := readDraft source
    (∀ slot, (∃ path ∈ entries.keys, ∃ rank, slotFor? path = some (slot, rank)) →
        ∃! path, Decides entries.keys slot path) ∧
      (∀ d, result = .ok d → ∀ path token, Reads entries path token →
        (∀ s, Decides entries.keys (.color s) path → token.color? = .ok (d.color s)) ∧
          ∀ s, Decides entries.keys (.scalar s) path → d.scalar s = token.scalar?) ∧
      (∀ d, result = .ok d → ∀ path token, Reads entries path token →
        (∀ s, Decides entries.keys (.color s) path → ¬ token.OfKind colorKinds →
          d.color s = none) ∧
          ∀ s, Decides entries.keys (.scalar s) path → ¬ token.OfKind scalarKinds →
            d.scalar s = none) ∧
      (∀ e, result = .error e → ∃ s path token literal, Decides entries.keys (.color s) path ∧
        Reads entries path token ∧ token.Malformed literal ∧ e = .malformedColor literal) ∧
      ∀ other, (leaves other : Keyed (Entry R)) ≠ [] →
        Resolves (leaves other : Keyed (Entry R)) →
        (∀ slot token, Wins (leaves other : Keyed (Entry R)) slot token ↔
          Wins entries slot token) → readDraft other = result := by
  intro entries result
  obtain ⟨found, hw, hread⟩ := exists_found hne hr
  have hfills {d : Draft R} (hd : result = .ok d) : Fills entries d :=
    (readSlots_eq_ok_iff hw).1 (hread.symm.trans hd)
  refine ⟨?_, ?_, ?_, ?_, fun other hne' hr' => readDraft_congr hne hr hne' hr'⟩
  · rintro slot ⟨path, hpath, rank, hslot⟩
    exact exists_decides (sorted_leaves source) hr hpath hslot
  · intro d hd path token hreads
    exact ⟨fun s hdecides => (hfills hd).color?_eq ⟨path, hdecides, hreads⟩,
      fun s hdecides => (hfills hd).scalar_eq ⟨path, hdecides, hreads⟩⟩
  · intro d hd path token hreads
    refine ⟨fun s hdecides hkind => ?_, fun s hdecides hkind => ?_⟩
    · have hcolor := (hfills hd).color?_eq ⟨path, hdecides, hreads⟩
      rw [Token.color?_of_not_ofKind hkind] at hcolor
      injection hcolor with hcolor
      exact hcolor.symm
    · rw [(hfills hd).scalar_eq ⟨path, hdecides, hreads⟩, Token.scalar?_of_not_ofKind hkind]
  · intro e he
    obtain ⟨literal, ⟨s, token, ⟨path, hdecides, hreads⟩, hm, _⟩, rfl⟩ :=
      (readSlots_eq_error_iff hw).1 (hread.symm.trans he)
    exact ⟨s, path, token, literal, hdecides, hreads, hm, rfl⟩

/-! ## A contested slot -/

section
open Double

/-- Three leaves stand for one slot: no colour, a number, and black. -/
def contested : Text :=
  "\x7b\"bg\": \"#zz\", \"surface\": " ++
    "\x7b\"primary\": \x7b\"type\": \"number\", \"value\": \"1\"\x7d\x7d, " ++
    "\"surfaces\": \x7b\"primary\": \"black\"\x7d\x7d"

def contestedLeaves : Keyed (Entry (Double .rounded)) := [
  ("bg", ⟨.leaf (.text "#zz"), none⟩),
  ("surface.primary", ⟨.leaf (.text "1"), some "number"⟩),
  ("surfaces.primary", ⟨.leaf (.text "black"), none⟩)]

theorem leaves_contested : leaves contested = contestedLeaves := by
  decide +kernel

theorem decides_contested :
    Decides contestedLeaves.keys (.color .surfacesPrimary) "surfaces.primary" := by
  have hbg : slotFor? "bg" = some (.color .surfacesPrimary, .convenience) := by decide
  have hsurface : slotFor? "surface.primary" = some (.color .surfacesPrimary, .synonym) := by
    decide
  have hsurfaces : slotFor? "surfaces.primary" = some (.color .surfacesPrimary, .canonical) := by
    decide
  refine ⟨.canonical, isLeast_standings.2 ⟨⟨by decide, hsurfaces⟩, fun other hother r hr => ?_⟩⟩
  simp only [contestedLeaves, Keyed.keys, List.map_cons, List.map_nil, List.mem_cons,
    List.not_mem_nil, or_false] at hother
  rcases hother with rfl | rfl | rfl
  · rw [hbg] at hr
    cases hr
    exact .inl (by decide)
  · rw [hsurface] at hr
    cases hr
    exact .inl (by decide)
  · rw [hsurfaces] at hr
    cases hr
    exact .inr ⟨rfl, le_rfl⟩

theorem reads_contested : Reads contestedLeaves "surfaces.primary" ⟨.text "black", none⟩ :=
  ⟨⟨"surfaces.primary", .refl, by decide⟩, by decide⟩

theorem contested_black :
    (leaves contested : Keyed (Entry (Double .rounded))) ≠ [] ∧
      Resolves (leaves contested : Keyed (Entry (Double .rounded))) ∧
      ∃ d : Draft (Double .rounded), readDraft contested = .ok d ∧
        d.color .surfacesPrimary = some Color.black := by
  have hne : (leaves contested : Keyed (Entry (Double .rounded))) ≠ [] := by
    rw [leaves_contested]
    exact List.cons_ne_nil _ _
  have hr : Resolves (leaves contested : Keyed (Entry (Double .rounded))) := by
    refine resolves_of_leaf (sorted_leaves contested) ?_
    rw [leaves_contested]
    simp [contestedLeaves]
  have hread := (readDraft_deciders hne hr).2.1
  have hok : (readDraft contested : Except SourceError (Draft (Double .rounded))).isOk = true := by
    decide +kernel
  refine ⟨hne, hr, ?_⟩
  cases hdraft : (readDraft contested : Except SourceError (Draft (Double .rounded))) with
  | error e =>
    rw [hdraft] at hok
    cases hok
  | ok d =>
    rw [leaves_contested] at hread
    have hcolor := (hread d hdraft _ _ reads_contested).1 _ decides_contested
    have hblack : (Token.mk (.text "black") none : Token (Double .rounded)).color? =
        .ok (some Color.black) := rfl
    rw [hblack] at hcolor
    injection hcolor with hcolor
    exact ⟨d, rfl, hcolor.symm⟩

end

end ThemeTokens.Document
