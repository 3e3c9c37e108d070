import Mathlib.Data.Set.List
import ThemeTokens.Proofs.Document.Reading
import ThemeTokens.Proofs.Document.Tree
import ThemeTokens.Proofs.Finalize
import ThemeTokens.Proofs.Recognition
import ThemeTokens.Target

/-!
# Round trip through a token document

Reading the document of a schema gives the schema with its alphas rounded to bytes. Contrast does
not see alphas, so every pair that reached its ratio still does, and finalizing has nothing left to
adjust.
-/
namespace ThemeTokens

namespace TokenDocument
open Document
variable {R : Type} [Number R]

/-! ## Tokens that are read back -/

def readToken (s : Schema R) (slot : Slot) : Document.Token R :=
  ⟨slotLeaf s slot, some (slotKind slot)⟩

theorem eq_readToken {s : Schema R} {slot : Slot} {token : Document.Token R}
    (h : token.entry = slotEntry s slot) : token = readToken s slot :=
  Document.Token.entry_injective h

theorem exists_tokens (remarks : Json R) (s : Schema R) : ∃ tokens : Keyed (Document.Token R),
    flatten (Keyed.ofList (rootMembers remarks s)) = tokens.map (fun t => (t.1, t.2.entry)) := by
  have hrange : flatten (Keyed.ofList (rootMembers remarks s)) ∈
      Set.range (List.map fun t : Text × Document.Token R => (t.1, t.2.entry)) := by
    rw [Set.range_list_map]
    intro leaf hleaf
    obtain ⟨slot, rfl⟩ := mem_flatten.1 hleaf
    exact ⟨(slot.path, readToken s slot), rfl⟩
  obtain ⟨tokens, htokens⟩ := hrange
  exact ⟨tokens, htokens.symm⟩

theorem mem_tokens {remarks : Json R} {s : Schema R} {tokens : Keyed (Document.Token R)}
    (h : flatten (Keyed.ofList (rootMembers remarks s)) = tokens.map fun t => (t.1, t.2.entry))
    {t : Text × Document.Token R} :
    t ∈ tokens ↔ ∃ slot : Slot, t = (slot.path, readToken s slot) := by
  constructor
  · intro ht
    have hmem : (t.1, t.2.entry) ∈ flatten (Keyed.ofList (rootMembers remarks s)) :=
      h ▸ List.mem_map_of_mem ht
    obtain ⟨slot, hslot⟩ := mem_flatten.1 hmem
    obtain ⟨hpath, hentry⟩ := Prod.mk.inj hslot
    exact ⟨slot, Prod.ext hpath (eq_readToken hentry)⟩
  · rintro ⟨slot, rfl⟩
    have hmem : (slot.path, slotEntry s slot) ∈ tokens.map fun t => (t.1, t.2.entry) :=
      h ▸ mem_flatten.2 ⟨slot, rfl⟩
    obtain ⟨u, hu, hslot⟩ := List.mem_map.1 hmem
    obtain ⟨hpath, hentry⟩ := Prod.mk.inj hslot
    have heq : u = (slot.path, readToken s slot) := Prod.ext hpath (eq_readToken hentry)
    exact heq ▸ hu

theorem winner?_tokens {remarks : Json R} {s : Schema R} {tokens : Keyed (Document.Token R)}
    (h : flatten (Keyed.ofList (rootMembers remarks s)) = tokens.map fun t => (t.1, t.2.entry))
    (slot : Slot) : winner? (candidates tokens) slot = some (readToken s slot) := by
  refine winner?_eq (readToken s) (fun slot => ?_) (fun c hc => ?_) slot
  · refine List.mem_filterMap.2 ⟨_, (mem_tokens h).2 ⟨slot, rfl⟩, ?_⟩
    dsimp only
    rw [slotFor?_path]
    rfl
  · obtain ⟨t, ht, hslot⟩ := List.mem_filterMap.1 hc
    obtain ⟨slot, rfl⟩ := (mem_tokens h).1 ht
    dsimp only at hslot
    rw [slotFor?_path] at hslot
    cases hslot
    rfl

theorem color?_readToken (s : Schema R) (slot : ColorSlot) :
    (readToken s (.color slot)).color? = .ok (some (s.color slot).printed) := by
  have hleaf : (readToken s (.color slot)).leaf.color = .ok (s.color slot).printed := by
    change ((Color.ofLiteral (s.color slot).hexText).mapError SourceError.ofMalformed) = _
    rw [Color.ofLiteral_hexText]
    rfl
  have hkind : (readToken s (.color slot)).hasKind colorKinds = true := rfl
  rw [Token.color?, if_pos hkind, hleaf]
  rfl

theorem scalar?_readToken {s : Schema R} {slot : ScalarSlot}
    (h : Number.isFinite (s.scalar slot) = true) :
    (readToken s (.scalar slot)).scalar? = some (s.scalar slot) := by
  have hkind : (readToken s (.scalar slot)).hasKind scalarKinds = true := rfl
  rw [Token.scalar?, if_pos hkind]
  change (if Number.isFinite (s.scalar slot) then some (s.scalar slot) else none) = _
  rw [if_pos h]

/-- What a document says about the slots of its schema. -/
theorem readDraft_textWith {s : Schema R} (hnumbers : ∀ slot, Json.ReadsBack (s.scalar slot))
    (hfinite : ∀ slot, Number.isFinite (s.scalar slot) = true) (provenance : Option Text)
    (warnings : List Text) : readDraft (textWith provenance warnings s) =
      .ok (filled (fun slot => (s.color slot).printed) s.scalar) := by
  obtain ⟨tokens, htokens⟩ := exists_tokens (remarks s.variant provenance warnings) s
  have hnonempty : (flatten (Keyed.ofList
      (rootMembers (remarks s.variant provenance warnings) s))).isEmpty = false := by
    rw [List.isEmpty_eq_false_iff_exists_mem]
    exact ⟨_, mem_flatten.2 ⟨.color .surfacesPrimary, rfl⟩⟩
  have hread := run_readTokens htokens (Keyed.sorted_ofList _)
  have hslots : readSlots (candidates tokens) =
      .ok (filled (fun slot => (s.color slot).printed) s.scalar) := by
    refine readSlots_eq (fun slot => ?_) fun slot => ?_
    · exact ⟨_, winner?_tokens htokens (.color slot), color?_readToken s slot⟩
    · rw [winner?_tokens htokens (.scalar slot), Option.bind_some]
      exact scalar?_readToken (hfinite slot)
  rw [readDraft, root?_textWith hnumbers, Option.getD_some]
  simp only [hnonempty, hread]
  exact hslots

theorem readDraft_text {s : Schema R} (hnumbers : ∀ slot, Json.ReadsBack (s.scalar slot))
    (hfinite : ∀ slot, Number.isFinite (s.scalar slot) = true) :
    readDraft (text s) = .ok (filled (fun slot => (s.color slot).printed) s.scalar) := by
  rw [text_eq_textWith, readDraft_textWith hnumbers hfinite]

end TokenDocument

variable {R : Type} [Number R]

/-! ## Printed tokens -/

namespace Color

theorem linear_printed (c : Color R) : c.printed.linear = c.linear := by
  unfold printed
  split <;> rfl

theorem luminance_printed (c : Color R) : c.printed.luminance = c.luminance := by
  rw [luminance, linear_printed, luminance]

theorem lightness_printed (c : Color R) : c.printed.lightness = c.lightness := by
  unfold printed
  split <;> rfl

theorem ratio_printed (a b : Color R) :
    Contrast.ratio a.printed b.printed = Contrast.ratio a b := by
  rw [Contrast.ratio, luminance_printed, luminance_printed, Contrast.ratio]

end Color

namespace TokenSet

/-- The tokens as a document keeps them. -/
def printed (t : TokenSet R) : TokenSet R :=
  Table.ofFn (fun slot => (t.color slot).printed) t.scalar

theorem color_printed (t : TokenSet R) (slot : ColorSlot) :
    t.printed.color slot = (t.color slot).printed :=
  Table.color_ofFn _ _ slot

theorem scalar_printed (t : TokenSet R) (slot : ScalarSlot) :
    t.printed.scalar slot = t.scalar slot :=
  Table.scalar_ofFn _ _ slot

theorem warnings_printed (p : Policy R) (t : TokenSet R) :
    t.printed.warnings p = t.warnings p := by
  rw [warnings_eq, warnings_eq]
  simp only [measures, color_printed, Color.ratio_printed, Color.lightness_printed]

theorem enforce_printed {p : Policy R} {t : TokenSet R} (h : ∀ pair ∈ EnforcedPair.all,
      p.minRatio ≤ Contrast.ratio (t.color pair.adjusted) (t.color pair.fixed)) :
    t.printed.enforce p.minRatio = t.printed := by
  refine foldl_enforcePair_of_meets fun pair hpair => ?_
  rw [color_printed, color_printed, Contrast.meets, Color.ratio_printed]
  exact decide_eq_true (h pair hpair)

theorem printed_printed {lib : Binary64.Elementary} (t : TokenSet (Double lib)) :
    t.printed.printed = t.printed := by
  refine Table.ext_slots (fun slot => ?_) fun slot => ?_
  · rw [color_printed, color_printed, Double.printed_printed]
  · rw [scalar_printed]

end TokenSet

theorem Draft.complete_filled {color : ColorSlot → Color R} {scalar : ScalarSlot → R}
    (h : ∀ slot, Number.clampOr 0.0 (scalar slot) = scalar slot) :
    (Document.filled color scalar).complete = Table.ofFn color scalar := by
  refine Table.ext_slots (fun slot => ?_) fun slot => ?_
  · simp only [complete, Document.filled, Table.color_ofFn, Option.getD_some]
  · simp only [complete, Document.filled, Table.scalar_ofFn, h]

/-! ## The schema that is read back -/

namespace Schema

/-- The document that is rendered for `s` is parsed as `s'`. -/
def ReadsAs (s : Schema R) (p : Policy R) (label : Option Text) (s' : Schema R) : Prop :=
  ∀ scheme, ∃ text, (Target.tokens.render scheme s).file? "tokens/tokens.json" = some text ∧
    Format.document.parse p label text = .ok s'

/-- What of a schema outlives its document. -/
structure Reproduces (s' s : Schema R) : Prop where
  variant : s'.variant = s.variant
  policy : s'.policy = s.policy
  warnings : s'.warnings = s.warnings
  scalar : ∀ slot, s'.scalar slot = s.scalar slot
  color : ∀ slot, Color.ofHex (s.color slot).hexText = .ok (s'.color slot)

theorem finalize_printed {p : Policy R} {t : TokenSet R} (h : ∀ pair ∈ EnforcedPair.all,
      p.minRatio ≤ Contrast.ratio (t.color pair.adjusted) (t.color pair.fixed))
    (label : Option Text) : finalize t.printed p label = {
      tokens := t.printed
      variant := Variant.ofSurface (t.color .surfacesPrimary)
      policy := p
      provenance := label
      warnings := t.warnings p } := by
  have hvariant : Variant.ofSurface (t.printed.color .surfacesPrimary) =
      Variant.ofSurface (t.color .surfacesPrimary) := by
    rw [TokenSet.color_printed, Variant.ofSurface, Color.luminance_printed, Variant.ofSurface]
  rw [finalize]
  simp only [TokenSet.enforce_printed h, hvariant, TokenSet.warnings_printed]

theorem readsAs_printed {s : Schema R} {p : Policy R}
    (hnumbers : ∀ slot, Json.ReadsBack (s.scalar slot))
    (hfinite : ∀ slot, Number.isFinite (s.scalar slot) = true)
    (hclamp : ∀ slot, Number.clampOr 0.0 (s.scalar slot) = s.scalar slot) (label : Option Text) :
    ReadsAs s p label (finalize s.tokens.printed p label) := by
  intro scheme
  refine ⟨TokenDocument.text s, rfl, ?_⟩
  have hdraft : Format.document.readDraft (TokenDocument.text s) =
      .ok (Document.filled (fun slot => (s.color slot).printed) s.scalar) :=
    TokenDocument.readDraft_text hnumbers hfinite
  refine Format.parse_eq_ok.2 ⟨_, hdraft, Document.isEmpty_filled _ _, ?_⟩
  rw [Draft.complete_filled hclamp]
  rfl

open Double in
theorem document_roundTrip {lib : Binary64.Elementary} (t : TokenSet (Double lib))
    (p : Policy (Double lib)) (label label₁ label₂ : Option Text)
    (hscalars : ∀ slot, 0.0 ≤ t.scalar slot ∧ t.scalar slot ≤ 1.0)
    (hnumbers : ∀ slot, Json.ReadsBack (t.scalar slot))
    (hpairs : ∀ pair ∈ EnforcedPair.table, p.minRatio ≤ Contrast.ratio
      ((finalize t p label).color pair.adjusted) ((finalize t p label).color pair.fixed)) :
    ∃ s₁ s₂, ReadsAs (finalize t p label) p label₁ s₁ ∧ Reproduces s₁ (finalize t p label) ∧
      ReadsAs s₁ p label₂ s₂ ∧ s₂.tokens = s₁.tokens := by
  have hsame : ∀ slot, (finalize t p label).scalar slot = t.scalar slot :=
    TokenSet.scalar_foldl_enforcePair p.minRatio EnforcedPair.all t
  have hread (s : Schema (Double lib)) (hs : ∀ slot, s.scalar slot = t.scalar slot)
      (label : Option Text) : ReadsAs s p label (finalize s.tokens.printed p label) := by
    refine readsAs_printed (fun slot => ?_) (fun slot => ?_) (fun slot => ?_) label
    · rw [hs]
      exact hnumbers slot
    · rw [hs]
      exact finite_of_mem (hscalars slot).1 (hscalars slot).2
    · rw [hs]
      exact clampOr_of_mem _ (hscalars slot).1 (hscalars slot).2
  rw [← EnforcedPair.all_eq_table] at hpairs
  have hfirst := finalize_printed hpairs label₁
  have hscalar₁ : ∀ slot, (finalize (finalize t p label).tokens.printed p label₁).scalar slot =
      t.scalar slot := by
    intro slot
    rw [hfirst]
    exact (TokenSet.scalar_printed _ slot).trans (hsame slot)
  refine ⟨_, _, hread _ hsame label₁, ?_, hread _ hscalar₁ label₂, ?_⟩
  · refine ⟨?_, ?_, ?_, fun slot => ?_, fun slot => ?_⟩
    · rw [hfirst]
      rfl
    · rw [hfirst]
      rfl
    · rw [hfirst]
      rfl
    · rw [hscalar₁, hsame]
    · rw [hfirst, Color.ofHex_hexText]
      exact congrArg Except.ok (TokenSet.color_printed _ slot).symm
  · have hagain : ∀ pair ∈ EnforcedPair.all, p.minRatio ≤ Contrast.ratio
        ((finalize t p label).tokens.printed.color pair.adjusted)
        ((finalize t p label).tokens.printed.color pair.fixed) := by
      intro pair hpair
      rw [TokenSet.color_printed, TokenSet.color_printed, Color.ratio_printed]
      exact hpairs pair hpair
    rw [hfirst, finalize_printed hagain]
    exact TokenSet.printed_printed _

/-- Black on white, white where text is inverse, and a border that half of the window shines
through. -/
def inkOnPaper : TokenSet R :=
  Table.ofFn (fun slot => if slot = .surfacesPrimary ∨ slot = .contentInverse then Color.white
    else if slot = .bordersSubtle then Color.black.withAlpha 0.5 else Color.black) Palette.scalar

theorem readsBack_of_token {x : R} {c : Char} {t : Text} (hc : Json.isBlank c = false)
    (htext : Json.numberText x = c :: t)
    (htoken : Json.token? (c :: t) = some (.number x, [])) : Json.ReadsBack x := by
  rw [Json.ReadsBack, Json.prettyText, Json.textAt, htext, Json.read?,
    Json.tokens?_token hc htoken, Json.tokens?_nil]
  rfl

theorem readsBack_scalar (slot : ScalarSlot) :
    Json.ReadsBack (Palette.scalar slot : Double .rounded) := by
  cases slot with
  | hoverOverlay =>
    exact readsBack_of_token (c := '0') (t := ".08") rfl (by decide +kernel) (by decide +kernel)
  | pressedOverlay =>
    exact readsBack_of_token (c := '0') (t := ".12") rfl (by decide +kernel) (by decide +kernel)
  | disabledOpacity =>
    exact readsBack_of_token (c := '0') (t := ".38") rfl (by decide +kernel) (by decide +kernel)

open Binary64 Double

theorem inkOnPaper_meets : ∀ pair ∈ EnforcedPair.table, Contrast.meets
    ((inkOnPaper : TokenSet (Double .rounded)).color pair.adjusted)
    (inkOnPaper.color pair.fixed) 4.5 = true := by
  have hratio := @near_textRatio .rounded
  have hcontrast : (Color.black : Color (Double .rounded)).contrast Color.white = 21 := by
    rw [Color.contrast, light_black, light_white]
    norm_num
  have hle : toReal (4.5 : Double .rounded) + 1 / 10 ^ 4 ≤ 21 := by
    have := hratio.le
    norm_num [slip] at this ⊢
    linarith
  have hblack : Contrast.meets (Color.black : Color (Double .rounded)) Color.white 4.5 = true :=
    meets_of_le Elementary.accurate_rounded hratio.finite (hcontrast ▸ hle)
  have hwhite : Contrast.meets (Color.white : Color (Double .rounded)) Color.black 4.5 = true := by
    refine meets_of_le Elementary.accurate_rounded hratio.finite ?_
    rw [contrast_comm, hcontrast]
    exact hle
  have hpairs : ∀ pair ∈ EnforcedPair.table,
      (pair.adjusted = .surfacesPrimary ∨ pair.adjusted = .contentInverse ↔
        ¬ (pair.fixed = .surfacesPrimary ∨ pair.fixed = .contentInverse)) ∧
      pair.adjusted ≠ .bordersSubtle ∧ pair.fixed ≠ .bordersSubtle := by decide
  intro pair hpair
  obtain ⟨hpaper, hadjusted, hfixed⟩ := hpairs pair hpair
  rw [inkOnPaper, Table.color_ofFn, Table.color_ofFn, if_neg hadjusted, if_neg hfixed]
  by_cases hwindow : pair.fixed = .surfacesPrimary ∨ pair.fixed = .contentInverse
  · rw [if_pos hwindow, if_neg fun h => hpaper.1 h hwindow]
    exact hblack
  · rw [if_neg hwindow, if_pos (hpaper.2 hwindow)]
    exact hwhite

theorem quantized_border : (Color.black.withAlpha 0.5 : Color (Double .rounded)).printed.alpha ≠
    (Color.black.withAlpha 0.5 : Color (Double .rounded)).alpha := by decide +kernel

/-- The border comes back with the alpha of its byte, and keeps it. -/
theorem document_roundTrip_inkOnPaper :
    (∀ slot, 0.0 ≤ (inkOnPaper : TokenSet (Double .rounded)).scalar slot ∧
      (inkOnPaper : TokenSet (Double .rounded)).scalar slot ≤ 1.0) ∧
    (∀ slot, Json.ReadsBack ((inkOnPaper : TokenSet (Double .rounded)).scalar slot)) ∧
    (∀ pair ∈ EnforcedPair.table, (Policy.standard : Policy (Double .rounded)).minRatio ≤
      Contrast.ratio ((finalize inkOnPaper .standard none).color pair.adjusted)
        ((finalize inkOnPaper .standard none).color pair.fixed)) ∧
    ∃ s₁ s₂, ReadsAs (finalize (inkOnPaper : TokenSet (Double .rounded)) .standard none)
        .standard none s₁ ∧
      Reproduces s₁ (finalize (inkOnPaper : TokenSet (Double .rounded)) .standard none) ∧
      ReadsAs s₁ .standard none s₂ ∧ s₂.tokens = s₁.tokens ∧
      (s₁.color .bordersSubtle).alpha ≠
        ((finalize (inkOnPaper : TokenSet (Double .rounded)) .standard none).color
          .bordersSubtle).alpha := by
  have hscalars : ∀ slot, 0.0 ≤ (inkOnPaper : TokenSet (Double .rounded)).scalar slot ∧
      (inkOnPaper : TokenSet (Double .rounded)).scalar slot ≤ 1.0 := by
    intro slot
    rw [inkOnPaper, Table.scalar_ofFn]
    cases slot <;> decide +kernel
  have hnumbers : ∀ slot,
      Json.ReadsBack ((inkOnPaper : TokenSet (Double .rounded)).scalar slot) := by
    intro slot
    rw [inkOnPaper, Table.scalar_ofFn]
    exact readsBack_scalar slot
  have hsame : (finalize (inkOnPaper : TokenSet (Double .rounded)) .standard none).tokens =
      inkOnPaper :=
    TokenSet.foldl_enforcePair_of_meets inkOnPaper_meets
  have hpairs : ∀ pair ∈ EnforcedPair.table, (Policy.standard : Policy (Double .rounded)).minRatio ≤
      Contrast.ratio ((finalize inkOnPaper .standard none).color pair.adjusted)
        ((finalize inkOnPaper .standard none).color pair.fixed) := by
    intro pair hpair
    rw [color, color, hsame]
    exact of_decide_eq_true (inkOnPaper_meets pair hpair)
  obtain ⟨s₁, s₂, hfirst, hreproduced, hsecond, hagain⟩ :=
    document_roundTrip inkOnPaper .standard none none none hscalars hnumbers hpairs
  have hborder : (finalize (inkOnPaper : TokenSet (Double .rounded)) .standard none).color
      .bordersSubtle = Color.black.withAlpha 0.5 := by
    rw [color, hsame, inkOnPaper, Table.color_ofFn]
    rfl
  refine ⟨hscalars, hnumbers, hpairs, s₁, s₂, hfirst, hreproduced, hsecond, hagain, ?_⟩
  have hread := hreproduced.color .bordersSubtle
  rw [Color.ofHex_hexText, hborder] at hread
  rw [← Except.ok.inj hread, hborder]
  exact quantized_border

end Schema

end ThemeTokens
