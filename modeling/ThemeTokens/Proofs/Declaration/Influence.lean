import ThemeTokens.Proofs.Binary64.Elementary
import ThemeTokens.Proofs.Declaration.Outcome
import ThemeTokens.Proofs.Keyed

/-!
# What a draft depends on

Two tables of entries that agree on the keys that reading consults give the same draft, or fail with
the same error. Names that no slot tries, among them those after the name that settles a slot, are
consulted only when references from a tried name reach them.
-/
namespace ThemeTokens.Declaration
open Keyed

/-! ## What a slot depends on -/

section Influence
variable {table others : Keyed (RawValue Text)}

section Names
variable {suits : Text → Prop} {names : List Text} {name : Text}

theorem PassedOver.congr (agree : ∀ k, Reaches table name k → others.get? k = table.get? k)
    (h : PassedOver table suits name) : PassedOver others suits name := by
  rcases h with h | ⟨t, hleads, ht⟩
  · exact .inl ((agree name .refl).trans h)
  · exact .inr ⟨t, hleads.congr agree, ht⟩

theorem tried_of_mem (h : ∀ n ∈ names, PassedOver table suits n) (hname : name ∈ names)
    (rest : List Text) : Tried table suits (names ++ rest) name := by
  obtain ⟨before, after, rfl⟩ := List.append_of_mem hname
  exact ⟨before, after ++ rest, by simp, fun n hn => h n (List.mem_append_left _ hn)⟩

variable (agree : ∀ n k, Tried table suits names n → Reaches table n k →
  others.get? k = table.get? k)
include agree

theorem Tried.congr (h : Tried table suits names name) : Tried others suits names name := by
  obtain ⟨before, after, rfl, hbefore⟩ := h
  refine ⟨before, after, rfl, fun n hn => ?_⟩
  exact (hbefore n hn).congr fun k => agree n k (tried_of_mem hbefore hn (name :: after))

theorem forall_passedOver_congr (h : ∀ n ∈ names, PassedOver table suits n) :
    ∀ n ∈ names, PassedOver others suits n := by
  intro n hn
  have htried : Tried table suits names n := by
    have hmem := tried_of_mem h hn []
    rwa [List.append_nil] at hmem
  exact (h n hn).congr fun k => agree n k htried

theorem Settles.congr {t : Text} (h : Settles table suits names name t) :
    Settles others suits names name t where
  tried := h.tried.congr agree
  leadsTo := h.leadsTo.congr fun k => agree name k h.tried
  suits := h.suits

theorem Breaks.congr {e : ReferenceError} (h : Breaks table suits names name e) :
    Breaks others suits names name e where
  tried := h.tried.congr agree
  declared := by
    rw [agree name name h.tried .refl]
    exact h.declared
  outcome := h.outcome.congr fun k => agree name k h.tried

end Names

variable {R : Type} [Number R] {slot : Slot}

section
variable (agree : ∀ n k, TriedFor R table slot n → Reaches table n k →
  others.get? k = table.get? k)
include agree

theorem Fails.congr {e : SourceError} (h : Fails R table slot e) : Fails R others slot e := by
  cases h with
  | reference h => exact .reference (h.congr agree)
  | malformed hs h hm => exact .malformed hs (h.congr agree) hm

end

theorem ColorIs.congr {s : ColorSlot} {o : Option (Color R)}
    (agree : ∀ n k, TriedFor R table (.color s) n → Reaches table n k →
      others.get? k = table.get? k)
    (h : ColorIs table s o) : ColorIs others s o := by
  cases h with
  | unset h => exact .unset (forall_passedOver_congr agree h)
  | settled h hc => exact .settled (h.congr agree) hc

theorem ScalarIs.congr {s : ScalarSlot} {o : Option R}
    (agree : ∀ n k, TriedFor R table (.scalar s) n → Reaches table n k →
      others.get? k = table.get? k)
    (h : ScalarIs table s o) : ScalarIs others s o := by
  cases h with
  | unset h => exact .unset (forall_passedOver_congr agree h)
  | settled h hx => exact .settled (h.congr agree) hx

theorem Succeeds.congr (agree : ∀ n k, TriedFor R table slot n → Reaches table n k →
    others.get? k = table.get? k) (h : Succeeds R table slot) : Succeeds R others slot := by
  cases slot with
  | color s =>
    obtain ⟨o, ho⟩ := h
    exact ⟨o, ho.congr agree⟩
  | scalar s =>
    obtain ⟨o, ho⟩ := h
    exact ⟨o, ho.congr agree⟩

/-! ## What the draft depends on -/

section
variable (agree : ∀ k, Consulted R table k → others.get? k = table.get? k)
include agree

theorem HasTurn.congr (h : HasTurn R table slot) : HasTurn R others slot := by
  obtain ⟨before, after, hall, hbefore⟩ := h
  refine ⟨before, after, hall, fun other hother e => ?_⟩
  have hturn : HasTurn R table other := by
    obtain ⟨p, q, rfl⟩ := List.append_of_mem hother
    refine ⟨p, q ++ slot :: after, by simp [hall], fun s hs => ?_⟩
    exact hbefore s (List.mem_append_left _ hs)
  have hsucceeds : Succeeds R table other :=
    (succeeds_or_fails R table other).resolve_right fun ⟨e', he'⟩ => hbefore other hother e' he'
  exact (hsucceeds.congr fun n k htried hr => agree k ⟨other, n, hturn, htried, hr⟩).not_fails e

theorem FirstFailure.congr {e : SourceError} (h : FirstFailure R table e) :
    FirstFailure R others e := by
  obtain ⟨slot, hturn, hfails⟩ := h
  exact ⟨slot, hturn.congr agree,
    hfails.congr fun n k htried hr => agree k ⟨slot, n, hturn, htried, hr⟩⟩

theorem Fills.congr {d : Draft R} (h : Fills table d) : Fills others d where
  color s := (h.color s).congr fun n k htried hr => agree k ⟨_, n, h.hasTurn _, htried, hr⟩
  scalar s := (h.scalar s).congr fun n k htried hr => agree k ⟨_, n, h.hasTurn _, htried, hr⟩

end

theorem readDraft_congr {source other : Text} (hsource : scan source ≠ [])
    (hother : scan other ≠ [])
    (agree : ∀ k, Consulted R (entries (scan source)) k →
      (entries (scan other)).get? k = (entries (scan source)).get? k) :
    (readDraft other : Except SourceError (Draft R)) = readDraft source := by
  rcases fills_or_fails R (entries (scan source)) with ⟨d, hfills⟩ | ⟨e, hfails⟩
  · rw [(readDraft_eq_ok_iff hsource).2 hfills,
      (readDraft_eq_ok_iff hother).2 (hfills.congr agree)]
  · rw [(readDraft_eq_error_iff hsource).2 hfails,
      (readDraft_eq_error_iff hother).2 (hfails.congr agree)]

/-- Entries of the same names with the same values are the same, since a fallback looks only at
which names are declared. -/
theorem get?_entries_congr {declared declared' : Keyed Text}
    (hnames : ∀ k, declared'.contains k = declared.contains k) {key : Text}
    (h : declared'.get? key = declared.get? key) :
    (entries declared').get? key = (entries declared).get? key := by
  rw [entries, entries, get?_mapValues, get?_mapValues, h, funext hnames]

theorem ne_nil_of_contains {declared declared' : Keyed Text}
    (hnames : ∀ k, declared'.contains k = declared.contains k) (h : declared ≠ []) :
    declared' ≠ [] := by
  rintro rfl
  obtain ⟨⟨key, value⟩, rest, rfl⟩ := List.exists_cons_of_ne_nil h
  have hkey := hnames key
  rw [contains, contains, get?, get?, if_pos rfl] at hkey
  cases hkey

end Influence

/-! ## What a draft has -/

section
variable {R : Type} [Number R] {source : Text}

/-- What reading a source with declarations gives. A slot is settled by the first of its names that
leads to a text of use, and the error is that of the first slot that fails. Names that are not
consulted change neither. -/
theorem readDraft_candidates (h : scan source ≠ []) :
    let table := entries (scan source)
    let result : Except SourceError (Draft R) := readDraft source
    (∀ d, result = .ok d →
        (∀ s c, d.color s = some c ↔ ∃ name t,
          Tried table (Color.looksLikeLiteral ·) (aliases s ++ [canonicalName s.path]) name ∧
            LeadsTo table name t ∧ Color.looksLikeLiteral t ∧ Color.ofLiteral t = .ok c) ∧
        (∀ s, d.color s = none ↔ ∀ name ∈ aliases s ++ [canonicalName s.path],
          PassedOver table (Color.looksLikeLiteral ·) name) ∧
        (∀ s x, d.scalar s = some x ↔ ∃ name t,
          Tried table (fun t => ∃ y : R, Number.readFraction? t = some y) (scalarNames s) name ∧
            LeadsTo table name t ∧ Number.readFraction? t = some x) ∧
        ∀ s, d.scalar s = none ↔ ∀ name ∈ scalarNames s,
          PassedOver table (fun t => ∃ x : R, Number.readFraction? t = some x) name) ∧
      ((∃ d, result = .ok d) ↔ ∀ slot e, ¬ Fails R table slot e) ∧
      (∀ e, result = .error e ↔ ∃ before slot after, Slot.all = before ++ slot :: after ∧
        (∀ other ∈ before, ∀ e', ¬ Fails R table other e') ∧ Fails R table slot e) ∧
      (∀ slot name t before after, SettledBy R table slot name t →
        slotNames slot = before ++ name :: after →
        ∀ other, TriedFor R table slot other → other ∈ before ∨ other = name) ∧
      (∀ other, scan other ≠ [] →
        (∀ k, Consulted R table k → (entries (scan other)).get? k = table.get? k) →
        readDraft other = result) ∧
      ∀ other, (∀ k, (scan other).contains k = (scan source).contains k) →
        (∀ k, Consulted R table k → (scan other).get? k = (scan source).get? k) →
        readDraft other = result := by
  intro table result
  refine ⟨fun d hd => ?_, ?_, fun e => ?_,
    fun slot name t before after hsettled hnames other ht => ?_,
    fun other hother agree => readDraft_congr h hother agree, fun other hnames agree => ?_⟩
  · have hfills := (readDraft_eq_ok_iff h).1 hd
    refine ⟨fun s c => ?_, fun s => (hfills.color s).eq_none_iff, fun s x => ?_,
      fun s => (hfills.scalar s).eq_none_iff⟩
    · rw [(hfills.color s).eq_some_iff]
      constructor
      · rintro ⟨name, t, hsettled, hc⟩
        exact ⟨name, t, hsettled.tried, hsettled.leadsTo, hsettled.suits, hc⟩
      · rintro ⟨name, t, htried, hleads, hsuits, hc⟩
        exact ⟨name, t, ⟨htried, hleads, hsuits⟩, hc⟩
    · rw [(hfills.scalar s).eq_some_iff]
      constructor
      · rintro ⟨name, t, hsettled, hx⟩
        exact ⟨name, t, hsettled.tried, hsettled.leadsTo, hx⟩
      · rintro ⟨name, t, htried, hleads, hx⟩
        exact ⟨name, t, ⟨htried, hleads, x, hx⟩, hx⟩
  · constructor
    · rintro ⟨d, hd⟩ slot
      exact (((readDraft_eq_ok_iff h).1 hd).succeeds slot).not_fails
    · intro hnone
      rcases fills_or_fails R table with ⟨d, hfills⟩ | ⟨e, slot, _, hfails⟩
      · exact ⟨d, (readDraft_eq_ok_iff h).2 hfills⟩
      · exact absurd hfails (hnone slot e)
  · refine (readDraft_eq_error_iff h).trans ?_
    constructor
    · rintro ⟨slot, ⟨before, after, hall, hbefore⟩, hfails⟩
      exact ⟨before, slot, after, hall, hbefore, hfails⟩
    · rintro ⟨before, slot, after, hall, hbefore, hfails⟩
      exact ⟨slot, ⟨before, after, hall, hbefore⟩, hfails⟩
  · rw [SettledBy, hnames] at hsettled
    rw [TriedFor, hnames] at ht
    exact hsettled.mem_of_tried ht
  · exact readDraft_congr h (ne_nil_of_contains hnames h) fun k hk =>
      get?_entries_congr hnames (agree k hk)

end

/-! ## A slot with several names -/

section
open Double

/-- The first name of the link colour leads to no literal and the second settles it; the third is
malformed, and a name that no slot goes by refers to nothing. -/
def layered : Text := "link_color: mix(a); theme_link_color: #123; content_link: #zz; a: @b;"

/-- The same names with other values where nothing looks. -/
def relayered : Text := "link_color: mix(a); theme_link_color: #123; content_link: @a; a: #zz;"

def linkNames : Keyed Text := [("link_color", "mix(a)"), ("theme_link_color", "#123")]

/-- What the two sources declare. -/
def layeredNames (a content : Text) : Keyed Text :=
  ("a".toList, a) :: ("content_link".toList, content) :: linkNames

theorem scan_layered : scan layered = layeredNames "@b" "#zz" := by decide +kernel

theorem scan_relayered : scan relayered = layeredNames "#zz" "@a" := by decide +kernel

theorem get?_layeredNames {k : Text} (ha : k ≠ "a".toList)
    (hcontent : k ≠ "content_link".toList) (a content : Text) :
    (layeredNames a content).get? k = linkNames.get? k :=
  (get?_cons_of_ne ha).trans (get?_cons_of_ne hcontent)

def layeredTable : Keyed (RawValue Text) := [
  ("a", .reference "b"), ("content_link", .leaf "#zz"), ("link_color", .leaf "mix(a)"),
  ("theme_link_color", .leaf "#123")]

theorem entries_layered : entries (layeredNames "@b" "#zz") = layeredTable := by decide +kernel

theorem slotNames_contentLink :
    slotNames (.color .contentLink) = ["link_color", "theme_link_color", "content_link"] := by
  decide

theorem settledBy_layered : SettledBy (Double .rounded) layeredTable (.color .contentLink)
    "theme_link_color" "#123" where
  tried := by
    refine ⟨["link_color"], ["content_link"], slotNames_contentLink, fun n hn => ?_⟩
    rw [List.mem_singleton.1 hn]
    refine .inr ⟨"mix(a)", ⟨"link_color", .refl, by decide⟩, ?_⟩
    change ¬ Color.looksLikeLiteral "mix(a)" = true
    decide
  leadsTo := ⟨"theme_link_color", .refl, by decide⟩
  suits := by
    change Color.looksLikeLiteral "#123" = true
    decide

theorem slot_of_layered_name : ∀ slot ∈ Slot.all, "a".toList ∉ slotNames slot ∧
    ("content_link".toList ∈ slotNames slot → slot = .color .contentLink) := by
  decide

theorem not_consulted_layered {k : Text} (h : Consulted (Double .rounded) layeredTable k) :
    k ≠ "a".toList ∧ k ≠ "content_link".toList := by
  obtain ⟨slot, name, _, htried, hr⟩ := h
  have hmem : name ∈ slotNames slot := by
    obtain ⟨before, after, hnames, _⟩ := htried
    rw [hnames]
    exact List.mem_append_right _ List.mem_cons_self
  obtain ⟨hslot, hlink⟩ := slot_of_layered_name slot (Slot.mem_all slot)
  have ha : name ≠ "a".toList := fun he => hslot (he ▸ hmem)
  have hcontent : name ≠ "content_link".toList := by
    rintro rfl
    obtain rfl := hlink hmem
    rw [TriedFor, slotNames_contentLink] at htried
    have hsettled := settledBy_layered
    rw [SettledBy, slotNames_contentLink] at hsettled
    have hbefore : "content_link".toList ∈ ["link_color".toList] ∨
        "content_link".toList = "theme_link_color" := hsettled.mem_of_tried htried
    revert hbefore
    decide
  have hleaf (target : Text) : ¬ Refers layeredTable name target := by
    intro href
    have hentry := mem_of_get? href
    simp only [layeredTable, List.mem_cons, Prod.mk.injEq, reduceCtorEq, and_false, or_false,
      List.not_mem_nil] at hentry
    exact ha hentry.1
  rw [hr.eq_of_not_refers hleaf]
  exact ⟨ha, hcontent⟩

theorem readDraft_candidates_layered :
    scan layered ≠ [] ∧
      (readDraft relayered : Except SourceError (Draft (Double .rounded))) = readDraft layered ∧
      ∃ d : Draft (Double .rounded), readDraft layered = .ok d ∧
        d.color .contentLink = some (Color.solid 0x11 0x22 0x33) := by
  have hne : scan layered ≠ [] := by
    rw [scan_layered]
    exact List.cons_ne_nil _ _
  obtain ⟨hdraft, _, _, _, _, hrelayered⟩ := readDraft_candidates (R := Double .rounded) hne
  rw [scan_layered, entries_layered] at hdraft hrelayered
  refine ⟨hne, hrelayered relayered (fun k => ?_) fun k hk => ?_, ?_⟩
  · rw [scan_relayered]
    have hkeys : keys (layeredNames "#zz" "@a") = keys (layeredNames "@b" "#zz") := rfl
    exact contains_congr hkeys k
  · obtain ⟨ha, hcontent⟩ := not_consulted_layered hk
    rw [scan_relayered, get?_layeredNames ha hcontent, get?_layeredNames ha hcontent]
  · have hok : (readDraft layered : Except SourceError (Draft (Double .rounded))).isOk = true := by
      rw [readDraft_of_scan hne, scan_layered, entries_layered]
      decide +kernel
    cases hread : (readDraft layered : Except SourceError (Draft (Double .rounded))) with
    | error e =>
      rw [hread] at hok
      cases hok
    | ok d =>
      obtain ⟨hcolor, _⟩ := hdraft d hread
      exact ⟨d, rfl, (hcolor _ _).2 ⟨_, _, settledBy_layered.tried, settledBy_layered.leadsTo,
        settledBy_layered.suits, rfl⟩⟩

end

end ThemeTokens.Declaration
