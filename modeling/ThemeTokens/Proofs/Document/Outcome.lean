import Mathlib.Data.Finset.Max
import ThemeTokens.Proofs.Color.Hex
import ThemeTokens.Proofs.Document.Reading
import ThemeTokens.Proofs.Document.Winner

/-!
# What comes of a document

A source without leaves is empty. A leaf whose references lead nowhere makes the document fail,
whether its path stands for a slot or not, and the first such leaf is reported. Then the leaves that
decide the colour slots are read, and the first that is no colour is reported. What remains is a
draft with the values of the deciding leaves; no other leaf has a part in it.
-/
namespace ThemeTokens.Document
open Keyed (LeadsTo Outcome)
open Resolver (outcome_total)
variable {R : Type}

/-! ## Tokens of the leaves -/

/-- The token that is read for the leaf at a path. -/
structure Reads (entries : Keyed (Entry R)) (path : Text) (token : Token R) : Prop where
  leaf : LeadsTo (absoluteValues entries) path token.leaf
  kind : (entries.get? path).map Entry.kind = some token.kind

def Resolves (entries : Keyed (Entry R)) : Prop :=
  ∀ path ∈ entries.keys, ∃ leaf, LeadsTo (absoluteValues entries) path leaf

/-- The paths whose references lead nowhere. -/
def unresolved (entries : Keyed (Entry R)) : Set Text :=
  {path | path ∈ entries.keys ∧ ∃ e, Outcome (absoluteValues entries) path (.error e)}

/-- The first path in order whose references lead nowhere fails with this error. -/
def FailsWith (entries : Keyed (Entry R)) (e : ReferenceError) : Prop :=
  ∃ path, IsLeast (unresolved entries) path ∧ Outcome (absoluteValues entries) path (.error e)

theorem Reads.unique {entries : Keyed (Entry R)} {path : Text} {a b : Token R}
    (ha : Reads entries path a) (hb : Reads entries path b) : a = b := by
  obtain ⟨leaf, kind⟩ := a
  obtain ⟨leaf', kind'⟩ := b
  have hkind := ha.kind.symm.trans hb.kind
  cases hkind
  have hleaf : leaf = leaf' := ha.leaf.unique hb.leaf
  rw [hleaf]

/-- As long as every leaf leads to a value, each gives its token. -/
theorem run_readTokens_ok {r : Resolver (Leaf R)} (hs : r.Sound) (entries : Keyed (Entry R))
    (h : ∀ path ∈ entries.keys, ∃ leaf, LeadsTo r.entries path leaf) :
    ∃ tokens r', (readTokens entries).run r = .ok (tokens, r') ∧ tokens.keys = entries.keys ∧
      ∀ path token, tokens.get? path = some token ↔ LeadsTo r.entries path token.leaf ∧
        (entries.get? path).map Entry.kind = some token.kind := by
  induction entries generalizing r with
  | nil =>
    refine ⟨[], r, rfl, rfl, fun path token => ?_⟩
    simp [Keyed.get?]
  | cons first entries ih =>
    obtain ⟨key, entry⟩ := first
    obtain ⟨leaf, hleaf⟩ := h key List.mem_cons_self
    obtain ⟨r₁, hrun, hs₁, hentries⟩ := Reading.leaf_of_leadsTo hs hleaf
    rw [← hentries] at h hleaf ⊢
    obtain ⟨tokens, r₂, htokens, hkeys, hget⟩ :=
      ih hs₁ fun path hpath => h path (List.mem_cons_of_mem _ hpath)
    refine ⟨_, r₂, readTokens_cons hrun htokens, congrArg (key :: ·) hkeys, fun path token => ?_⟩
    rw [Keyed.get?, Keyed.get?]
    split
    · next he =>
      dsimp only at he
      subst he
      constructor
      · intro htoken
        cases htoken
        exact ⟨hleaf, rfl⟩
      · rintro ⟨htoken, hkind⟩
        obtain ⟨leaf', kind⟩ := token
        cases hkind
        rw [hleaf.unique htoken]
    · exact hget path token

theorem run_readTokens_error {r : Resolver (Leaf R)} (hs : r.Sound) {entries : Keyed (Entry R)}
    (hsorted : Keyed.Sorted entries) {path : Text} (hpath : path ∈ entries.keys)
    (hbefore : ∀ p ∈ entries.keys, p < path → ∃ leaf, LeadsTo r.entries p leaf)
    {e : ReferenceError} (he : Outcome r.entries path (.error e)) :
    (readTokens entries).run r = .error (.reference e) := by
  induction entries generalizing r with
  | nil => cases hpath
  | cons first entries ih =>
    obtain ⟨key, entry⟩ := first
    obtain ⟨hfirst, hsorted⟩ := List.pairwise_cons.1 hsorted
    rw [run_readTokens_cons, StateT.run]
    rcases List.mem_cons.1 hpath with rfl | hpath
    · rw [Reading.leaf_of_error hs he]
      rfl
    · obtain ⟨other, hother, rfl⟩ := List.mem_map.1 hpath
      obtain ⟨leaf, hleaf⟩ := hbefore key List.mem_cons_self (hfirst other hother)
      obtain ⟨r₁, hrun, hs₁, hentries⟩ := Reading.leaf_of_leadsTo hs hleaf
      rw [← hentries] at hbefore he
      have hrest := ih hs₁ hsorted hpath (fun p hp => hbefore p (List.mem_cons_of_mem _ hp)) he
      rw [hrun, ok_bind]
      dsimp only
      rw [hrest]
      rfl

/-- The token that decides a slot. -/
def Wins (entries : Keyed (Entry R)) (slot : Slot) (token : Token R) : Prop :=
  ∃ path, Decides entries.keys slot path ∧ Reads entries path token

theorem Wins.unique {entries : Keyed (Entry R)} {slot : Slot} {a b : Token R}
    (ha : Wins entries slot a) (hb : Wins entries slot b) : a = b := by
  obtain ⟨path, hpath, ha⟩ := ha
  obtain ⟨other, hother, hb⟩ := hb
  rw [hpath.unique hother] at ha
  exact ha.unique hb

theorem Wins.ne_nil {entries : Keyed (Entry R)} {slot : Slot} {token : Token R}
    (h : Wins entries slot token) : entries ≠ [] := by
  obtain ⟨path, hdecides, _⟩ := h
  rintro rfl
  exact absurd hdecides.mem List.not_mem_nil

/-- Whatever is read of a document that resolves is read of the deciding tokens. -/
theorem exists_tokens {entries : Keyed (Entry R)} (hs : Keyed.Sorted entries)
    (hr : Resolves entries) : ∃ tokens,
      Reading.runOn (absoluteValues entries) (readTokens entries) = .ok tokens ∧
        tokens.keys = entries.keys ∧
        ∀ slot token, winner? (candidates tokens) slot = some token ↔ Wins entries slot token := by
  obtain ⟨tokens, r, hrun, hkeys, hget⟩ :=
    run_readTokens_ok (Resolver.sound_ofEntries (absoluteValues entries)) entries hr
  refine ⟨tokens, by rw [Reading.runOn, hrun]; rfl, hkeys, fun slot token => ?_⟩
  have htokens : Keyed.Sorted tokens := by
    rw [Keyed.sorted_iff] at hs ⊢
    rwa [hkeys]
  rw [winner?_eq_some htokens, hkeys]
  refine exists_congr fun path => and_congr_right fun _ => (hget path token).trans ?_
  exact ⟨fun h => ⟨h.1, h.2⟩, fun h => ⟨h.leaf, h.kind⟩⟩

/-! ## What a token says -/

/-- A token without a kind is of every kind. -/
def Token.OfKind (kinds : List Text) (token : Token R) : Prop :=
  token.kind = none ∨ ∃ kind ∈ kinds, token.kind = some kind

theorem Token.hasKind_iff {kinds : List Text} {token : Token R} :
    token.hasKind kinds = true ↔ token.OfKind kinds := by
  obtain ⟨leaf, kind⟩ := token
  cases kind with
  | none => exact iff_of_true rfl (.inl rfl)
  | some kind =>
    simp [hasKind, OfKind]

variable [Number R]

def Token.IsColor (token : Token R) (c : Color R) : Prop :=
  token.OfKind colorKinds ∧ ∃ t, token.leaf = .text t ∧ Color.ofLiteral t = .ok c

/-- A token that should be a colour and is none, with the literal that is reported for it. -/
def Token.Malformed (token : Token R) (literal : Text) : Prop :=
  token.OfKind colorKinds ∧
    ((∃ x, token.leaf = .number x ∧ literal = Number.text x) ∨
      token.leaf = .text literal ∧
        ∃ e, (Color.ofLiteral literal : Except MalformedColor (Color R)) = .error e)

def Token.IsScalar (token : Token R) (x : R) : Prop :=
  token.OfKind scalarKinds ∧
    ((token.leaf = .number x ∧ Number.isFinite x = true) ∨
      ∃ t, token.leaf = .text t ∧ Number.readFraction? t = some x)

theorem mapError_eq_ok {ε δ α : Type} {f : ε → δ} {x : Except ε α} {a : α} :
    x.mapError f = .ok a ↔ x = .ok a := by
  cases x <;> simp [Except.mapError]

theorem mapError_eq_error {ε δ α : Type} {f : ε → δ} {x : Except ε α} {d : δ} :
    x.mapError f = .error d ↔ ∃ e, x = .error e ∧ f e = d := by
  cases x <;> simp [Except.mapError]

theorem Leaf.color_eq_ok {leaf : Leaf R} {c : Color R} :
    leaf.color = .ok c ↔ ∃ t, leaf = .text t ∧ Color.ofLiteral t = .ok c := by
  cases leaf with
  | number x => simp [Leaf.color]
  | text t => simp [Leaf.color, mapError_eq_ok]

theorem Leaf.color_eq_error {leaf : Leaf R} {e : SourceError} :
    leaf.color = .error e ↔ ∃ literal, ((∃ x, leaf = .number x ∧ literal = Number.text x) ∨
      leaf = .text literal ∧
        ∃ e, (Color.ofLiteral literal : Except MalformedColor (Color R)) = .error e) ∧
      e = .malformedColor literal := by
  cases leaf with
  | number x => simp [Leaf.color, eq_comm]
  | text t =>
    simp only [Leaf.color, mapError_eq_error, reduceCtorEq, false_and, exists_false, false_or,
      text.injEq]
    constructor
    · rintro ⟨malformed, h, rfl⟩
      exact ⟨t, ⟨rfl, malformed, h⟩, by rw [Color.ofLiteral_error h]; rfl⟩
    · rintro ⟨literal, ⟨rfl, malformed, h⟩, rfl⟩
      exact ⟨malformed, h, by rw [Color.ofLiteral_error h]; rfl⟩

theorem Leaf.scalar?_eq_some {leaf : Leaf R} {x : R} : leaf.scalar? = some x ↔
    (leaf = .number x ∧ Number.isFinite x = true) ∨
      ∃ t, leaf = .text t ∧ Number.readFraction? t = some x := by
  cases leaf with
  | number y =>
    simp only [Leaf.scalar?, Option.ite_none_right_eq_some, Option.some.injEq, number.injEq,
      reduceCtorEq, false_and, exists_false, or_false]
    exact ⟨fun ⟨h, he⟩ => ⟨he, he ▸ h⟩, fun ⟨he, h⟩ => ⟨he ▸ h, he⟩⟩
  | text t => simp [Leaf.scalar?]

namespace Token
variable {token : Token R}

theorem color?_of_not_ofKind (h : ¬ token.OfKind colorKinds) : token.color? = .ok none := by
  rw [color?, if_neg fun hk => h (hasKind_iff.1 hk)]

theorem color?_of_ofKind (h : token.OfKind colorKinds) :
    token.color? = token.leaf.color.map some := by
  rw [color?, if_pos (hasKind_iff.2 h)]

theorem scalar?_of_not_ofKind (h : ¬ token.OfKind scalarKinds) : token.scalar? = none := by
  rw [scalar?, if_neg fun hk => h (hasKind_iff.1 hk)]

theorem color?_eq_some {c : Color R} : token.color? = .ok (some c) ↔ token.IsColor c := by
  by_cases hkind : token.OfKind colorKinds
  · rw [color?_of_ofKind hkind, IsColor, and_iff_right hkind, ← Leaf.color_eq_ok]
    cases token.leaf.color <;> simp [Except.map]
  · rw [color?_of_not_ofKind hkind]
    exact iff_of_false (fun h => by cases h) fun h => hkind h.1

theorem color?_eq_error {e : SourceError} :
    token.color? = .error e ↔ ∃ literal, token.Malformed literal ∧ e = .malformedColor literal := by
  by_cases hkind : token.OfKind colorKinds
  · simp only [color?_of_ofKind hkind, Malformed, and_iff_right hkind, ← Leaf.color_eq_error]
    cases token.leaf.color <;> simp [Except.map]
  · rw [color?_of_not_ofKind hkind]
    exact iff_of_false (fun h => by cases h) fun ⟨_, h, _⟩ => hkind h.1

theorem scalar?_eq_some {x : R} : token.scalar? = some x ↔ token.IsScalar x := by
  by_cases hkind : token.OfKind scalarKinds
  · rw [scalar?, if_pos (hasKind_iff.2 hkind), IsScalar, and_iff_right hkind, Leaf.scalar?_eq_some]
  · rw [scalar?_of_not_ofKind hkind]
    exact iff_of_false (fun h => by cases h) fun h => hkind h.1

end Token

/-! ## The draft of a document -/

/-- The first colour slot in canonical order whose token is malformed has this literal. -/
def FirstMalformed (entries : Keyed (Entry R)) (literal : Text) : Prop :=
  ∃ s token, Wins entries (.color s) token ∧ token.Malformed literal ∧
    ∀ t other l, t.index < s.index → Wins entries (.color t) other → ¬ other.Malformed l

/-- The draft that has what the deciding tokens say, if none of them is malformed. -/
structure Fills (entries : Keyed (Entry R)) (d : Draft R) : Prop where
  wellFormed : ∀ s token literal, Wins entries (.color s) token → ¬ token.Malformed literal
  color : ∀ s c, d.color s = some c ↔ ∃ token, Wins entries (.color s) token ∧ token.IsColor c
  scalar : ∀ s x, d.scalar s = some x ↔ ∃ token, Wins entries (.scalar s) token ∧ token.IsScalar x

section Slots
variable {entries : Keyed (Entry R)} {found : List (Candidate R)}
  (hw : ∀ slot token, winner? found slot = some token ↔ Wins entries slot token)
include hw

theorem slotColor_eq_error {s : ColorSlot} {e : SourceError} : slotColor found s = .error e ↔
    ∃ token literal, Wins entries (.color s) token ∧ token.Malformed literal ∧
      e = .malformedColor literal := by
  rw [slotColor]
  cases hwinner : winner? found (.color s) with
  | none =>
    refine iff_of_false (fun h => by cases h) ?_
    rintro ⟨token, _, hwins, _⟩
    rw [(hw _ _).2 hwins] at hwinner
    cases hwinner
  | some token =>
    refine Token.color?_eq_error.trans ⟨?_, ?_⟩
    · rintro ⟨literal, h⟩
      exact ⟨token, literal, (hw _ _).1 hwinner, h⟩
    · rintro ⟨other, literal, hwins, h⟩
      exact ⟨literal, hwins.unique ((hw _ _).1 hwinner) ▸ h⟩

theorem slotColor_eq_some {s : ColorSlot} {c : Color R} : slotColor found s = .ok (some c) ↔
    ∃ token, Wins entries (.color s) token ∧ token.IsColor c := by
  rw [slotColor]
  cases hwinner : winner? found (.color s) with
  | none =>
    refine iff_of_false (fun h => by cases h) ?_
    rintro ⟨token, hwins, _⟩
    rw [(hw _ _).2 hwins] at hwinner
    cases hwinner
  | some token =>
    refine Token.color?_eq_some.trans ⟨fun h => ⟨token, (hw _ _).1 hwinner, h⟩, ?_⟩
    rintro ⟨other, hwins, h⟩
    rwa [hwins.unique ((hw _ _).1 hwinner)] at h

theorem slotScalar?_eq_some {s : ScalarSlot} {x : R} : slotScalar? found s = some x ↔
    ∃ token, Wins entries (.scalar s) token ∧ token.IsScalar x := by
  rw [slotScalar?, Option.bind_eq_some_iff]
  exact exists_congr fun token => and_congr (hw _ _) Token.scalar?_eq_some

theorem readSlots_eq_ok_iff {d : Draft R} : readSlots found = .ok d ↔ Fills entries d := by
  rw [readSlots_eq_ok]
  constructor
  · rintro ⟨hcolor, hscalar⟩
    refine ⟨fun s token literal hwins hm => ?_, fun s c => ?_, fun s x => ?_⟩
    · have he := (slotColor_eq_error hw).2 ⟨token, literal, hwins, hm, rfl⟩
      rw [hcolor] at he
      cases he
    · rw [← slotColor_eq_some hw, hcolor, Except.ok.injEq]
    · rw [← slotScalar?_eq_some hw, hscalar]
  · intro h
    refine ⟨fun s => ?_, fun s => Option.ext fun x => ?_⟩
    · cases hslot : slotColor found s with
      | error e =>
        obtain ⟨token, literal, hwins, hm, _⟩ := (slotColor_eq_error hw).1 hslot
        exact absurd hm (h.wellFormed s token literal hwins)
      | ok color =>
        refine congrArg Except.ok (Option.ext fun c => ?_)
        rw [h.color, ← slotColor_eq_some hw, hslot, Except.ok.injEq]
    · exact (slotScalar?_eq_some hw).trans (h.scalar s x).symm

theorem readSlots_eq_error_iff {e : SourceError} : readSlots found = .error e ↔
    ∃ literal, FirstMalformed entries literal ∧ e = .malformedColor literal := by
  have hok (t : ColorSlot) : (∃ color, slotColor found t = .ok color) ↔
      ∀ other l, Wins entries (.color t) other → ¬ other.Malformed l := by
    constructor
    · rintro ⟨color, hcolor⟩ other l hwins hm
      have he := (slotColor_eq_error hw).2 ⟨other, l, hwins, hm, rfl⟩
      rw [hcolor] at he
      cases he
    · intro h
      cases hslot : slotColor found t with
      | ok color => exact ⟨color, rfl⟩
      | error e =>
        obtain ⟨other, l, hwins, hm, _⟩ := (slotColor_eq_error hw).1 hslot
        exact absurd hm (h other l hwins)
  rw [readSlots_eq_error]
  constructor
  · rintro ⟨s, he, hbefore⟩
    obtain ⟨token, literal, hwins, hm, rfl⟩ := (slotColor_eq_error hw).1 he
    exact ⟨literal, ⟨s, token, hwins, hm, fun t other l ht => (hok t).1 (hbefore t ht) other l⟩,
      rfl⟩
  · rintro ⟨literal, ⟨s, token, hwins, hm, hbefore⟩, rfl⟩
    exact ⟨s, (slotColor_eq_error hw).2 ⟨token, literal, hwins, hm, rfl⟩,
      fun t ht => (hok t).2 fun other l => hbefore t other l ht⟩

end Slots

/-- The leaves of a source text; a text that is no document has none. -/
def leaves (source : Text) : Keyed (Entry R) := flatten ((root? source).getD [])

theorem sorted_leaves (source : Text) : Keyed.Sorted (leaves source : Keyed (Entry R)) :=
  Keyed.sorted_ofList _

variable {source : Text}

theorem readDraft_of_leaves_eq_nil (h : (leaves source : Keyed (Entry R)) = []) :
    (readDraft source : Except SourceError (Draft R)) = .error .emptySource := by
  rw [leaves] at h
  rw [readDraft, h]
  rfl

theorem readDraft_of_leaves (h : (leaves source : Keyed (Entry R)) ≠ []) :
    (readDraft source : Except SourceError (Draft R)) =
      Reading.runOn (absoluteValues (leaves source)) (readTokens (leaves source)) >>=
        fun tokens => readSlots (candidates tokens) := by
  have hnonempty : (leaves source : Keyed (Entry R)).isEmpty = false := by
    rwa [List.isEmpty_eq_false_iff]
  rw [leaves] at hnonempty ⊢
  rw [readDraft]
  simp only [hnonempty]
  rfl

theorem readDraft_of_fails {e : ReferenceError}
    (h : FailsWith (leaves source : Keyed (Entry R)) e) :
    (readDraft source : Except SourceError (Draft R)) = .error (.reference e) := by
  obtain ⟨path, hleast, he⟩ := h
  have hne : (leaves source : Keyed (Entry R)) ≠ [] := by
    intro hnil
    have hmem := hleast.1.1
    rw [hnil] at hmem
    cases hmem
  have hbefore (p : Text) (hp : p ∈ (leaves source : Keyed (Entry R)).keys) (hlt : p < path) :
      ∃ leaf, LeadsTo (absoluteValues (leaves (R := R) source)) p leaf := by
    refine (outcome_total _ p).resolve_right fun herror => ?_
    exact absurd (hleast.2 ⟨hp, herror⟩) (not_le.2 hlt)
  have hsound := Resolver.sound_ofEntries (absoluteValues (leaves (R := R) source))
  have hrun := run_readTokens_error hsound (sorted_leaves source) hleast.1.1 hbefore he
  rw [readDraft_of_leaves hne, Reading.runOn, hrun]
  rfl

/-- A document that resolves is read by the tokens that decide its slots. -/
theorem exists_found (hne : (leaves source : Keyed (Entry R)) ≠ [])
    (hr : Resolves (leaves source : Keyed (Entry R))) : ∃ found : List (Candidate R),
      (∀ slot token, winner? found slot = some token ↔ Wins (leaves source) slot token) ∧
        (readDraft source : Except SourceError (Draft R)) = readSlots found := by
  obtain ⟨tokens, hrun, _, hw⟩ := exists_tokens (sorted_leaves source) hr
  exact ⟨candidates tokens, hw, by rw [readDraft_of_leaves hne, hrun, ok_bind]⟩

/-- How reading a document comes out. -/
inductive DraftOutcome (entries : Keyed (Entry R)) : Except SourceError (Draft R) → Prop
  | empty (h : entries = []) : DraftOutcome entries (.error .emptySource)
  | reference {e : ReferenceError} (h : FailsWith entries e) :
      DraftOutcome entries (.error (.reference e))
  | malformed {literal : Text} (hr : Resolves entries) (h : FirstMalformed entries literal) :
      DraftOutcome entries (.error (.malformedColor literal))
  | draft {d : Draft R} (hne : entries ≠ []) (hr : Resolves entries) (h : Fills entries d) :
      DraftOutcome entries (.ok d)

theorem DraftOutcome.readDraft_eq {result : Except SourceError (Draft R)}
    (h : DraftOutcome (leaves source) result) : readDraft source = result := by
  cases h with
  | empty h => exact readDraft_of_leaves_eq_nil h
  | reference h => exact readDraft_of_fails h
  | malformed hr h =>
    obtain ⟨s, token, hwins, _⟩ := id h
    obtain ⟨found, hw, hread⟩ := exists_found hwins.ne_nil hr
    rw [hread]
    exact (readSlots_eq_error_iff hw).2 ⟨_, h, rfl⟩
  | draft hne hr h =>
    obtain ⟨found, hw, hread⟩ := exists_found hne hr
    rw [hread]
    exact (readSlots_eq_ok_iff hw).2 h

theorem Fills.color?_eq {entries : Keyed (Entry R)} {d : Draft R} (h : Fills entries d)
    {s : ColorSlot} {token : Token R} (hwins : Wins entries (.color s) token) :
    token.color? = .ok (d.color s) := by
  cases hread : token.color? with
  | error e =>
    obtain ⟨literal, hm, _⟩ := Token.color?_eq_error.1 hread
    exact absurd hm (h.wellFormed s token literal hwins)
  | ok color =>
    refine congrArg Except.ok (Option.ext fun c => ?_)
    rw [h.color]
    constructor
    · rintro rfl
      exact ⟨token, hwins, Token.color?_eq_some.1 hread⟩
    · rintro ⟨other, hother, hcolor⟩
      rw [hother.unique hwins, ← Token.color?_eq_some, hread] at hcolor
      injection hcolor

end ThemeTokens.Document
