import Mathlib.Order.WellFounded
import ThemeTokens.Document.Reader
import ThemeTokens.Proofs.Keyed
import ThemeTokens.Proofs.Reading
import ThemeTokens.Proofs.Table

/-!
# Reading leaves

The leaves of a document are read in the order of their paths, and the slots in canonical order; the
first failure ends the reading. A document whose leaves hold no references and stand at the paths of
slots gives a draft with these slots.
-/
namespace ThemeTokens

namespace Document
variable {R : Type}

/-- The entry of a token that was written without a reference. -/
def Token.entry (token : Token R) : Entry R := ⟨.leaf token.leaf, token.kind⟩

theorem Token.entry_injective {a b : Token R} (h : a.entry = b.entry) : a = b := by
  obtain ⟨leaf, kind⟩ := a
  obtain ⟨leaf', kind'⟩ := b
  cases h
  rfl

theorem run_readTokens_cons (path : Text) (entry : Entry R) (entries : Keyed (Entry R))
    (r : Resolver (Leaf R)) : (readTokens ((path, entry) :: entries)).run r =
      (Reading.leaf path).run r >>= fun (leaf, r₁) => (readTokens entries).run r₁ >>=
        fun (tokens, r₂) => .ok ((path, ⟨leaf, entry.kind⟩) :: tokens, r₂) := by
  rw [readTokens, List.mapM_cons, StateT.run_bind, StateT.run_bind]
  cases (Reading.leaf path).run r with
  | error e => rfl
  | ok first =>
    rw [ok_bind, ok_bind, StateT.run_pure]
    change (Except.ok _ >>= _) = _
    rw [ok_bind, StateT.run_bind, readTokens]
    rfl

theorem readTokens_cons {path : Text} {entry : Entry R} {entries : Keyed (Entry R)}
    {leaf : Leaf R} {tokens : Keyed (Token R)} {r r₁ r₂ : Resolver (Leaf R)}
    (hleaf : (Reading.leaf path).run r = .ok (leaf, r₁))
    (htokens : (readTokens entries).run r₁ = .ok (tokens, r₂)) :
    (readTokens ((path, entry) :: entries)).run r =
      .ok ((path, ⟨leaf, entry.kind⟩) :: tokens, r₂) := by
  rw [run_readTokens_cons, hleaf, ok_bind]
  dsimp only
  rw [htokens, ok_bind]

/-- Reading gives the tokens back, whatever the resolver remembers. -/
theorem readTokens_entries (tokens : Keyed (Token R)) {r : Resolver (Leaf R)} (hs : r.Sound)
    (h : ∀ t ∈ tokens, r.entries.get? t.1 = some (.leaf t.2.leaf)) :
    ∃ r', (readTokens (tokens.map fun t => (t.1, t.2.entry))).run r = .ok (tokens, r') := by
  induction tokens generalizing r with
  | nil => exact ⟨r, rfl⟩
  | cons t tokens ih =>
    obtain ⟨r₁, hleaf, hs₁, hentries⟩ := Reading.leaf_of_get? hs (h t List.mem_cons_self)
    obtain ⟨r₂, htokens⟩ := ih hs₁ fun u hu => hentries ▸ h u (List.mem_cons_of_mem _ hu)
    exact ⟨r₂, readTokens_cons hleaf htokens⟩

theorem run_readTokens {tokens : Keyed (Token R)} {entries : Keyed (Entry R)}
    (he : entries = tokens.map fun t => (t.1, t.2.entry)) (hs : Keyed.Sorted entries) :
    Reading.runOn (absoluteValues entries) (readTokens entries) = .ok tokens := by
  have hget : ∀ t ∈ tokens, (absoluteValues entries).get? t.1 = some (.leaf t.2.leaf) := by
    intro t ht
    have hmem : (t.1, t.2.entry) ∈ entries := he ▸ List.mem_map_of_mem ht
    rw [absoluteValues, Keyed.get?_mapValues, hs.get?_of_mem hmem]
    rfl
  have hsound := Resolver.sound_ofEntries (absoluteValues entries)
  obtain ⟨r, hr⟩ := readTokens_entries tokens hsound hget
  rw [Reading.runOn]
  nth_rewrite 1 [he]
  rw [hr]
  rfl

/-! ## The token of a slot -/

theorem slotFor?_path (slot : Slot) : slotFor? slot.path = some (slot, .canonical) := by
  rcases slot with slot | slot <;> cases slot <;> decide

theorem winner?_eq {candidates : List (Candidate R)} (token : Slot → Token R)
    (hslots : ∀ slot, ⟨slot, .canonical, token slot⟩ ∈ candidates)
    (htokens : ∀ c ∈ candidates, c.token = token c.slot) (slot : Slot) :
    winner? candidates slot = some (token slot) := by
  have hfound : ∃ c, candidates.find? (fun c => c.slot = slot && c.rank = Rank.canonical) =
      some c := by
    rw [← Option.isSome_iff_exists, List.find?_isSome]
    exact ⟨_, hslots slot, by simp⟩
  obtain ⟨c, hc⟩ := hfound
  have hslot : c.slot = slot := by
    have := List.find?_some hc
    simp only [Bool.and_eq_true, decide_eq_true_eq] at this
    exact this.1
  rw [winner?, Rank.all, List.findSome?_cons, hc]
  rw [Option.map_some, htokens c (List.mem_of_find?_eq_some hc), hslot]

/-! ## The draft -/

/-- A value in every slot. -/
def filled (color : ColorSlot → Color R) (scalar : ScalarSlot → R) : Draft R :=
  Table.ofFn (fun s => some (color s)) fun s => some (scalar s)

theorem isEmpty_filled (color : ColorSlot → Color R) (scalar : ScalarSlot → R) :
    (filled color scalar).isEmpty = false := by
  rw [Draft.isEmpty, ColorSlot.all, List.all_cons, filled, Table.color_ofFn]
  rfl

variable [Number R]

/-- The colour that is read for a slot; a slot without a token has none. -/
def slotColor (candidates : List (Candidate R)) (s : ColorSlot) :
    Except SourceError (Option (Color R)) :=
  match winner? candidates (.color s) with
  | none => .ok none
  | some token => token.color?

def slotScalar? (candidates : List (Candidate R)) (s : ScalarSlot) : Option R :=
  (winner? candidates (.scalar s)).bind Token.scalar?

variable {candidates : List (Candidate R)} {slots : List ColorSlot} {d : Draft R}

theorem readColorSlot_eq {s : ColorSlot} (h : d.color s = none) :
    readColorSlot candidates d s = (slotColor candidates s).map (d.putColor s) := by
  rw [readColorSlot, slotColor]
  cases winner? candidates (.color s) with
  | some token => rfl
  | none => exact congrArg Except.ok (h ▸ (Table.putColor_color d s).symm)

theorem foldlM_readColorSlot {value : ColorSlot → Option (Color R)} (hslots : slots.Nodup)
    (h : ∀ s ∈ slots, slotColor candidates s = .ok (value s))
    (hd : ∀ s ∈ slots, d.color s = none) : slots.foldlM (readColorSlot candidates) d =
      .ok (slots.foldl (fun d s => d.putColor s (value s)) d) := by
  induction slots generalizing d with
  | nil => rfl
  | cons s slots ih =>
    obtain ⟨hs, hslots⟩ := List.nodup_cons.1 hslots
    have hstep : readColorSlot candidates d s = .ok (d.putColor s (value s)) := by
      rw [readColorSlot_eq (hd s List.mem_cons_self), h s List.mem_cons_self]
      rfl
    rw [List.foldlM_cons, hstep, List.foldl_cons, ok_bind]
    refine ih hslots (fun t ht => h t (List.mem_cons_of_mem _ ht)) fun t ht => ?_
    rw [Table.color_putColor, if_neg (ne_of_mem_of_not_mem ht hs)]
    exact hd t (List.mem_cons_of_mem _ ht)

/-- The slots before the first that fails do not matter. -/
theorem foldlM_readColorSlot_error {s : ColorSlot} {e : SourceError} (hslots : slots.Nodup)
    (hs : s ∈ slots) (he : slotColor candidates s = .error e)
    (hbefore : ∀ t ∈ slots.takeWhile (· ≠ s), ∃ color, slotColor candidates t = .ok color)
    (hd : ∀ s ∈ slots, d.color s = none) :
    slots.foldlM (readColorSlot candidates) d = .error e := by
  induction slots generalizing d with
  | nil => cases hs
  | cons t slots ih =>
    obtain ⟨ht, hslots⟩ := List.nodup_cons.1 hslots
    rw [List.foldlM_cons, readColorSlot_eq (hd t List.mem_cons_self)]
    by_cases hts : t = s
    · rw [hts, he]
      rfl
    · rw [List.takeWhile_cons_of_pos (by simpa using hts)] at hbefore
      obtain ⟨color, hcolor⟩ := hbefore t List.mem_cons_self
      have hmem : s ∈ slots := (List.mem_cons.1 hs).resolve_left (Ne.symm hts)
      rw [hcolor]
      refine ih hslots hmem (fun u hu => hbefore u (List.mem_cons_of_mem _ hu)) fun u hu => ?_
      rw [Table.color_putColor, if_neg (ne_of_mem_of_not_mem hu ht)]
      exact hd u (List.mem_cons_of_mem _ hu)

theorem readSlots_ok {value : ColorSlot → Option (Color R)}
    (h : ∀ s, slotColor candidates s = .ok (value s)) :
    readSlots candidates = .ok (Table.ofFn value (slotScalar? candidates)) := by
  have hempty (s : ColorSlot) : (Draft.empty : Draft R).color s = none := Table.color_ofFn _ _ s
  rw [readSlots, foldlM_readColorSlot (by decide) (fun s _ => h s) fun s _ => hempty s, ok_bind]
  have hscalars : readScalarSlot candidates =
      fun d s => d.putScalar s (slotScalar? candidates s) := rfl
  rw [hscalars]
  refine congrArg Except.ok ?_
  refine Table.ext_slots (fun s => ?_) fun s => ?_
  · rw [Table.color_foldl_putScalar, Table.color_foldl_putColor, if_pos (ColorSlot.mem_all s),
      Table.color_ofFn]
  · rw [Table.scalar_foldl_putScalar, if_pos (ScalarSlot.mem_all s), Table.scalar_ofFn]

theorem mem_takeWhile_all {s t : ColorSlot} (h : t ∈ ColorSlot.all.takeWhile (· ≠ s)) :
    t.index < s.index := by
  revert t
  cases s <;> decide

theorem readSlots_error {s : ColorSlot} {e : SourceError} (he : slotColor candidates s = .error e)
    (hbefore : ∀ t, t.index < s.index → ∃ color, slotColor candidates t = .ok color) :
    readSlots candidates = .error e := by
  have hempty (s : ColorSlot) : (Draft.empty : Draft R).color s = none := Table.color_ofFn _ _ s
  rw [readSlots, foldlM_readColorSlot_error (by decide) (ColorSlot.mem_all s) he
    (fun t ht => hbefore t (mem_takeWhile_all ht)) fun s _ => hempty s]
  rfl

/-- Either every colour slot can be read, or there is a first that cannot. -/
theorem slotColor_cases (candidates : List (Candidate R)) :
    (∃ value : ColorSlot → Option (Color R), ∀ s, slotColor candidates s = .ok (value s)) ∨
      ∃ s e, slotColor candidates s = .error e ∧
        ∀ t, t.index < s.index → ∃ color, slotColor candidates t = .ok color := by
  by_cases h : ∀ s, ∃ color, slotColor candidates s = .ok color
  · exact .inl ⟨fun s => (h s).choose, fun s => (h s).choose_spec⟩
  · obtain ⟨s, hs, hfirst⟩ := (measure fun s : ColorSlot => s.index.val).wf.has_min
      {s | ¬ ∃ color, slotColor candidates s = .ok color} (not_forall.1 h)
    have hbefore (t : ColorSlot) (ht : t.index < s.index) :
        ∃ color, slotColor candidates t = .ok color := not_not.1 fun hn => hfirst t hn ht
    cases he : slotColor candidates s with
    | error e => exact .inr ⟨s, e, he, hbefore⟩
    | ok color => exact absurd ⟨color, he⟩ hs

theorem readSlots_eq_ok {d : Draft R} : readSlots candidates = .ok d ↔
    (∀ s, slotColor candidates s = .ok (d.color s)) ∧
      ∀ s, slotScalar? candidates s = d.scalar s := by
  constructor
  · intro h
    rcases slotColor_cases candidates with ⟨value, hvalue⟩ | ⟨s, e, he, hbefore⟩
    · rw [readSlots_ok hvalue] at h
      injection h with h
      subst h
      exact ⟨fun s => by rw [Table.color_ofFn, hvalue], fun s => (Table.scalar_ofFn _ _ s).symm⟩
    · rw [readSlots_error he hbefore] at h
      cases h
  · rintro ⟨hcolor, hscalar⟩
    rw [readSlots_ok hcolor]
    refine congrArg Except.ok (Table.ext_slots (fun s => Table.color_ofFn _ _ s) fun s => ?_)
    rw [Table.scalar_ofFn, hscalar]

theorem readSlots_eq_error {e : SourceError} : readSlots candidates = .error e ↔
    ∃ s, slotColor candidates s = .error e ∧
      ∀ t, t.index < s.index → ∃ color, slotColor candidates t = .ok color := by
  constructor
  · intro h
    rcases slotColor_cases candidates with ⟨value, hvalue⟩ | ⟨s, e', he, hbefore⟩
    · rw [readSlots_ok hvalue] at h
      cases h
    · rw [readSlots_error he hbefore] at h
      cases h
      exact ⟨s, he, hbefore⟩
  · rintro ⟨s, he, hbefore⟩
    exact readSlots_error he hbefore

theorem readSlots_eq {candidates : List (Candidate R)} {color : ColorSlot → Color R}
    {scalar : ScalarSlot → R} (hcolor : ∀ s, ∃ token,
      winner? candidates (.color s) = some token ∧ token.color? = .ok (some (color s)))
    (hscalar : ∀ s, (winner? candidates (.scalar s)).bind Token.scalar? = some (scalar s)) :
    readSlots candidates = .ok (filled color scalar) := by
  have hvalue (s : ColorSlot) : slotColor candidates s = .ok (some (color s)) := by
    obtain ⟨token, hwinner, htoken⟩ := hcolor s
    rw [slotColor, hwinner]
    exact htoken
  have hscalars : slotScalar? candidates = fun s => some (scalar s) := funext hscalar
  rw [readSlots_ok hvalue, hscalars]
  rfl

end Document

end ThemeTokens
