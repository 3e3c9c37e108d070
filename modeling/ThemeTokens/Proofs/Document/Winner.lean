import Mathlib.Data.Prod.Lex
import Mathlib.Order.Bounds.Basic
import ThemeTokens.Document.Reader
import ThemeTokens.Proofs.Keyed

/-!
# The leaf that decides a slot

Of all paths that stand for a slot, the one that stands for it in the strongest way decides it, and
of several equally strong ones the first in the order of paths. The reader looks through the tokens
once for each rank, and finds the token at this path.
-/
namespace ThemeTokens

/-! ## The first entry of a sorted list -/

namespace Keyed
variable {α : Type} {entries : Keyed α} {entry : Text × α}

theorem Sorted.eq_of_key_eq (hs : Sorted entries) {other : Text × α} (he : entry ∈ entries)
    (ho : other ∈ entries) (hkey : entry.1 = other.1) : entry = other := by
  obtain ⟨key, value⟩ := entry
  obtain ⟨_, otherValue⟩ := other
  obtain rfl := hkey
  have hvalue := (hs.get?_of_mem he).symm.trans (hs.get?_of_mem ho)
  injection hvalue with hvalue
  rw [hvalue]

theorem Sorted.find?_le (hs : Sorted entries) {p : Text × α → Bool}
    (h : entries.find? p = some entry) {other : Text × α} (ho : other ∈ entries)
    (hp : p other = true) : entry.1 ≤ other.1 := by
  obtain ⟨_, before, after, rfl, hbefore⟩ := List.find?_eq_some_iff_append.1 h
  rcases List.mem_append.1 ho with ho | ho
  · have hnot := hbefore other ho
    rw [hp] at hnot
    cases hnot
  · rcases List.mem_cons.1 ho with rfl | ho
    · exact le_rfl
    · exact ((List.pairwise_cons.1 (List.pairwise_append.1 hs).2.1).1 other ho).le

/-- Searching a sorted list finds the entry with the least key. -/
theorem Sorted.find?_eq_some (hs : Sorted entries) {p : Text × α → Bool} :
    entries.find? p = some entry ↔ entry ∈ entries ∧ p entry = true ∧
      ∀ other ∈ entries, p other = true → entry.1 ≤ other.1 := by
  constructor
  · intro h
    exact ⟨List.mem_of_find?_eq_some h, List.find?_some h, fun other => hs.find?_le h⟩
  · rintro ⟨hmem, hp, hleast⟩
    cases hfind : entries.find? p with
    | none => exact absurd hp (List.find?_eq_none.1 hfind entry hmem)
    | some first =>
      have hfirst := List.mem_of_find?_eq_some hfind
      have hle := hleast first hfirst (List.find?_some hfind)
      rw [hs.eq_of_key_eq hfirst hmem (le_antisymm (hs.find?_le hfind hmem hp) hle)]

end Keyed

namespace Document

/-! ## Standings -/

theorem Rank.ctorIdx_injective : Function.Injective Rank.ctorIdx := by
  intro a b h
  cases a <;> cases b <;> first | rfl | cases h

/-- The stronger rank comes first. -/
instance : LinearOrder Rank := LinearOrder.lift' Rank.ctorIdx Rank.ctorIdx_injective

/-- The paths that stand for a slot with their ranks, in the order of ranks and then of paths. -/
def standings (paths : List Text) (slot : Slot) : Set (Rank ×ₗ Text) :=
  {standing | (ofLex standing).2 ∈ paths ∧
    slotFor? (ofLex standing).2 = some (slot, (ofLex standing).1)}

/-- The path with the least standing for a slot. -/
def Decides (paths : List Text) (slot : Slot) (path : Text) : Prop :=
  ∃ rank, IsLeast (standings paths slot) (toLex (rank, path))

variable {paths : List Text} {slot : Slot} {path : Text}

theorem mem_standings {rank : Rank} : toLex (rank, path) ∈ standings paths slot ↔
    path ∈ paths ∧ slotFor? path = some (slot, rank) := Iff.rfl

theorem isLeast_standings {rank : Rank} :
    IsLeast (standings paths slot) (toLex (rank, path)) ↔
      (path ∈ paths ∧ slotFor? path = some (slot, rank)) ∧
        ∀ other ∈ paths, ∀ r, slotFor? other = some (slot, r) →
          rank < r ∨ rank = r ∧ path ≤ other := by
  refine and_congr_right fun _ => ⟨fun h other hother r hr => ?_, fun h standing hs => ?_⟩
  · exact Prod.Lex.toLex_le_toLex.1 (h (mem_standings.2 ⟨hother, hr⟩))
  · exact Prod.Lex.toLex_le_toLex.2 (h _ hs.1 _ hs.2)

theorem Decides.mem (h : Decides paths slot path) : path ∈ paths := h.choose_spec.1.1

theorem Decides.unique {other : Text} (h : Decides paths slot path)
    (ho : Decides paths slot other) : path = other := by
  obtain ⟨rank, h⟩ := h
  obtain ⟨r, ho⟩ := ho
  have he := toLex.injective (h.unique ho)
  injection he

/-! ## Searching by rank -/

theorem Rank.findSome?_all {β : Type} {f : Rank → Option β} {b : β} :
    Rank.all.findSome? f = some b ↔ ∃ rank, f rank = some b ∧ ∀ r < rank, f r = none := by
  have hcanonical (r : Rank) : ¬ r < .canonical := by cases r <;> decide
  have hsynonym (r : Rank) : r < .synonym → r = .canonical := by cases r <;> decide
  have hconvenience (r : Rank) : r < .convenience → r = .canonical ∨ r = .synonym := by
    cases r <;> decide
  constructor
  · intro h
    simp only [Rank.all, List.findSome?_cons, List.findSome?_nil] at h
    split at h
    · next hc => exact ⟨.canonical, hc.trans h, fun r hr => absurd hr (hcanonical r)⟩
    · next hc =>
      split at h
      · next hs => exact ⟨.synonym, hs.trans h, fun r hr => hsynonym r hr ▸ hc⟩
      · next hs =>
        split at h
        · next hv =>
          refine ⟨.convenience, hv.trans h, fun r hr => ?_⟩
          rcases hconvenience r hr with rfl | rfl
          · exact hc
          · exact hs
        · cases h
  · rintro ⟨rank, hrank, hbefore⟩
    cases rank with
    | canonical => simp [Rank.all, hrank]
    | synonym => simp [Rank.all, hrank, hbefore .canonical (by decide)]
    | convenience =>
      simp [Rank.all, hrank, hbefore .canonical (by decide), hbefore .synonym (by decide)]

variable {R : Type}

theorem find?_candidates (tokens : Keyed (Token R)) (slot : Slot) (rank : Rank) :
    ((candidates tokens).find? fun c => c.slot = slot && c.rank = rank).map Candidate.token =
      (tokens.find? fun t => slotFor? t.1 = some (slot, rank)).map Prod.snd := by
  induction tokens with
  | nil => rfl
  | cons t tokens ih =>
    rw [candidates] at ih ⊢
    cases hslot : slotFor? t.1 with
    | none =>
      rw [List.filterMap_cons_none (by simp [hslot]), List.find?_cons_of_neg (by simp [hslot]), ih]
    | some standing =>
      obtain ⟨s, r⟩ := standing
      rw [List.filterMap_cons_some (b := ⟨s, r, t.2⟩) (by simp [hslot])]
      by_cases he : s = slot ∧ r = rank
      · rw [List.find?_cons_of_pos (by simp [he]), List.find?_cons_of_pos (by simp [hslot, he])]
        rfl
      · rw [List.find?_cons_of_neg (by simpa using he),
          List.find?_cons_of_neg (by simpa [hslot] using he), ih]

/-- The first token of that rank for a slot. -/
theorem find?_slotFor? {tokens : Keyed (Token R)} (hs : Keyed.Sorted tokens) {slot : Slot}
    {rank : Rank} {token : Token R} :
    (tokens.find? fun t => slotFor? t.1 = some (slot, rank)).map Prod.snd = some token ↔
      ∃ path, tokens.get? path = some token ∧ slotFor? path = some (slot, rank) ∧
        ∀ other ∈ tokens.keys, slotFor? other = some (slot, rank) → path ≤ other := by
  rw [Option.map_eq_some_iff]
  constructor
  · rintro ⟨⟨path, _⟩, hfind, rfl⟩
    obtain ⟨hmem, hp, hleast⟩ := hs.find?_eq_some.1 hfind
    refine ⟨path, hs.get?_of_mem hmem, of_decide_eq_true hp, fun other hother ho => ?_⟩
    obtain ⟨entry, hentry, rfl⟩ := List.mem_map.1 hother
    exact hleast entry hentry (decide_eq_true ho)
  · rintro ⟨path, hget, hslot, hleast⟩
    refine ⟨(path, token), hs.find?_eq_some.2 ⟨Keyed.mem_of_get? hget, decide_eq_true hslot,
      fun other hother hp => ?_⟩, rfl⟩
    exact hleast other.1 (List.mem_map_of_mem hother) (of_decide_eq_true hp)

theorem find?_slotFor?_eq_none {tokens : Keyed (Token R)} {slot : Slot} {rank : Rank} :
    (tokens.find? fun t => slotFor? t.1 = some (slot, rank)).map Prod.snd = none ↔
      ∀ path ∈ tokens.keys, slotFor? path ≠ some (slot, rank) := by
  rw [Option.map_eq_none_iff, List.find?_eq_none, Keyed.keys, List.forall_mem_map]
  exact forall₂_congr fun t _ => by rw [decide_eq_true_eq]

theorem winner?_eq_findSome? (tokens : Keyed (Token R)) (slot : Slot) :
    winner? (candidates tokens) slot = Rank.all.findSome? fun rank =>
      (tokens.find? fun t => slotFor? t.1 = some (slot, rank)).map Prod.snd := by
  rw [winner?]
  exact congrArg (Rank.all.findSome? ·) (funext fun rank => find?_candidates tokens slot rank)

/-- The reader takes the token at the path that decides the slot. -/
theorem winner?_eq_some {tokens : Keyed (Token R)} (hs : Keyed.Sorted tokens) {slot : Slot}
    {token : Token R} : winner? (candidates tokens) slot = some token ↔
      ∃ path, Decides tokens.keys slot path ∧ tokens.get? path = some token := by
  rw [winner?_eq_findSome?, Rank.findSome?_all]
  constructor
  · rintro ⟨rank, hrank, hbefore⟩
    obtain ⟨path, hget, hslot, hleast⟩ := (find?_slotFor? hs).1 hrank
    refine ⟨path, ⟨rank, isLeast_standings.2 ⟨⟨Keyed.mem_keys_of_get? hget, hslot⟩,
      fun other hother r hr => ?_⟩⟩, hget⟩
    rcases lt_trichotomy rank r with h | rfl | h
    · exact .inl h
    · exact .inr ⟨rfl, hleast other hother hr⟩
    · exact absurd hr (find?_slotFor?_eq_none.1 (hbefore r h) other hother)
  · rintro ⟨path, ⟨rank, hleast⟩, hget⟩
    obtain ⟨⟨_, hslot⟩, hle⟩ := isLeast_standings.1 hleast
    refine ⟨rank, (find?_slotFor? hs).2 ⟨path, hget, hslot, fun other hother ho => ?_⟩,
      fun r hr => find?_slotFor?_eq_none.2 fun other hother ho => ?_⟩
    · rcases hle other hother rank ho with h | h
      · exact absurd h (lt_irrefl _)
      · exact h.2
    · rcases hle other hother r ho with h | h
      · exact lt_asymm h hr
      · exact absurd hr (h.1 ▸ lt_irrefl _)

theorem winner?_eq_none {tokens : Keyed (Token R)} {slot : Slot} :
    winner? (candidates tokens) slot = none ↔
      ∀ path ∈ tokens.keys, ∀ rank, slotFor? path ≠ some (slot, rank) := by
  rw [winner?_eq_findSome?, List.findSome?_eq_none_iff]
  have hall (rank : Rank) : rank ∈ Rank.all := by cases rank <;> decide
  constructor
  · intro h path hpath rank
    exact find?_slotFor?_eq_none.1 (h rank (hall rank)) path hpath
  · intro h rank _
    exact find?_slotFor?_eq_none.2 fun path hpath => h path hpath rank

end Document

end ThemeTokens
