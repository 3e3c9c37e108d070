import Mathlib.Data.Bool.AllAny
import Mathlib.Data.List.Induction
import ThemeTokens.Text.Basic
import ThemeTokens.Text.Word

/-!
# Characters at the ends of a text

Where a run of characters ends, and what is left when characters are dropped at an end.
-/
namespace ThemeTokens.Text

theorem dropWhile_eq_self {p : Char → Bool} {t : Text} (h : ∀ c, t.head? = some c → p c = false) :
    t.dropWhile p = t := by
  cases t with
  | nil => rfl
  | cons c t =>
    refine List.dropWhile_cons_of_neg ?_
    rw [h c rfl]
    decide

/-! ## Runs of characters -/

section
variable {p : Char → Bool} {t rest : Text} (ht : ∀ c ∈ t, p c = true)
  (hrest : ∀ c, rest.head? = some c → p c = false)
include ht hrest

/-- A run ends where the next character does not belong to it. -/
theorem takeWhile_run : (t ++ rest).takeWhile p = t := by
  have hnone : rest.takeWhile p = [] := by
    cases rest with
    | nil => rfl
    | cons c rest => rw [List.takeWhile_cons_of_neg (by rw [hrest c rfl]; decide)]
  rw [List.takeWhile_append_of_pos ht, hnone, List.append_nil]

theorem dropWhile_run : (t ++ rest).dropWhile p = rest := by
  rw [List.dropWhile_append_of_pos ht, dropWhile_eq_self hrest]

end

/-! ## Trimming -/

/-- A text that neither starts nor ends with a blank. -/
theorem trim_eq_self_of_ends {t : Text} (hhead : ∀ c, t.head? = some c → isBlank c = false)
    (hlast : ∀ c, t.getLast? = some c → isBlank c = false) : t.trim = t := by
  have hreverse : ∀ c, t.reverse.head? = some c → isBlank c = false := by
    rwa [List.head?_reverse]
  rw [trim, trimStart, dropWhile_eq_self hhead, trimEnd, dropEndWhile, dropWhile_eq_self hreverse,
    List.reverse_reverse]

theorem trim_eq_self {t : Text} (h : ∀ c ∈ t, isBlank c = false) : t.trim = t :=
  trim_eq_self_of_ends (fun c hc => h c (List.mem_of_mem_head? hc))
    fun c hc => h c (List.mem_of_getLast? hc)

/-- A blank at the start of a text is trimmed. -/
theorem trim_cons {c : Char} {t : Text} (h : isBlank c = true) : trim (c :: t) = t.trim := by
  rw [trim, trim, trimStart, trimStart, List.dropWhile_cons_of_pos h]

/-! ## Characters at the end -/

theorem dropEndWhile_append {p : Char → Bool} {t tail : Text} (htail : ∀ c ∈ tail, p c = true)
    (ht : ∀ c, t.getLast? = some c → p c = false) : (t ++ tail).dropEndWhile p = t := by
  have htail' : ∀ c ∈ tail.reverse, p c = true := fun c hc => htail c (List.mem_reverse.1 hc)
  have ht' : ∀ c, t.reverse.head? = some c → p c = false := by rwa [List.head?_reverse]
  rw [dropEndWhile, List.reverse_append, List.dropWhile_append_of_pos htail',
    dropWhile_eq_self ht', List.reverse_reverse]

theorem dropEndWhile_sublist (p : Char → Bool) (t : Text) : (t.dropEndWhile p).Sublist t := by
  have hreverse := (List.dropWhile_sublist p (l := t.reverse)).reverse
  rwa [List.reverse_reverse] at hreverse

theorem trim_sublist (t : Text) : t.trim.Sublist t :=
  (dropEndWhile_sublist isBlank _).trans (List.dropWhile_sublist isBlank)

/-- The characters that `dropEndWhile` drops, and what is left. -/
theorem exists_end (p : Char → Bool) (t : Text) : ∃ front tail, t = front ++ tail ∧
    (∀ c ∈ tail, p c = true) ∧ ∀ c, front.getLast? = some c → p c = false := by
  induction t using List.reverseRecOn with
  | nil => exact ⟨[], [], rfl, fun c hc => absurd hc List.not_mem_nil, fun c hc => by cases hc⟩
  | append_singleton t last ih =>
    by_cases hlast : p last = true
    · obtain ⟨front, tail, rfl, htail, hfront⟩ := ih
      refine ⟨front, tail ++ [last], by rw [List.append_assoc], fun c hc => ?_, hfront⟩
      rcases List.mem_append.1 hc with hc | hc
      · exact htail c hc
      · rwa [List.mem_singleton.1 hc]
    · refine ⟨t ++ [last], [], (List.append_nil _).symm, fun c hc => absurd hc List.not_mem_nil, ?_⟩
      intro c hc
      rw [List.getLast?_concat] at hc
      cases hc
      exact Bool.eq_false_iff.2 hlast

theorem beforeLast?_append (c : Char) (t : Text) : beforeLast? c (t ++ [c]) = some t := by
  induction t with
  | nil => exact if_pos rfl
  | cons d t ih =>
    obtain ⟨e, u, hu⟩ := List.exists_cons_of_ne_nil (List.append_ne_nil_of_right_ne_nil t
      (List.cons_ne_nil c []))
    rw [hu] at ih
    have hne : e :: u ≠ [] := List.cons_ne_nil e u
    rw [List.cons_append, hu, beforeLast?, ih]
    · rfl
    · exact hne

theorem beforeLast?_eq_some_iff {c : Char} {t front : Text} :
    beforeLast? c t = some front ↔ t = front ++ [c] := by
  refine ⟨fun h => ?_, fun h => h ▸ beforeLast?_append c front⟩
  induction t generalizing front with
  | nil => cases h
  | cons d t ih =>
    cases t with
    | nil =>
      rw [beforeLast?] at h
      split at h
      · next heq =>
        cases h
        rw [heq, List.nil_append]
      · cases h
    | cons e u =>
      have hne : e :: u ≠ [] := List.cons_ne_nil e u
      rw [beforeLast?] at h
      · obtain ⟨rest, hrest, rfl⟩ := Option.map_eq_some_iff.1 h
        rw [ih hrest, List.cons_append]
      · exact hne

theorem beforeLast?_eq_none {c : Char} {t : Text} (h : c ∉ t) : beforeLast? c t = none := by
  induction t with
  | nil => rfl
  | cons d t ih =>
    obtain ⟨hd, ht⟩ := not_or.1 (mt List.mem_cons.2 h)
    cases t with
    | nil => exact if_neg (Ne.symm hd)
    | cons e u =>
      have hne : e :: u ≠ [] := List.cons_ne_nil e u
      rw [beforeLast?, ih ht]
      · rfl
      · exact hne

/-! ## Pieces -/

theorem split_cons_self (c : Char) (t : Text) : split c (c :: t) = [] :: split c t := by
  rw [split, splitBy, beq_self_eq_true, if_pos rfl]

theorem split_cons_of_ne {c d : Char} (h : d ≠ c) {t piece : Text} {pieces : List Text}
    (ht : split c t = piece :: pieces) : split c (d :: t) = (d :: piece) :: pieces := by
  have hne : (d == c) = false := beq_eq_false_iff_ne.2 h
  rw [split] at ht
  rw [split, splitBy, hne, ht]
  rfl

theorem exists_split (c : Char) (t : Text) : ∃ piece pieces, split c t = piece :: pieces := by
  induction t with
  | nil => exact ⟨[], [], rfl⟩
  | cons d t ih =>
    obtain ⟨piece, pieces, ht⟩ := ih
    by_cases hd : d = c
    · exact ⟨[], split c t, by rw [hd, split_cons_self]⟩
    · exact ⟨d :: piece, pieces, split_cons_of_ne hd ht⟩

theorem split_of_not_mem {c : Char} {t : Text} (h : c ∉ t) : t.split c = [t] := by
  induction t with
  | nil => rfl
  | cons d t ih =>
    obtain ⟨hd, ht⟩ := not_or.1 (mt List.mem_cons.2 h)
    exact split_cons_of_ne (Ne.symm hd) (ih ht)

/-- What stands before the first separator goes to the first piece. -/
theorem split_append_of_split {c : Char} {t rest piece : Text} {pieces : List Text} (h : c ∉ t)
    (hrest : split c rest = piece :: pieces) : split c (t ++ rest) = (t ++ piece) :: pieces := by
  induction t with
  | nil => exact hrest
  | cons d t ih =>
    obtain ⟨hd, ht⟩ := not_or.1 (mt List.mem_cons.2 h)
    exact split_cons_of_ne (Ne.symm hd) (ih ht)

theorem split_append {c : Char} {piece : Text} (h : c ∉ piece) (rest : Text) :
    split c (piece ++ c :: rest) = piece :: split c rest := by
  have hsplit := split_append_of_split h (split_cons_self c rest)
  rwa [List.append_nil] at hsplit

theorem cutFirst?_append {c : Char} {t : Text} (h : c ∉ t) (rest : Text) :
    cutFirst? c (t ++ c :: rest) = some (t, rest) := by
  induction t with
  | nil => exact if_pos rfl
  | cons d t ih =>
    obtain ⟨hd, ht⟩ := not_or.1 (mt List.mem_cons.2 h)
    rw [List.cons_append, cutFirst?, if_neg (Ne.symm hd), ih ht, Option.map_some]

theorem cutFirst?_eq_some_iff {c : Char} {t front rest : Text} :
    cutFirst? c t = some (front, rest) ↔ t = front ++ c :: rest ∧ c ∉ front := by
  constructor
  · intro h
    induction t generalizing front with
    | nil => cases h
    | cons d t ih =>
      rw [cutFirst?] at h
      split at h
      · next heq =>
        cases h
        exact ⟨congrArg (· :: _) heq, List.not_mem_nil⟩
      · next hne =>
        obtain ⟨⟨front, rest⟩, hcut, hpair⟩ := Option.map_eq_some_iff.1 h
        cases hpair
        obtain ⟨rfl, hfront⟩ := ih hcut
        exact ⟨rfl, mt List.mem_cons.1 (not_or.2 ⟨Ne.symm hne, hfront⟩)⟩
  · rintro ⟨rfl, h⟩
    exact cutFirst?_append h rest

theorem cutFirst?_eq_none_iff {c : Char} {t : Text} : cutFirst? c t = none ↔ c ∉ t := by
  constructor
  · intro h hmem
    obtain ⟨front, rest, rfl, hfront⟩ := List.eq_append_cons_of_mem hmem
    rw [cutFirst?_append hfront] at h
    cases h
  · intro h
    rw [Option.eq_none_iff_forall_ne_some]
    rintro ⟨front, rest⟩ hcut
    obtain ⟨rfl, -⟩ := cutFirst?_eq_some_iff.1 hcut
    exact h (List.mem_append_right _ List.mem_cons_self)

theorem join_cons (separator piece : Text) (rest : List Text) :
    join separator (piece :: rest) = piece ++ rest.flatMap (separator ++ ·) := by
  induction rest generalizing piece with
  | nil => rw [join, List.intercalate_singleton, List.flatMap_nil, List.append_nil]
  | cons next rest ih =>
    have hnext := ih next
    rw [join] at hnext
    rw [join, List.intercalate_cons_cons, hnext, List.flatMap_cons, List.append_assoc,
      List.append_assoc]

theorem mem_join {separator : Text} {pieces : List Text} {c : Char}
    (h : c ∈ join separator pieces) : c ∈ separator ∨ ∃ piece ∈ pieces, c ∈ piece := by
  cases pieces with
  | nil => cases h
  | cons piece rest =>
    rw [join_cons] at h
    rcases List.mem_append.1 h with h | h
    · exact .inr ⟨piece, List.mem_cons_self, h⟩
    · obtain ⟨next, hnext, h⟩ := List.mem_flatMap.1 h
      rcases List.mem_append.1 h with h | h
      · exact .inl h
      · exact .inr ⟨next, List.mem_cons_of_mem _ hnext, h⟩

theorem sublist_join {pieces : List Text} {piece : Text} (h : piece ∈ pieces) (separator : Text) :
    piece.Sublist (join separator pieces) := by
  cases pieces with
  | nil => cases h
  | cons first rest =>
    rw [join_cons]
    rcases List.mem_cons.1 h with rfl | h
    · exact List.sublist_append_left _ _
    · have hnext : (separator ++ piece).Sublist (rest.flatMap (separator ++ ·)) :=
        List.sublist_flatten_of_mem (List.mem_map_of_mem h)
      exact ((List.sublist_append_right _ _).trans hnext).trans (List.sublist_append_right _ _)

/-- Each piece but the first keeps what was written after the separator. -/
theorem split_join {c : Char} {tail piece : Text} {rest : List Text} (htail : c ∉ tail)
    (hpiece : c ∉ piece) (hrest : ∀ next ∈ rest, c ∉ next) :
    split c (join (c :: tail) (piece :: rest)) = piece :: rest.map (tail ++ ·) := by
  rw [join_cons]
  induction rest generalizing piece with
  | nil => rw [List.flatMap_nil, List.append_nil, split_of_not_mem hpiece, List.map_nil]
  | cons next rest ih =>
    obtain ⟨hnext, hrest⟩ := List.forall_mem_cons.1 hrest
    have happend : c ∉ tail ++ next := List.not_mem_append htail hnext
    rw [List.flatMap_cons, List.cons_append, List.cons_append, split_append hpiece, List.map_cons,
      ih happend hrest]

theorem join_split (c : Char) (t : Text) : join [c] (split c t) = t := by
  induction t with
  | nil => rfl
  | cons d t ih =>
    obtain ⟨piece, pieces, ht⟩ := exists_split c t
    rw [ht, join_cons] at ih
    by_cases hd : d = c
    · rw [hd, split_cons_self, ht, join_cons, List.flatMap_cons, List.append_assoc, ih]
      rfl
    · rw [split_cons_of_ne hd ht, join_cons, List.cons_append, ih]

theorem sublist_of_mem_split {c : Char} {t piece : Text} (h : piece ∈ split c t) :
    piece.Sublist t := by
  have hjoin := sublist_join h [c]
  rwa [join_split] at hjoin

theorem not_mem_of_mem_split {c : Char} {t : Text} : ∀ piece ∈ split c t, c ∉ piece := by
  induction t with
  | nil => exact List.forall_mem_singleton.2 List.not_mem_nil
  | cons d t ih =>
    obtain ⟨piece, pieces, ht⟩ := exists_split c t
    by_cases hd : d = c
    · rw [hd, split_cons_self]
      exact List.forall_mem_cons.2 ⟨List.not_mem_nil, ih⟩
    · rw [ht] at ih
      obtain ⟨hpiece, hpieces⟩ := List.forall_mem_cons.1 ih
      rw [split_cons_of_ne hd ht]
      refine List.forall_mem_cons.2 ⟨?_, hpieces⟩
      exact mt List.mem_cons.1 (not_or.2 ⟨Ne.symm hd, hpiece⟩)

/-- Splitting gives the only pieces without the separator that make up the text. -/
theorem split_eq_iff {c : Char} {t piece : Text} {rest : List Text} :
    split c t = piece :: rest ↔
      t = join [c] (piece :: rest) ∧ ∀ part ∈ piece :: rest, c ∉ part := by
  constructor
  · intro h
    exact ⟨h ▸ (join_split c t).symm, h ▸ not_mem_of_mem_split⟩
  · rintro ⟨rfl, h⟩
    obtain ⟨hpiece, hrest⟩ := List.forall_mem_cons.1 h
    rw [split_join List.not_mem_nil hpiece hrest]
    exact congrArg _ (List.map_id rest)

theorem map_trim_split_join {piece : Text} {rest : List Text}
    (hcomma : ∀ t ∈ piece :: rest, ',' ∉ t)
    (hblank : ∀ t ∈ piece :: rest, ∀ c ∈ t, isBlank c = false) :
    (split ',' (join ", " (piece :: rest))).map trim = piece :: rest := by
  obtain ⟨hpiece, hrest⟩ := List.forall_mem_cons.1 hcomma
  have hseparator : ", ".toList = [',', ' '] := rfl
  rw [hseparator, split_join (by decide) hpiece hrest, List.map_cons, List.map_map,
    trim_eq_self (hblank piece List.mem_cons_self)]
  refine congrArg _ ((List.map_congr_left fun t ht => ?_).trans (List.map_id rest))
  exact (trim_cons (by decide)).trans (trim_eq_self (hblank t (List.mem_cons_of_mem _ ht)))

/-! ## Pieces between two characters -/

/-- The pieces between the occurrences of two characters in a row. -/
def splitPair (c d : Char) : Text → List Text
  | e :: f :: t =>
    if e = c ∧ f = d then [] :: splitPair c d t
    else match splitPair c d (f :: t) with
      | [] => [[e]]
      | piece :: rest => (e :: piece) :: rest
  | t => [t]

section
variable {c : Char} {piece : Text} (d : Char)

theorem splitPair_cons_of_ne {e : Char} (h : e ≠ c) {t : Text} {pieces : List Text}
    (ht : splitPair c d t = piece :: pieces) : splitPair c d (e :: t) = (e :: piece) :: pieces := by
  cases t with
  | nil =>
    cases ht
    rfl
  | cons f t => rw [splitPair, if_neg fun hpair => h hpair.1, ht]

theorem splitPair_of_not_mem (h : c ∉ piece) : splitPair c d piece = [piece] := by
  induction piece with
  | nil => rfl
  | cons e piece ih =>
    obtain ⟨he, hpiece⟩ := not_or.1 (mt List.mem_cons.2 h)
    exact splitPair_cons_of_ne d (Ne.symm he) (ih hpiece)

theorem splitPair_append (h : c ∉ piece) (rest : Text) :
    splitPair c d (piece ++ c :: d :: rest) = piece :: splitPair c d rest := by
  induction piece with
  | nil => exact if_pos ⟨rfl, rfl⟩
  | cons e piece ih =>
    obtain ⟨he, hpiece⟩ := not_or.1 (mt List.mem_cons.2 h)
    exact splitPair_cons_of_ne d (Ne.symm he) (ih hpiece)

/-- What was joined is split into the same pieces, of which there have to be some. -/
theorem splitPair_join {pieces : List Text} (hne : pieces ≠ []) (h : ∀ t ∈ pieces, c ∉ t) :
    splitPair c d (join [c, d] pieces) = pieces := by
  obtain ⟨piece, rest, rfl⟩ := List.exists_cons_of_ne_nil hne
  clear hne
  rw [join_cons]
  induction rest generalizing piece with
  | nil =>
    rw [List.flatMap_nil, List.append_nil]
    exact splitPair_of_not_mem d (h piece List.mem_cons_self)
  | cons next rest ih =>
    obtain ⟨hpiece, hrest⟩ := List.forall_mem_cons.1 h
    rw [List.flatMap_cons, List.append_assoc, List.cons_append, List.cons_append,
      List.nil_append, splitPair_append d hpiece, ih next hrest]

end

/-! ## Lower case -/

theorem lower_eq_self {t : Text} (h : ∀ c ∈ t, c.toLower = c) : t.lower = t :=
  (List.map_congr_left h).trans (List.map_id t)

theorem mem_of_isDigit {c : Char} (h : c.isDigit = true) : c ∈ "0123456789".toList := by
  obtain ⟨hlow, hhigh⟩ := Char.isDigit_iff_toNat.1 h
  have hdigit : ∀ n ∈ List.range' 48 10, Char.ofNat n ∈ "0123456789".toList := by decide
  have hrange : c.toNat ∈ List.range' 48 10 := by
    rw [List.mem_range'_1]
    exact ⟨hlow, Nat.lt_succ_of_le hhigh⟩
  have hmem := hdigit c.toNat hrange
  rwa [Char.ofNat_toNat] at hmem

/-! ## Words and blanks -/

/-- The code points of the blanks. -/
def blankPoints : List Nat :=
  [0x09, 0x0A, 0x0B, 0x0C, 0x0D, 0x20, 0x85, 0xA0, 0x1680, 0x2000, 0x2001, 0x2002, 0x2003, 0x2004,
    0x2005, 0x2006, 0x2007, 0x2008, 0x2009, 0x200A, 0x2028, 0x2029, 0x202F, 0x205F, 0x3000]

theorem mem_blankPoints {c : Char} (h : isBlank c = true) : c.toNat ∈ blankPoints := by
  simp only [isBlank, Bool.or_eq_true, Bool.and_eq_true, decide_eq_true_eq, beq_iff_eq] at h
  simp only [blankPoints, List.mem_cons, List.not_mem_nil, or_false]
  omega

/-- What fails for each of the few blanks fails for all of them. -/
theorem eq_false_of_isBlank {p : Char → Bool} (hp : ∀ n ∈ blankPoints, p (Char.ofNat n) = false)
    {c : Char} (h : isBlank c = true) : p c = false := by
  have hc := hp c.toNat (mem_blankPoints h)
  rwa [Char.ofNat_toNat] at hc

theorem isWord_eq (c : Char) : isWord c =
    if c.toNat < 0x80 then c.isAlphanum || c == '_'
    else wordRanges.toList.any fun range => range.1 ≤ c.toNat && c.toNat ≤ range.2 := by
  rw [isWord, Array.any_toList]

theorem isWord_of_isBlank {c : Char} (h : isBlank c = true) : isWord c = false := by
  refine eq_false_of_isBlank ?_ h
  simp only [isWord_eq]
  decide +kernel

end ThemeTokens.Text
