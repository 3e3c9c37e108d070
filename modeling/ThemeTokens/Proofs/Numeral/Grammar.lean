import ThemeTokens.Proofs.Numeral

/-!
# The grammar of numerals

Which texts are numerals, and of which numbers. The reader takes off one part after the other, and
no part can start like the one that follows it, so that there is only one way to divide a text.
-/
namespace ThemeTokens.Numeral

/-- A sign or nothing, and whether it is a minus. -/
inductive IsSign : Text → Bool → Prop
  | none : IsSign [] false
  | plus : IsSign ['+'] false
  | minus : IsSign ['-'] true

/-- A point with the digits after it, or neither. -/
inductive IsFraction : Text → Text → Prop
  | none : IsFraction [] []
  | point {places : Text} (h : ∀ c ∈ places, c.isDigit = true) : IsFraction ('.' :: places) places

/-- A power of ten with its sign, or nothing. -/
inductive IsPower : Text → Int → Prop
  | none : IsPower [] 0
  | marked {mark : Char} {sign digits : Text} {negative : Bool} (hmark : mark = 'e' ∨ mark = 'E')
      (hsign : IsSign sign negative) (hne : digits ≠ [])
      (hdigits : ∀ c ∈ digits, c.isDigit = true) :
      IsPower (mark :: (sign ++ digits))
        (if negative then -(ofDigits digits : Int) else ofDigits digits)

/-- A whole text that is a numeral. It has digits before the point or after it. -/
inductive Writes : Text → Numeral → Prop
  | mk {sign whole point places power : Text} {negative : Bool} {e : Int}
      (hsign : IsSign sign negative) (hwhole : ∀ c ∈ whole, c.isDigit = true)
      (hfraction : IsFraction point places) (hne : ¬ (whole = [] ∧ places = []))
      (hpower : IsPower power e) :
      Writes (sign ++ (whole ++ (point ++ power)))
        ⟨negative, ofDigits (whole ++ places), e - places.length⟩

/-! ## Characters -/

/-- The characters of numerals that are read, of which those that are written need fewer. -/
def inputAlphabet : Text := "0123456789.-+eE"

theorem mem_of_isDigit {t : Text} (h : ∀ c ∈ t, c.isDigit = true) : ∀ c ∈ t, c ∈ inputAlphabet :=
  fun c hc => List.mem_append_left ".-+eE".toList (Text.mem_of_isDigit (h c hc))

theorem IsSign.mem {sign : Text} {negative : Bool} (h : IsSign sign negative) :
    ∀ c ∈ sign, c ∈ inputAlphabet := by
  cases h <;> exact List.all_iff_forall_prop.1 (by decide)

theorem IsFraction.mem {point places : Text} (h : IsFraction point places) :
    ∀ c ∈ point, c ∈ inputAlphabet := by
  cases h with
  | none => exact List.forall_mem_nil _
  | point hplaces => exact List.forall_mem_cons.2 ⟨by decide, mem_of_isDigit hplaces⟩

theorem IsPower.mem {power : Text} {e : Int} (h : IsPower power e) :
    ∀ c ∈ power, c ∈ inputAlphabet := by
  cases h with
  | none => exact List.forall_mem_nil _
  | marked hmark hsign _ hdigits =>
    have hrest := List.forall_mem_append.2 ⟨hsign.mem, mem_of_isDigit hdigits⟩
    refine List.forall_mem_cons.2 ⟨?_, hrest⟩
    rcases hmark with rfl | rfl <;> decide

theorem Writes.mem {t : Text} {n : Numeral} (h : Writes t n) : ∀ c ∈ t, c ∈ inputAlphabet := by
  obtain ⟨hsign, hwhole, hfraction, -, hpower⟩ := h
  simp only [List.forall_mem_append]
  exact ⟨hsign.mem, mem_of_isDigit hwhole, hfraction.mem, hpower.mem⟩

/-! ## Signs and digits -/

theorem exists_sign (t : Text) :
    ∃ sign, IsSign sign (readSign t).1 ∧ t = sign ++ (readSign t).2 := by
  unfold readSign
  split
  · exact ⟨['-'], .minus, rfl⟩
  · exact ⟨['+'], .plus, rfl⟩
  · exact ⟨[], .none, rfl⟩

theorem IsSign.readSign {sign rest : Text} {negative : Bool} (h : IsSign sign negative)
    (hrest : ∀ c, rest.head? = some c → c ≠ '-' ∧ c ≠ '+') :
    readSign (sign ++ rest) = (negative, rest) := by
  cases h with
  | none =>
    change Numeral.readSign rest = _
    unfold Numeral.readSign
    split
    · exact absurd rfl (hrest '-' rfl).1
    · exact absurd rfl (hrest '+' rfl).2
    · rfl
  | plus => rfl
  | minus => rfl

theorem ne_sign_of_isDigit {c : Char} (h : c.isDigit = true) : c ≠ '-' ∧ c ≠ '+' := by
  constructor <;> (rintro rfl; cases h)

theorem leadingDigits_eq (t : Text) :
    t = (leadingDigits t).1 ++ (leadingDigits t).2 ∧ ∀ c ∈ (leadingDigits t).1, c.isDigit = true :=
  ⟨List.takeWhile_append_dropWhile.symm, List.all_eq_true.1 List.all_takeWhile⟩

/-! ## The power of ten -/

theorem IsPower.head {power : Text} {e : Int} (h : IsPower power e) {c : Char}
    (hc : power.head? = some c) : c = 'e' ∨ c = 'E' := by
  cases h with
  | none => cases hc
  | marked hmark =>
    cases hc
    exact hmark

theorem readExponent?_eq_some_iff {t : Text} {e : Int} :
    readExponent? t = some e ↔ IsPower t e := by
  constructor
  · intro h
    cases t with
    | nil =>
      cases h
      exact .none
    | cons mark t =>
      obtain ⟨sign, hsign, ht⟩ := exists_sign t
      simp only [readExponent?] at h
      split at h
      · next hmark =>
        split at h
        · next hdigits =>
          cases h
          have hpower := IsPower.marked hmark hsign hdigits.1 (List.all_eq_true.1 hdigits.2)
          rwa [← ht] at hpower
        · cases h
      · cases h
  · rintro (_ | ⟨hmark, hsign, hne, hdigits⟩)
    · rfl
    · rename_i digits _
      have hhead : ∀ c, digits.head? = some c → c ≠ '-' ∧ c ≠ '+' := fun c hc =>
        ne_sign_of_isDigit (hdigits c (List.mem_of_mem_head? hc))
      rw [readExponent?, if_pos hmark, hsign.readSign hhead]
      exact if_pos ⟨hne, List.all_eq_true.2 hdigits⟩

/-! ## The whole numeral -/

theorem exists_fraction (t : Text) :
    ∃ point, IsFraction point (readFraction t).1 ∧ t = point ++ (readFraction t).2 := by
  unfold readFraction
  split
  · next t =>
    obtain ⟨ht, hdigits⟩ := leadingDigits_eq t
    exact ⟨'.' :: (leadingDigits t).1, .point hdigits, congrArg ('.' :: ·) ht⟩
  · exact ⟨[], .none, rfl⟩

theorem IsFraction.readFraction {point places power : Text} (h : IsFraction point places) {e : Int}
    (hpower : IsPower power e) : readFraction (point ++ power) = (places, power) := by
  cases h with
  | none =>
    change Numeral.readFraction power = _
    unfold Numeral.readFraction
    split
    · rcases hpower.head rfl with h | h <;> cases h
    · rfl
  | point hplaces =>
    refine leadingDigits_append hplaces fun c hc => ?_
    rcases hpower.head hc with rfl | rfl <;> rfl

/-- The digits before the point end there. -/
theorem IsFraction.isDigit_head {point places power : Text} (h : IsFraction point places) {e : Int}
    (hpower : IsPower power e) {c : Char} (hc : (point ++ power).head? = some c) :
    c.isDigit = false := by
  cases h with
  | none => rcases hpower.head hc with rfl | rfl <;> rfl
  | point =>
    cases hc
    rfl

theorem Writes.read? {t : Text} {n : Numeral} (h : Writes t n) : read? t = some n := by
  obtain @⟨_, whole, point, _, power, _, _, hsign, hwhole, hfraction, hne, hpower⟩ := h
  -- What follows the sign is a digit, or the point where there is no digit before it.
  have hhead : ∀ c, (whole ++ (point ++ power)).head? = some c → c ≠ '-' ∧ c ≠ '+' := by
    intro c hc
    cases whole with
    | cons d whole =>
      cases hc
      exact ne_sign_of_isDigit (hwhole _ List.mem_cons_self)
    | nil =>
      cases hfraction with
      | none => exact absurd ⟨rfl, rfl⟩ hne
      | point =>
        cases hc
        decide
  rw [Numeral.read?, hsign.readSign hhead]
  dsimp only
  rw [leadingDigits_append hwhole fun c hc => hfraction.isDigit_head hpower hc]
  dsimp only
  rw [hfraction.readFraction hpower]
  dsimp only
  rw [if_neg hne, readExponent?_eq_some_iff.2 hpower, Option.map_some]

theorem writes_of_read? {t : Text} {n : Numeral} (h : read? t = some n) : Writes t n := by
  obtain ⟨sign, hsign, hrest⟩ := exists_sign t
  obtain ⟨hdivide, hwhole⟩ := leadingDigits_eq (readSign t).2
  obtain ⟨point, hfraction, htail⟩ := exists_fraction (leadingDigits (readSign t).2).2
  rw [read?] at h
  dsimp only at h
  split at h
  · cases h
  · next hne =>
    obtain ⟨e, hpower, rfl⟩ := Option.map_eq_some_iff.1 h
    have hwrites := Writes.mk hsign hwhole hfraction hne (readExponent?_eq_some_iff.1 hpower)
    rwa [← htail, ← hdivide, ← hrest] at hwrites

theorem read?_eq_some_iff {t : Text} {n : Numeral} : read? t = some n ↔ Writes t n :=
  ⟨writes_of_read?, Writes.read?⟩

end ThemeTokens.Numeral
