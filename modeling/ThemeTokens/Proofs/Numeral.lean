import Mathlib.Algebra.Group.Nat.Defs
import Mathlib.Data.List.Basic
import ThemeTokens.Number.Basic
import ThemeTokens.Proofs.Text

/-!
# Numerals as they are written

A numeral with decimal places is read back as the number that it writes, also after the zeros at its
end were dropped.
-/
namespace ThemeTokens

theorem Text.isDigit_decimal (n : Nat) : ∀ c ∈ decimal n, c.isDigit = true :=
  fun _ hc => Nat.isDigit_of_mem_toDigits (by decide) (by decide) hc

namespace Numeral

/-! ## Digits -/

theorem ofDigits_eq (t : Text) : ofDigits t = Nat.ofDigitChars 10 t 0 :=
  Nat.ofDigitChars_eq_foldl.symm

theorem ofDigits_decimal (n : Nat) : ofDigits (Text.decimal n) = n := by
  rw [ofDigits_eq]
  exact Nat.ofDigitChars_ten_toDigits

theorem ofDigits_append_zeros (t : Text) (zeros : Nat) :
    ofDigits (t ++ List.replicate zeros '0') = ofDigits t * 10 ^ zeros := by
  rw [ofDigits_eq, ofDigits_eq, Nat.ofDigitChars_append, Nat.ofDigitChars_replicate_zero,
    Nat.mul_comm]

theorem ofDigits_zeros_append (zeros : Nat) (t : Text) :
    ofDigits (List.replicate zeros '0' ++ t) = ofDigits t := by
  rw [ofDigits_eq, ofDigits_eq, Nat.ofDigitChars_append, Nat.ofDigitChars_replicate_zero,
    Nat.mul_zero]

theorem leadingDigits_append {t rest : Text} (ht : ∀ c ∈ t, c.isDigit = true)
    (hrest : ∀ c, rest.head? = some c → c.isDigit = false) :
    leadingDigits (t ++ rest) = (t, rest) := by
  rw [leadingDigits, Text.takeWhile_run ht hrest, Text.dropWhile_run ht hrest]

/-- The digits of a number before its point and after it. -/
structure AreDigits (whole places : Text) : Prop where
  ne_nil : whole ≠ []
  whole : ∀ c ∈ whole, c.isDigit = true
  places : ∀ c ∈ places, c.isDigit = true

/-- The decimal places of a number, with their point if there are any. -/
def fractionText (places : Text) : Text := if places = [] then [] else '.' :: places

/-! ## Reading -/

section
variable {whole places : Text} (h : AreDigits whole places) (n : Numeral)
include h

theorem readSign_signText (rest : Text) :
    readSign (n.signText ++ (whole ++ rest)) = (n.negative, whole ++ rest) := by
  obtain ⟨c, t, hwhole⟩ := List.exists_cons_of_ne_nil h.ne_nil
  have hc : c.isDigit = true := h.whole c (hwhole ▸ List.mem_cons_self)
  rw [hwhole, signText]
  cases n.negative with
  | true => rfl
  | false =>
    change readSign (c :: (t ++ rest)) = _
    rw [readSign]
    · rfl
    · rintro u hu
      cases hu
      cases hc
    · rintro u hu
      cases hu
      cases hc

/-- What is read from a sign, digits and decimal places. -/
theorem read?_digits : read? (n.signText ++ (whole ++ fractionText places)) =
    some ⟨n.negative, ofDigits (whole ++ places), -places.length⟩ := by
  have hpoint : ∀ c, (fractionText places).head? = some c → c.isDigit = false := by
    intro c hc
    rw [fractionText] at hc
    split at hc
    · cases hc
    · cases hc
      decide
  have hfraction : readFraction (fractionText places) = (places, []) := by
    rw [fractionText]
    split
    · next hnil => rw [hnil]; rfl
    · have hlead : leadingDigits (places ++ []) = (places, []) :=
        leadingDigits_append h.places fun c hc => by cases hc
      rwa [List.append_nil] at hlead
  rw [read?, readSign_signText h]
  dsimp only
  rw [leadingDigits_append h.whole hpoint]
  dsimp only
  rw [hfraction]
  simp [h.ne_nil, readExponent?]

end

/-! ## Writing -/

/-- The characters of decimal numbers. -/
def alphabet : Text := "0123456789.-"

theorem mem_decimal (n : Nat) : ∀ c ∈ Text.decimal n, c ∈ alphabet := fun c hc =>
  List.mem_append_left ".-".toList (Text.mem_of_isDigit (Text.isDigit_decimal n c hc))

theorem mem_positional (n : Numeral) : ∀ c ∈ n.positional, c ∈ alphabet := by
  have hdigit := mem_decimal n.digits
  have hsign : ∀ c ∈ n.signText, c ∈ alphabet := by
    rw [signText]
    split
    · exact List.all_iff_forall_prop.1 (by decide)
    · exact fun c hc => absurd hc List.not_mem_nil
  have hpoint : ∀ c ∈ ".".toList, c ∈ alphabet := List.all_iff_forall_prop.1 (by decide)
  have hwhole : ∀ c ∈ "0.".toList, c ∈ alphabet := List.all_iff_forall_prop.1 (by decide)
  have hzeros (k : Nat) : ∀ c ∈ List.replicate k '0', c ∈ alphabet := by
    intro c hc
    rw [List.eq_of_mem_replicate hc]
    decide
  rw [positional]
  split
  · simp only [List.forall_mem_append]
    exact ⟨⟨hsign, hdigit⟩, hzeros _⟩
  · split
    · simp only [List.forall_mem_append]
      exact ⟨⟨⟨hsign, fun c hc => hdigit c (List.mem_of_mem_take hc)⟩, hpoint⟩,
        fun c hc => hdigit c (List.mem_of_mem_drop hc)⟩
    · simp only [List.forall_mem_append]
      exact ⟨⟨⟨hsign, hwhole⟩, hzeros _⟩, hdigit⟩

/-- There are digits before the point and as many after it as there are places. -/
theorem positional_places (negative : Bool) (k : Nat) {p : Nat} (hp : 0 < p) :
    ∃ whole places, AreDigits whole places ∧ places.length = p ∧ ofDigits (whole ++ places) = k ∧
      positional ⟨negative, k, -(p : Int)⟩ =
        signText ⟨negative, k, -(p : Int)⟩ ++ whole ++ '.' :: places := by
  have hexponent : ¬ (0 : Int) ≤ -(p : Int) := by omega
  have htoNat : (-(-(p : Int))).toNat = p := by omega
  have hdigits := Text.isDigit_decimal k
  have hvalue := ofDigits_decimal k
  rw [positional]
  dsimp only
  rw [if_neg hexponent, htoNat]
  set t := Text.decimal k
  by_cases hlength : p < t.length
  · refine ⟨t.take (t.length - p), t.drop (t.length - p), ⟨?_, fun c hc => ?_, fun c hc => ?_⟩,
      ?_, ?_, ?_⟩
    · refine List.ne_nil_of_length_pos ?_
      rw [List.length_take]
      omega
    · exact hdigits c (List.mem_of_mem_take hc)
    · exact hdigits c (List.mem_of_mem_drop hc)
    · rw [List.length_drop]
      omega
    · rw [List.take_append_drop, hvalue]
    · rw [if_pos hlength]
      simp
  · refine ⟨['0'], List.replicate (p - t.length) '0' ++ t,
      ⟨List.cons_ne_nil _ _, fun c hc => ?_, fun c hc => ?_⟩, ?_, ?_, ?_⟩
    · rw [List.mem_singleton.1 hc]
      decide
    · rcases List.mem_append.1 hc with hc | hc
      · rw [List.eq_of_mem_replicate hc]
        decide
      · exact hdigits c hc
    · rw [List.length_append, List.length_replicate]
      omega
    · rw [← List.append_assoc]
      exact (ofDigits_zeros_append (p - t.length + 1) t).trans hvalue
    · rw [if_neg hlength]
      simp

/-- Zeros at the end are dropped, and with the last of the places the point goes as well. -/
theorem compact_point {front places tail : Text} (hne : front ≠ [])
    (hfront : ∀ c, front.getLast? = some c → c ≠ '.')
    (hplaces : ∀ c, places.getLast? = some c → c ≠ '0' ∧ c ≠ '.') (htail : ∀ c ∈ tail, c = '0') :
    Decimal.compact (front ++ '.' :: (places ++ tail)) = front ++ fractionText places := by
  have hsplit : front ++ '.' :: (places ++ tail) = (front ++ '.' :: places) ++ tail := by simp
  have hzeros : (front ++ '.' :: (places ++ tail)).dropEndWhile (· == '0') =
      front ++ '.' :: places := by
    rw [hsplit]
    refine Text.dropEndWhile_append (fun c hc => beq_iff_eq.2 (htail c hc)) fun c hc => ?_
    rw [List.getLast?_append, List.getLast?_cons, Option.some_or, Option.some.injEq] at hc
    cases hlast : places.getLast? with
    | none =>
      rw [hlast] at hc
      cases hc
      rfl
    | some d =>
      rw [hlast] at hc
      cases hc
      exact beq_eq_false_iff_ne.2 (hplaces d hlast).1
  have htrimmed : (front ++ '.' :: places).dropEndWhile (· == '.') =
      front ++ fractionText places := by
    rw [fractionText]
    split
    · next hnil =>
      rw [hnil, List.append_nil]
      exact Text.dropEndWhile_append (by simp) fun c hc => beq_eq_false_iff_ne.2 (hfront c hc)
    · next hcons =>
      have hlast : ∀ c, (front ++ '.' :: places).getLast? = some c → (c == '.') = false := by
        intro c hc
        rw [List.append_cons, List.getLast?_append_of_ne_nil _ hcons] at hc
        exact beq_eq_false_iff_ne.2 (hplaces c hc).2
      have hend : (front ++ '.' :: places ++ []).dropEndWhile (· == '.') = front ++ '.' :: places :=
        Text.dropEndWhile_append (fun c hc => absurd hc List.not_mem_nil) hlast
      rwa [List.append_nil] at hend
  have hnonempty : (front ++ fractionText places).isEmpty = false := by simp [hne]
  rw [Decimal.compact, hzeros, htrimmed, hnonempty]
  rfl

/-- Compacting a numeral with decimal places keeps its value. -/
theorem compact_positional (negative : Bool) (k : Nat) {p : Nat} (hp : 0 < p) :
    ∃ whole places zeros, AreDigits whole places ∧ places.length + zeros = p ∧
      ofDigits (whole ++ places) * 10 ^ zeros = k ∧
      Decimal.compact (positional ⟨negative, k, -(p : Int)⟩) =
        signText ⟨negative, k, -(p : Int)⟩ ++ (whole ++ fractionText places) := by
  obtain ⟨whole, f, h, hlength, hvalue, htext⟩ := positional_places negative k hp
  obtain ⟨places, tail, rfl, htail, hlast⟩ := Text.exists_end (· == '0') f
  have htail : ∀ c ∈ tail, c = '0' := fun c hc => eq_of_beq (htail c hc)
  have hplaces : ∀ c ∈ places, c.isDigit = true :=
    fun c hc => h.places c (List.mem_append_left _ hc)
  have hpoint (c : Char) (hc : c.isDigit = true) : c ≠ '.' := by
    rintro rfl
    cases hc
  refine ⟨whole, places, tail.length, ⟨h.ne_nil, h.whole, hplaces⟩, ?_, ?_, ?_⟩
  · rw [← hlength, List.length_append]
  · rw [← ofDigits_append_zeros, ← List.eq_replicate_of_mem htail, List.append_assoc, hvalue]
  · rw [htext, compact_point (by simp [h.ne_nil]) (fun c hc => ?_) (fun c hc => ?_) htail,
      List.append_assoc]
    · rw [List.getLast?_append_of_ne_nil _ h.ne_nil] at hc
      exact hpoint c (h.whole c (List.mem_of_getLast? hc))
    · exact ⟨beq_eq_false_iff_ne.1 (hlast c hc), hpoint c (hplaces c (List.mem_of_getLast? hc))⟩

/-- What is read from a compacted numeral is its value. -/
theorem read?_compact_positional (negative : Bool) (k : Nat) {p : Nat} (hp : 0 < p) :
    ∃ m zeros, zeros ≤ p ∧ m * 10 ^ zeros = k ∧
      read? (Decimal.compact (positional ⟨negative, k, -(p : Int)⟩)) =
        some ⟨negative, m, -((p - zeros : Nat) : Int)⟩ := by
  obtain ⟨whole, places, zeros, h, hlength, hvalue, htext⟩ := compact_positional negative k hp
  refine ⟨ofDigits (whole ++ places), zeros, by omega, hvalue, ?_⟩
  rw [htext, read?_digits h, ← hlength, Nat.add_sub_cancel]

theorem read?_decimal (n : Nat) : read? (Text.decimal n) = some ⟨false, n, 0⟩ := by
  have h : AreDigits (Text.decimal n) [] :=
    ⟨Nat.toDigits_ne_nil, Text.isDigit_decimal n, fun c hc => absurd hc List.not_mem_nil⟩
  have hread := read?_digits h ⟨false, n, 0⟩
  have htext : signText ⟨false, n, 0⟩ ++ (Text.decimal n ++ fractionText []) = Text.decimal n :=
    List.append_nil _
  rw [htext, List.append_nil, ofDigits_decimal] at hread
  exact hread

end Numeral

theorem Decimal.mem_compact {t : Text} {c : Char} (h : c ∈ compact t) : c ∈ t ∨ c = '0' := by
  rw [compact] at h
  split at h
  · exact .inr (List.mem_singleton.1 h)
  · exact .inl (((Text.dropEndWhile_sublist _ _).trans (Text.dropEndWhile_sublist _ t)).mem h)

theorem Number.mem_amount {R : Type} [Number R] {x : R} {n : Numeral}
    (h : toPlaces 3 x = .finite n) : ∀ c ∈ amount x, c ∈ Numeral.alphabet := by
  intro c hc
  rw [amount, placesText, h] at hc
  rcases Decimal.mem_compact hc with hc | rfl
  · exact n.mem_positional c hc
  · decide

end ThemeTokens
