import ThemeTokens.Color.Literal
import ThemeTokens.Proofs.Binary64.Byte
import ThemeTokens.Proofs.Text

/-!
# Hexadecimal texts

What a colour is after it was written with hexadecimal digits and read again: its channels are the
same, and its alpha is the fraction of a byte.
-/
namespace ThemeTokens

namespace Color
variable {R : Type} [Number R]

/-- The colour that a hexadecimal text keeps. -/
def printed (c : Color R) : Color R :=
  if c.isOpaque then solid c.red c.green c.blue
  else ofChannels c.red c.green c.blue (Number.ofByte (Number.toByte c.alpha))

/-! ## Digits -/

theorem hexDigit?_upperDigit : ∀ n < 16, Text.hexDigit? (upperDigit n) = some n := by decide

theorem hexDigit?_lowerDigit :
    ∀ n < 16, Text.hexDigit? (upperDigit n).toLower = some n := by decide

theorem isBlank_upperDigit : ∀ n < 16, ThemeTokens.isBlank (upperDigit n) = false := by decide

theorem hexByte_digits (b : UInt8) : hexByte (b.toNat / 16) (b.toNat % 16) = b := by
  rw [hexByte, Nat.div_add_mod, UInt8.ofNat_toNat]

/-- The text of a colour with other digits, such as those in lower case. -/
def hexForm (digit : Nat → Char) (c : Color R) : Text :=
  '#' :: (hexPair digit c.red ++ hexPair digit c.green ++ hexPair digit c.blue ++
    if c.isOpaque then [] else hexPair digit (Number.toByte c.alpha))

theorem hexText_eq (c : Color R) : c.hexText = hexForm upperDigit c := by
  unfold hexText hexForm
  dsimp only
  split <;> simp

theorem lower_hexText (c : Color R) :
    c.hexText.lower = hexForm (fun n => (upperDigit n).toLower) c := by
  rw [hexText_eq]
  unfold hexForm Text.lower
  split <;> simp [hexPair]

theorem mapM_hexPair {digit : Nat → Char} (h : ∀ n < 16, Text.hexDigit? (digit n) = some n)
    (b : UInt8) (t : Text) : (hexPair digit b ++ t).mapM Text.hexDigit? =
      (t.mapM Text.hexDigit?).map fun digits => b.toNat / 16 :: b.toNat % 16 :: digits := by
  have hhigh : b.toNat / 16 < 16 := Nat.div_lt_of_lt_mul b.toNat_lt
  have hlow : b.toNat % 16 < 16 := Nat.mod_lt _ (by decide)
  simp only [hexPair, List.cons_append, List.nil_append, List.mapM_cons, h _ hhigh, h _ hlow]
  cases t.mapM Text.hexDigit? <;> rfl

theorem readHex?_hexForm {digit : Nat → Char}
    (h : ∀ n < 16, Text.hexDigit? (digit n) = some n) (c : Color R) :
    readHex? (hexForm digit c) = some c.printed := by
  have hbytes := hexByte_digits
  rw [readHex?, hexForm, hexBody, printed]
  simp only [List.append_assoc, mapM_hexPair h]
  split
  · simp [ofHexDigits?, hbytes]
  · have halpha := mapM_hexPair h (Number.toByte c.alpha) []
    rw [List.append_nil] at halpha
    simp [halpha, ofHexDigits?, hbytes]

/-! ## Reading what was written -/

theorem forall_mem_hexPair {p : Char → Prop} {digit : Nat → Char}
    (hdigit : ∀ n < 16, p (digit n)) (b : UInt8) : ∀ d ∈ hexPair digit b, p d :=
  List.forall_mem_cons.2 ⟨hdigit _ (Nat.div_lt_of_lt_mul b.toNat_lt),
    List.forall_mem_singleton.2 (hdigit _ (Nat.mod_lt _ (by decide)))⟩

/-- What holds of the number sign and of every digit holds of the whole text. -/
theorem forall_mem_hexText {p : Char → Prop} (hsign : p '#')
    (hdigit : ∀ n < 16, p (upperDigit n)) (c : Color R) : ∀ d ∈ c.hexText, p d := by
  have hpair := forall_mem_hexPair hdigit
  intro d hd
  rw [hexText_eq, hexForm] at hd
  rcases List.mem_cons.1 hd with rfl | hd
  · exact hsign
  · simp only [List.mem_append] at hd
    rcases hd with ((hd | hd) | hd) | hd
    · exact hpair _ d hd
    · exact hpair _ d hd
    · exact hpair _ d hd
    · split at hd
      · cases hd
      · exact hpair _ d hd

theorem isBlank_hexText (c : Color R) : ∀ d ∈ c.hexText, ThemeTokens.isBlank d = false :=
  forall_mem_hexText (p := fun d => ThemeTokens.isBlank d = false) rfl isBlank_upperDigit c

theorem ofHex_hexText (c : Color R) : ofHex c.hexText = .ok c.printed := by
  rw [ofHex, Text.trim_eq_self c.isBlank_hexText, hexText_eq, readHex?_hexForm hexDigit?_upperDigit]

theorem ofName?_eq_none {t : Text} {first : Char} (ht : t.head? = some first)
    (h : ∀ k : Keyword, k.name.head? ≠ some first) : Keyword.ofName? t = none := by
  rw [Keyword.ofName?, List.find?_eq_none]
  intro k _ hk
  rw [← eq_of_beq hk] at ht
  exact h k ht

theorem lower_lower_hexText (c : Color R) : c.hexText.lower.lower = c.hexText.lower := by
  refine Text.lower_eq_self fun d hd => ?_
  obtain ⟨e, he, rfl⟩ := List.mem_map.1 hd
  exact forall_mem_hexText (p := fun e => e.toLower.toLower = e.toLower) (by decide) (by decide) c
    e he

theorem readLower?_lower_hexText (c : Color R) : readLower? c.hexText.lower = some c.printed := by
  rw [lower_hexText]
  have hhead : (hexForm (fun n => (upperDigit n).toLower) c).head? = some '#' := rfl
  have hkeyword := ofName?_eq_none hhead fun k => by cases k <;> decide
  simp only [readLower?, hkeyword, hhead, if_true, readHex?_hexForm hexDigit?_lowerDigit]

theorem ofLiteral_hexText (c : Color R) : ofLiteral c.hexText = .ok c.printed := by
  rw [ofLiteral, Text.trim_eq_self c.isBlank_hexText, readLower?_lower_hexText]

theorem isBlank_lower_hexText (c : Color R) :
    ∀ d ∈ c.hexText.lower, ThemeTokens.isBlank d = false := by
  intro d hd
  obtain ⟨e, he, rfl⟩ := List.mem_map.1 hd
  exact forall_mem_hexText (p := fun e => ThemeTokens.isBlank e.toLower = false) (by decide)
    (by decide) c e he

theorem ofLiteral_lower_hexText (c : Color R) : ofLiteral c.hexText.lower = .ok c.printed := by
  rw [ofLiteral, Text.trim_eq_self c.isBlank_lower_hexText, lower_lower_hexText,
    readLower?_lower_hexText]

theorem looksLikeLiteral_of_sign {t : Text} (h : t.trim.lower.head? = some '#') :
    looksLikeLiteral t = true := by
  rw [looksLikeLiteral, h]
  rfl

theorem looksLikeLiteral_hexText (c : Color R) : looksLikeLiteral c.hexText = true := by
  refine looksLikeLiteral_of_sign ?_
  rw [Text.trim_eq_self c.isBlank_hexText, lower_hexText]
  rfl

theorem looksLikeLiteral_lower_hexText (c : Color R) : looksLikeLiteral c.hexText.lower = true := by
  refine looksLikeLiteral_of_sign ?_
  rw [Text.trim_eq_self c.isBlank_lower_hexText, lower_lower_hexText, lower_hexText]
  rfl

/-- What is reported is the text as it was written. -/
theorem ofLiteral_error {t : Text} {e : MalformedColor}
    (h : (ofLiteral t : Except MalformedColor (Color R)) = .error e) : e = ⟨t⟩ := by
  rw [ofLiteral] at h
  split at h
  · cases h
  · injection h with h
    exact h.symm

end Color

/-! ## Writing what was read -/

namespace Double
variable {lib : Binary64.Elementary}

theorem isOpaque_solid (r g b : UInt8) : (Color.solid r g b : Color (Double lib)).isOpaque :=
  decide_eq_true ((le_iff finite_one finite_one).2 le_rfl)

theorem printed_solid (r g b : UInt8) :
    (Color.solid r g b : Color (Double lib)).printed = Color.solid r g b := by
  rw [Color.printed, if_pos (isOpaque_solid r g b)]
  rfl

theorem printed_ofByte (r g b a : UInt8) :
    (Color.ofChannels r g b (Number.ofByte a) : Color (Double lib)).printed =
      Color.ofChannels r g b (Number.ofByte a) := by
  rw [Color.ofChannels, clampOr_of_mem _ (ofByte_nonneg a) (ofByte_le_one a)]
  by_cases ha : a = 255
  · rw [ha, ofByte_whole]
    exact printed_solid r g b
  · have hsheer : Color.isOpaque (R := Double lib) ⟨r, g, b, Number.ofByte a⟩ = false :=
      decide_eq_false (mt (one_le_ofByte a).1 ha)
    rw [Color.printed, hsheer, if_neg Bool.false_ne_true, Color.ofChannels, toByte_ofByte,
      clampOr_of_mem _ (ofByte_nonneg a) (ofByte_le_one a)]

/-- A colour that was printed once is printed as it is. -/
theorem printed_printed (c : Color (Double lib)) : c.printed.printed = c.printed := by
  have hprinted : c.printed = Color.solid c.red c.green c.blue ∨
      c.printed = Color.ofChannels c.red c.green c.blue
        (Number.ofByte (Number.toByte c.alpha)) := by
    unfold Color.printed
    split
    · exact .inl rfl
    · exact .inr rfl
  rcases hprinted with h | h
  · rw [h, printed_solid]
  · rw [h, printed_ofByte]

end Double

end ThemeTokens
