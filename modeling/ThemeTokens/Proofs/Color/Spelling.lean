import ThemeTokens.Proofs.Color.Hex
import ThemeTokens.Proofs.Paint

/-!
# Spellings of hexadecimal colours

Which texts are read as colours, and what is left of a colour that is written and read again. Digits
are looked for among the characters of a text, but reading its bytes comes to the same: no byte of a
character outside ASCII is a digit.
-/
namespace ThemeTokens

/-! ## Digits -/

namespace Text

/-- The hexadecimal digits in either case. -/
def hexDigits : Text := "0123456789abcdefABCDEF"

def hexValue (c : Char) : Nat := (hexDigit? c).getD 0

theorem mem_hexDigits {c : Char} (h : (hexDigit? c).isSome) : c ∈ hexDigits := by
  have hpoints : ∀ n ∈ List.range' 48 10 ++ List.range' 97 6 ++ List.range' 65 6,
      Char.ofNat n ∈ hexDigits := by decide
  have hpoint : c.toNat ∈ List.range' 48 10 ++ List.range' 97 6 ++ List.range' 65 6 := by
    simp only [List.mem_append, List.mem_range'_1]
    rw [hexDigit?] at h
    split at h
    · next hdigit =>
      have hlow : 48 ≤ c.toNat := (Char.isDigit_iff_toNat.1 hdigit).1
      have hhigh : c.toNat ≤ 57 := (Char.isDigit_iff_toNat.1 hdigit).2
      omega
    split at h
    · next hlower =>
      have hlow : 97 ≤ c.toNat := hlower.1
      have hhigh : c.toNat ≤ 102 := hlower.2
      omega
    split at h
    · next hupper =>
      have hlow : 65 ≤ c.toNat := hupper.1
      have hhigh : c.toNat ≤ 70 := hupper.2
      omega
    · cases h
  have hc := hpoints c.toNat hpoint
  rwa [Char.ofNat_toNat] at hc

theorem hexDigit?_of_mem : ∀ c ∈ hexDigits, hexDigit? c = some (hexValue c) :=
  List.all_iff_forall_prop.1 (by decide)

theorem hexValue_lt : ∀ c ∈ hexDigits, hexValue c < 16 := List.all_iff_forall_prop.1 (by decide)

theorem upperDigit_hexValue : ∀ c ∈ hexDigits, Color.upperDigit (hexValue c) = c.toUpper :=
  List.all_iff_forall_prop.1 (by decide)

theorem mapM_hexDigit? {t : Text} (h : ∀ c ∈ t, c ∈ hexDigits) :
    t.mapM hexDigit? = some (t.map hexValue) := by
  induction t with
  | nil => rfl
  | cons c t ih =>
    obtain ⟨hc, ht⟩ := List.forall_mem_cons.1 h
    rw [List.mapM_cons, hexDigit?_of_mem c hc, ih ht]
    rfl

/-- Every character of a text has to be a digit. -/
theorem mem_hexDigits_of_mapM {t : Text} {digits : List Nat} (h : t.mapM hexDigit? = some digits) :
    ∀ c ∈ t, c ∈ hexDigits := by
  induction t generalizing digits with
  | nil => exact List.forall_mem_nil _
  | cons c t ih =>
    rw [List.mapM_cons, Option.bind_eq_bind, Option.bind_eq_some_iff] at h
    obtain ⟨n, hn, h⟩ := h
    rw [Option.bind_eq_bind, Option.bind_eq_some_iff] at h
    obtain ⟨rest, hrest, -⟩ := h
    exact List.forall_mem_cons.2 ⟨mem_hexDigits (Option.isSome_of_mem hn), ih hrest⟩

end Text

namespace Color

variable {R : Type} [Number R]

/-! ## Reading bytes -/

/-- The value of a byte that is a hexadecimal digit in ASCII. -/
def byteDigit? (b : UInt8) : Option Nat :=
  if 0x30 ≤ b ∧ b ≤ 0x39 then some (b.toNat - 0x30)
  else if 0x61 ≤ b ∧ b ≤ 0x66 then some (b.toNat - 0x61 + 10)
  else if 0x41 ≤ b ∧ b ≤ 0x46 then some (b.toNat - 0x41 + 10)
  else none

/-- The numbers of digits that a colour may have. -/
def hexLengths : List Nat := [3, 4, 6, 8]

/-- The bytes of a text in UTF-8. -/
def utf8 (t : Text) : List UInt8 := t.flatMap String.utf8EncodeChar

/-- Reads bytes, of which there have to be as many as a colour may have digits. -/
def ofHexBytes? (bytes : List UInt8) : Option (Color R) :=
  if bytes.length ∈ hexLengths then (bytes.mapM byteDigit?).bind ofHexDigits? else none

theorem byteDigit?_of_le {b : UInt8} (h : 0x80 ≤ b) : byteDigit? b = none := by
  have hle {d : UInt8} (hd : d < 0x80) : ¬ b ≤ d := UInt8.not_le.2 (UInt8.lt_of_lt_of_le hd h)
  rw [byteDigit?, if_neg fun hb => hle (by decide) hb.2, if_neg fun hb => hle (by decide) hb.2,
    if_neg fun hb => hle (by decide) hb.2]

theorem byteDigit?_ascii : ∀ n < 0x80,
    byteDigit? (UInt8.ofNat n) = Text.hexDigit? (Char.ofNat n) := by decide

theorem utf8EncodeChar_of_lt {c : Char} (h : c.toNat < 0x80) :
    String.utf8EncodeChar c = [UInt8.ofNat c.toNat] := by
  have hle : c.toNat ≤ 0x7f := Nat.le_of_lt_succ h
  exact if_pos hle

/-- The bytes of a character outside ASCII start above ASCII. -/
theorem utf8EncodeChar_of_le {c : Char} (h : 0x80 ≤ c.toNat) :
    ∃ b rest, String.utf8EncodeChar c = b :: rest ∧ 0x80 ≤ b := by
  have hlead {n : Nat} (hlow : 0x80 ≤ n) (hhigh : n < 256) : 0x80 ≤ UInt8.ofNat n := by
    rw [UInt8.le_iff_toNat_le, UInt8.toNat_ofNat_of_lt' hhigh]
    exact hlow
  have hle : ¬ c.toNat ≤ 0x7f := by omega
  unfold String.utf8EncodeChar
  dsimp only
  split
  · next hascii => exact absurd hascii hle
  split
  · exact ⟨_, _, rfl, hlead (by omega) (by omega)⟩
  split
  · exact ⟨_, _, rfl, hlead (by omega) (by omega)⟩
  · exact ⟨_, _, rfl, hlead (by omega) (by omega)⟩

theorem mapM_byteDigit?_utf8 (t : Text) :
    (utf8 t).mapM byteDigit? = t.mapM Text.hexDigit? := by
  have hascii : ∀ d ∈ Text.hexDigits, d.toNat < 0x80 := List.all_iff_forall_prop.1 (by decide)
  induction t with
  | nil => rfl
  | cons c t ih =>
    rw [utf8, List.flatMap_cons, ← utf8]
    by_cases hc : c.toNat < 0x80
    · have hdigit := byteDigit?_ascii c.toNat hc
      rw [Char.ofNat_toNat] at hdigit
      rw [utf8EncodeChar_of_lt hc, List.singleton_append, List.mapM_cons, List.mapM_cons, ih,
        hdigit]
    · obtain ⟨b, rest, hbytes, hb⟩ := utf8EncodeChar_of_le (not_lt.1 hc)
      have hnone : Text.hexDigit? c = none :=
        Option.not_isSome_iff_eq_none.1 fun h => hc (hascii c (Text.mem_hexDigits h))
      rw [hbytes, List.cons_append, List.mapM_cons, List.mapM_cons, byteDigit?_of_le hb, hnone]
      rfl

theorem isSome_ofHexDigits? (digits : List Nat) :
    (ofHexDigits? digits : Option (Color R)).isSome ↔ digits.length ∈ hexLengths := by
  unfold ofHexDigits?
  split
  · simp [hexLengths]
  · simp [hexLengths]
  · simp [hexLengths]
  · simp [hexLengths]
  · next h3 h4 h6 h8 =>
    refine iff_of_false Bool.false_ne_true fun hlength => ?_
    simp only [hexLengths, List.mem_cons, List.not_mem_nil, or_false] at hlength
    match digits, hlength with
    | [r, g, b], _ => exact h3 r g b rfl
    | [r, g, b, a], _ => exact h4 r g b a rfl
    | [r, r', g, g', b, b'], _ => exact h6 r r' g g' b b' rfl
    | [r, r', g, g', b, b', a, a'], _ => exact h8 r r' g g' b b' a a' rfl

theorem length_of_mapM {α β : Type} {f : α → Option β} {xs : List α} {ys : List β}
    (h : xs.mapM f = some ys) : ys.length = xs.length := by
  induction xs generalizing ys with
  | nil =>
    cases h
    rfl
  | cons x xs ih =>
    rw [List.mapM_cons, Option.bind_eq_bind, Option.bind_eq_some_iff] at h
    obtain ⟨y, -, h⟩ := h
    rw [Option.bind_eq_bind, Option.bind_eq_some_iff] at h
    obtain ⟨rest, hrest, h⟩ := h
    cases h
    rw [List.length_cons, List.length_cons, ih hrest]

/-- No other number of bytes can be the digits of a colour. -/
theorem readHex?_eq_bytes (t : Text) :
    (readHex? t : Option (Color R)) = ofHexBytes? (utf8 (hexBody t)) := by
  rw [readHex?, ← mapM_byteDigit?_utf8, ofHexBytes?]
  split
  · rfl
  · next hlength =>
    cases hdigits : (utf8 (hexBody t)).mapM byteDigit? with
    | none => rfl
    | some digits =>
      rw [Option.bind_some, ← Option.not_isSome_iff_eq_none, isSome_ofHexDigits?,
        length_of_mapM hdigits]
      exact hlength

/-! ## Spellings -/

/-- Apart from blanks around it, a text has at most one number sign and then these digits. -/
structure Spells (t digits : Text) : Prop where
  body : t.trim = digits ∨ t.trim = '#' :: digits
  digit : ∀ c ∈ digits, c ∈ Text.hexDigits
  length : digits.length ∈ hexLengths

theorem hexBody_of_digits {digits : Text} (h : ∀ c ∈ digits, c ∈ Text.hexDigits) :
    hexBody digits = digits := by
  unfold hexBody
  split
  · exact absurd (h '#' List.mem_cons_self) (by decide)
  · rfl

theorem hexBody_eq (t : Text) : t = hexBody t ∨ t = '#' :: hexBody t := by
  unfold hexBody
  split
  · exact .inr rfl
  · exact .inl rfl

theorem Spells.hexBody {t digits : Text} (h : Spells t digits) : hexBody t.trim = digits := by
  rcases h.body with hbody | hbody
  · rw [hbody, hexBody_of_digits h.digit]
  · rw [hbody]
    rfl

theorem Spells.readHex? {t digits : Text} (h : Spells t digits) :
    (readHex? t.trim : Option (Color R)) = ofHexDigits? (digits.map Text.hexValue) := by
  rw [Color.readHex?, h.hexBody, Text.mapM_hexDigit? h.digit, Option.bind_some]

theorem Spells.isSome {t digits : Text} (h : Spells t digits) :
    (ofHexDigits? (digits.map Text.hexValue) : Option (Color R)).isSome := by
  rw [isSome_ofHexDigits?, List.length_map]
  exact h.length

theorem spells_hexBody {t : Text} (h : (readHex? t.trim : Option (Color R)).isSome) :
    Spells t (hexBody t.trim) := by
  rw [Color.readHex?, Option.isSome_bind, Option.any_eq_true] at h
  obtain ⟨digits, hdigits, h⟩ := h
  rw [isSome_ofHexDigits?, length_of_mapM hdigits] at h
  exact ⟨hexBody_eq t.trim, Text.mem_hexDigits_of_mapM hdigits, h⟩

/-- A text of digits after a number sign. -/
theorem spells_sign {digits : Text} (hdigit : ∀ c ∈ digits, c ∈ Text.hexDigits)
    (hlength : digits.length ∈ hexLengths) : Spells ('#' :: digits) digits where
  body := by
    have hblank : ∀ c ∈ '#' :: Text.hexDigits, ThemeTokens.isBlank c = false :=
      List.all_iff_forall_prop.1 (by decide)
    refine .inr (Text.trim_eq_self fun c hc => hblank c ?_)
    rcases List.mem_cons.1 hc with rfl | hc
    · exact List.mem_cons_self
    · exact List.mem_cons_of_mem _ (hdigit c hc)
  digit := hdigit
  length := hlength

theorem ofHex_eq_ok_iff {t : Text} {c : Color R} : ofHex t = .ok c ↔ readHex? t.trim = some c := by
  unfold ofHex
  split
  · next d hd => rw [hd, Except.ok.injEq, Option.some.injEq]
  · next hnone => rw [hnone]; exact iff_of_false nofun nofun

theorem ofHex_error {t : Text} {e : MalformedColor}
    (h : (ofHex t : Except MalformedColor (Color R)) = .error e) : e = ⟨t⟩ := by
  unfold ofHex at h
  split at h
  · cases h
  · cases h
    rfl

theorem exists_ofHex_iff (t : Text) :
    (∃ c : Color R, ofHex t = .ok c) ↔ ∃ digits, Spells t digits := by
  simp only [ofHex_eq_ok_iff, ← Option.isSome_iff_exists]
  constructor
  · intro h
    exact ⟨_, spells_hexBody h⟩
  · rintro ⟨digits, h⟩
    rw [h.readHex?]
    exact h.isSome

/-! ## Short forms -/

/-- Every digit twice. -/
def doubled (digits : Text) : Text := digits.flatMap fun d => [d, d]

theorem ofHex_doubled {t digits : Text} (h : Spells t digits) (hshort : digits.length ≤ 4) :
    ∃ c : Color R, ofHex t = .ok c ∧ ofHex ('#' :: doubled digits) = .ok c := by
  obtain ⟨c, hc⟩ := Option.isSome_iff_exists.1 (h.isSome (R := R))
  have hdigit : ∀ d ∈ doubled digits, d ∈ Text.hexDigits := by
    intro d hd
    obtain ⟨e, he, hd⟩ := List.mem_flatMap.1 hd
    have hd : d = e := by simpa using hd
    exact hd ▸ h.digit e he
  have hlength := h.length
  have hlong : (doubled digits).length ∈ hexLengths ∧
      (ofHexDigits? ((doubled digits).map Text.hexValue) : Option (Color R)) =
        ofHexDigits? (digits.map Text.hexValue) := by
    simp only [hexLengths, List.mem_cons, List.not_mem_nil, or_false] at hlength
    match digits, hlength, hshort with
    | [r, g, b], _, _ => exact ⟨by simp [doubled, hexLengths], rfl⟩
    | [r, g, b, a], _, _ => exact ⟨by simp [doubled, hexLengths], rfl⟩
  refine ⟨c, ofHex_eq_ok_iff.2 (h.readHex?.trans hc), ofHex_eq_ok_iff.2 ?_⟩
  rw [(spells_sign hdigit hlong.1).readHex?, hlong.2, hc]

/-! ## Writing what was read -/

theorem hexPair_hexByte {high low : Char} (hhigh : high ∈ Text.hexDigits)
    (hlow : low ∈ Text.hexDigits) :
    hexPair upperDigit (hexByte (Text.hexValue high) (Text.hexValue low)) =
      [high.toUpper, low.toUpper] := by
  have hhighlt := Text.hexValue_lt high hhigh
  have hlowlt := Text.hexValue_lt low hlow
  rw [hexPair, hexByte, UInt8.toNat_ofNat_of_lt' (by change _ < 256; omega),
    show (16 * Text.hexValue high + Text.hexValue low) / 16 = Text.hexValue high by omega,
    show (16 * Text.hexValue high + Text.hexValue low) % 16 = Text.hexValue low by omega,
    Text.upperDigit_hexValue high hhigh, Text.upperDigit_hexValue low hlow]

end Color

namespace Double
open Color Binary64
variable {lib : Binary64.Elementary}

theorem hexText_solid (r g b : UInt8) : (solid r g b : Color (Double lib)).hexText =
    '#' :: (hexPair upperDigit r ++ hexPair upperDigit g ++ hexPair upperDigit b) := by
  rw [hexText_eq, hexForm, if_pos (isOpaque_solid r g b), List.append_nil]
  rfl

theorem hexText_ofByte (r g b : UInt8) {a : UInt8} (ha : a ≠ 255) :
    (ofChannels r g b (Number.ofByte a) : Color (Double lib)).hexText =
      '#' :: (hexPair upperDigit r ++ hexPair upperDigit g ++ hexPair upperDigit b ++
        hexPair upperDigit a) := by
  rw [ofChannels, clampOr_of_mem _ (ofByte_nonneg a) (ofByte_le_one a)]
  have hsheer : isOpaque (R := Double lib) ⟨r, g, b, Number.ofByte a⟩ = false :=
    decide_eq_false (mt (one_le_ofByte a).1 ha)
  rw [hexText_eq, hexForm, hsheer, if_neg Bool.false_ne_true, toByte_ofByte]

/-- Eight digits are kept if the last two are not those of an opaque colour. -/
theorem hexText_ofHex {digits : Text} (hdigit : ∀ d ∈ digits, d ∈ Text.hexDigits)
    (hlength : digits.length = 6 ∨
      digits.length = 8 ∧ (digits.drop 6).map Char.toUpper ≠ ['F', 'F']) :
    ∃ c : Color (Double lib), ofHex ('#' :: digits) = .ok c ∧
      c.hexText = '#' :: digits.map Char.toUpper := by
  match digits, hlength with
  | [r, r', g, g', b, b'], _ =>
    have h := (spells_sign hdigit (show 6 ∈ hexLengths by decide)).readHex? (R := Double lib)
    refine ⟨_, ofHex_eq_ok_iff.2 h, ?_⟩
    simp only [List.forall_mem_cons] at hdigit
    obtain ⟨hr, hr', hg, hg', hb, hb', -⟩ := hdigit
    rw [hexText_solid, hexPair_hexByte hr hr', hexPair_hexByte hg hg', hexPair_hexByte hb hb']
    rfl
  | [r, r', g, g', b, b', a, a'], hlast =>
    have h := (spells_sign hdigit (show 8 ∈ hexLengths by decide)).readHex? (R := Double lib)
    refine ⟨_, ofHex_eq_ok_iff.2 h, ?_⟩
    simp only [List.forall_mem_cons] at hdigit
    obtain ⟨hr, hr', hg, hg', hb, hb', ha, ha', -⟩ := hdigit
    have hpair := hexPair_hexByte ha ha'
    have hsheer : hexByte (Text.hexValue a) (Text.hexValue a') ≠ 255 := by
      intro hwhole
      rw [hwhole] at hpair
      exact (hlast.resolve_left (by decide : ¬ 8 = 6)).2 hpair.symm
    rw [hexText_ofByte _ _ _ hsheer, hexPair_hexByte hr hr', hexPair_hexByte hg hg',
      hexPair_hexByte hb hb', hpair]
    rfl

/-- A colour with the same channels, of which the alpha is the fraction of a byte. -/
structure IsPrinted (c d : Color (Double lib)) : Prop where
  red : d.red = c.red
  green : d.green = c.green
  blue : d.blue = c.blue
  alpha : ∃ k : UInt8, IsByteOf c.alpha k ∧ IsNearest (d.alpha : Double lib) (k.toNat / 255) ∧
    (d.isOpaque = true ↔ k = 255)

theorem toByte_of_isOpaque {c : Color (Double lib)} (hopacity : c.HasOpacity)
    (hsolid : c.isOpaque = true) : Number.toByte c.alpha = 255 := by
  have hlow := (abs_le.1 (isByteOf_toByte hopacity.1 hopacity.2).error).2
  rw [(Color.isOpaque_iff hopacity).1 hsolid] at hlow
  have hgt : (254 : ℝ) < (Number.toByte c.alpha).toNat := by linarith
  have hgt' : 254 < (Number.toByte c.alpha).toNat := by exact_mod_cast hgt
  have hlt := (Number.toByte c.alpha).toNat_lt
  exact UInt8.toNat_inj.1 (show _ = 255 by omega)

/-- An opaque colour too is printed with the fraction of its byte. -/
theorem printed_eq {c : Color (Double lib)} (h : c.HasOpacity) :
    c.printed = ⟨c.red, c.green, c.blue, Number.ofByte (Number.toByte c.alpha)⟩ := by
  unfold Color.printed
  split
  · next hsolid =>
    rw [toByte_of_isOpaque h hsolid, ofByte_whole]
    rfl
  · rw [ofChannels, clampOr_of_mem _ (ofByte_nonneg _) (ofByte_le_one _)]

theorem isPrinted_printed {c : Color (Double lib)} (h : c.HasOpacity) : IsPrinted c c.printed := by
  rw [printed_eq h]
  exact ⟨rfl, rfl, rfl, Number.toByte c.alpha, isByteOf_toByte h.1 h.2, isNearest_ofByte _,
    decide_eq_true_iff.trans (one_le_ofByte _)⟩

/-- A double next to a sixth, of which the product with 255 is rounded up to 42.5. -/
def aboutSixth : Double .platform := 0.16666666666666666

theorem toReal_aboutSixth : toReal aboutSixth = (6004799503160661 : ℕ) * 2 ^ (-55 : ℤ) :=
  toReal_of_unpack (by decide) rfl

theorem toByte_aboutSixth : Number.toByte aboutSixth = 43 := by decide +kernel

theorem aboutSixth_mem : 0.0 ≤ aboutSixth ∧ aboutSixth ≤ 1.0 := by constructor <;> decide +kernel

/-- Its byte is not the nearest one. -/
theorem abs_aboutSixth_sub_lt :
    |toReal aboutSixth - 42 / 255| < |toReal aboutSixth - 43 / 255| := by
  rw [toReal_aboutSixth, abs_of_pos (by norm_num), abs_of_neg (by norm_num)]
  norm_num

end Double

namespace Color

/-- What is read as a colour and what a hexadecimal text keeps of one. -/
structure HexNotation (lib : Binary64.Elementary) : Prop where
  accepts : ∀ t, (∃ c : Color (Double lib), ofHex t = .ok c) ↔ ∃ digits, Spells t digits
  /-- The error has the text as it was written. -/
  rejects : ∀ t, (¬ ∃ digits, Spells t digits) →
    (ofHex t : Except MalformedColor (Color (Double lib))) = .error ⟨t⟩
  bytes : ∀ t, (readHex? t : Option (Color (Double lib))) = ofHexBytes? (utf8 (hexBody t))
  doubles : ∀ t digits, Spells t digits → digits.length ≤ 4 →
    ∃ c : Color (Double lib), ofHex t = .ok c ∧ ofHex ('#' :: doubled digits) = .ok c
  /-- A colour that is read back is kept from then on. -/
  keeps : ∀ c : Color (Double lib), c.HasOpacity →
    ∃ d, ofHex c.hexText = .ok d ∧ Double.IsPrinted c d ∧ ofHex d.hexText = .ok d
  rewrites : ∀ digits : Text, (∀ d ∈ digits, d ∈ Text.hexDigits) →
    (digits.length = 6 ∨ digits.length = 8 ∧ (digits.drop 6).map Char.toUpper ≠ ['F', 'F']) →
      ∃ c : Color (Double lib), ofHex ('#' :: digits) = .ok c ∧
        c.hexText = '#' :: digits.map Char.toUpper

theorem hexNotation (lib : Binary64.Elementary) : HexNotation lib where
  accepts := exists_ofHex_iff
  rejects t h := by
    rw [← exists_ofHex_iff (R := Double lib)] at h
    cases hread : (ofHex t : Except MalformedColor (Color (Double lib))) with
    | ok c => exact absurd ⟨c, hread⟩ h
    | error e => rw [ofHex_error hread]
  bytes := readHex?_eq_bytes
  doubles _ _ := ofHex_doubled
  keeps c h := by
    refine ⟨c.printed, ofHex_hexText c, Double.isPrinted_printed h, ?_⟩
    rw [ofHex_hexText, Double.printed_printed]
  rewrites _ := Double.hexText_ofHex

/-- Not opaque, but nearer to it than to the next byte. -/
def veiled : Color (Double .platform) := ⟨1, 2, 3, 0.999⟩

/-- A short form between blanks, two characters of four bytes, a colour that is not opaque until it
is printed, and digits in both cases. -/
theorem hexNotation_edges :
    Spells " #aB3 " "aB3" ∧ (∃ c : Color (Double .platform),
      ofHex " #aB3 " = .ok c ∧ ofHex ('#' :: doubled "aB3") = .ok c) ∧
    (utf8 "éé").length = 4 ∧ (¬ ∃ digits, Spells "éé" digits) ∧
    (ofHex "éé" : Except MalformedColor (Color (Double .platform))) = .error ⟨"éé"⟩ ∧
    veiled.HasOpacity ∧ veiled.isOpaque = false ∧ (∃ d : Color (Double .platform),
      ofHex veiled.hexText = .ok d ∧ Double.IsPrinted veiled d ∧ ofHex d.hexText = .ok d) ∧
    ∃ c : Color (Double .platform), ofHex ('#' :: "12abEF80".toList) = .ok c ∧
      c.hexText = '#' :: "12ABEF80".toList := by
  have hspells : Spells " #aB3 " "aB3" :=
    ⟨.inr (by decide), List.all_iff_forall_prop.1 (by decide), by decide⟩
  have hbytes : ¬ ∃ digits, Spells "éé" digits := by
    rintro ⟨digits, ⟨rfl | hsign, hdigit, -⟩⟩
    · exact absurd (hdigit 'é' List.mem_cons_self) (by decide)
    · have hhead : some 'é' = some '#' := congrArg List.head? hsign
      exact absurd hhead (by decide)
  have hopacity : veiled.HasOpacity := by constructor <;> decide +kernel
  have h := hexNotation .platform
  exact ⟨hspells, h.doubles _ _ hspells (by decide), by decide, hbytes, h.rejects _ hbytes,
    hopacity, by decide +kernel, h.keeps veiled hopacity,
    h.rewrites "12abEF80" (List.all_iff_forall_prop.1 (by decide)) (by decide)⟩

def sixth : Color (Double .platform) := ⟨0, 0, 0, Double.aboutSixth⟩

/-- The byte of the sixth is not the nearest one, as a real fraction or as a double. -/
theorem printed_sixth : sixth.HasOpacity ∧ ∃ d : Color (Double .platform),
    ofHex sixth.hexText = .ok d ∧ d.alpha = Number.ofByte 43 ∧
    |Double.toReal sixth.alpha - 42 / 255| < |Double.toReal sixth.alpha - 43 / 255| ∧
    |Double.toReal sixth.alpha - Double.toReal (Number.ofByte 42 : Double .platform)| <
      |Double.toReal sixth.alpha - Double.toReal d.alpha| := by
  have hsixth : Double.toReal sixth.alpha = (6004799503160661 : ℕ) * 2 ^ (-55 : ℤ) :=
    Double.toReal_aboutSixth
  have hlow : Double.toReal (Number.ofByte 42 : Double .platform) =
      (5934154803123477 : ℕ) * 2 ^ (-55 : ℤ) :=
    Double.toReal_of_unpack (by decide) rfl
  have hhigh : Double.toReal (Number.ofByte 43 : Double .platform) =
      (6075444203197846 : ℕ) * 2 ^ (-55 : ℤ) :=
    Double.toReal_of_unpack (by decide) rfl
  have hopacity : sixth.HasOpacity := Double.aboutSixth_mem
  have hbyte : Number.toByte sixth.alpha = 43 := Double.toByte_aboutSixth
  have halpha : sixth.printed.alpha = Number.ofByte 43 := by
    rw [Double.printed_eq hopacity, hbyte]
  refine ⟨hopacity, sixth.printed, ofHex_hexText sixth, halpha, Double.abs_aboutSixth_sub_lt, ?_⟩
  rw [halpha, hsixth, hlow, hhigh, abs_of_pos (by norm_num), abs_of_neg (by norm_num)]
  norm_num

end Color

end ThemeTokens
