import ThemeTokens.Proofs.Binary64.Numeral
import ThemeTokens.Proofs.Color.Literal
import ThemeTokens.Proofs.Color.Spelling
import ThemeTokens.Proofs.Numeral.Grammar

/-!
# The grammar of colour literals

Which texts are literals, and of which colours. A literal in functional notation has three channels
and may have an alpha; each of them is a number or a percentage, and what is out of range is no
literal at all rather than the nearest colour.
-/
namespace ThemeTokens

namespace Text

/-- The letters that have another letter for their lower case. -/
def capitals : Text := "ABCDEFGHIJKLMNOPQRSTUVWXYZ"

theorem mem_capitals_or_toLower_eq (c : Char) : c ∈ capitals ∨ c.toLower = c := by
  unfold Char.toLower
  split
  · next h =>
    have hpoints : ∀ n ∈ List.range' 65 26, Char.ofNat n ∈ capitals := by decide
    have hlow : 65 ≤ c.toNat := h.1
    have hhigh : c.toNat ≤ 90 := h.2
    have hc := hpoints c.toNat (List.mem_range'_1.2 ⟨hlow, by omega⟩)
    rw [Char.ofNat_toNat] at hc
    exact .inl hc
  · exact .inr rfl

theorem hexDigit?_toLower (c : Char) : hexDigit? c.toLower = hexDigit? c := by
  have hcapital : ∀ d ∈ capitals, hexDigit? d.toLower = hexDigit? d :=
    List.all_iff_forall_prop.1 (by decide)
  rcases mem_capitals_or_toLower_eq c with hc | hc
  · exact hcapital c hc
  · rw [hc]

end Text

namespace Double
open Binary64
variable {lib : Elementary}

/-! ## Numbers and percentages -/

/-- A text that is a number as a whole, and the double nearest to that. -/
def IsNumber (t : Text) (x : Double lib) : Prop :=
  ∃ n, Numeral.Writes t n ∧ x = Number.ofNumeral n ∧ IsNearest x (Exact.value n)

/-- A number, or a percentage of which `scale` makes a number. -/
inductive IsPart (scale : Double lib → Double lib) : Text → Double lib → Prop
  | number {t : Text} {x : Double lib} (h : IsNumber t x) : IsPart scale t x
  | percentage {t : Text} {x : Double lib} (h : IsNumber t.trim x) :
      IsPart scale (t ++ ['%']) (scale x)

theorem read?_eq_some_iff {t : Text} {x : Double lib} :
    Number.read? t = some x ↔ IsNumber t x := by
  rw [Number.read?, Option.bind_eq_some_iff]
  constructor
  · rintro ⟨n, hn, hx⟩
    dsimp only at hx
    split at hx
    · next hfinite =>
      cases hx
      exact ⟨n, Numeral.read?_eq_some_iff.1 hn, rfl, isNearest_ofNumeral_of_isFinite hfinite⟩
    · cases hx
  · rintro ⟨n, hn, rfl, hnearest⟩
    exact ⟨n, Numeral.read?_eq_some_iff.2 hn, if_pos hnearest.isFinite⟩

theorem IsNumber.not_percentage {t : Text} {x : Double lib} (h : IsNumber t x) :
    Text.beforeLast? '%' t = none := by
  obtain ⟨n, hn, -⟩ := h
  exact Text.beforeLast?_eq_none fun hmem => absurd (hn.mem _ hmem) (by decide)

theorem readPart?_eq_some_iff {scale : Double lib → Double lib} {t : Text} {x : Double lib} :
    Number.readPart? scale t = some x ↔ IsPart scale t x := by
  constructor
  · intro h
    rw [Number.readPart?] at h
    split at h
    · next percent hpercent =>
      obtain ⟨y, hy, rfl⟩ := Option.map_eq_some_iff.1 h
      rw [Text.beforeLast?_eq_some_iff.1 hpercent]
      exact .percentage (read?_eq_some_iff.1 hy)
    · exact .number (read?_eq_some_iff.1 h)
  · intro h
    rw [Number.readPart?]
    cases h with
    | number h =>
      rw [h.not_percentage]
      exact read?_eq_some_iff.2 h
    | percentage h =>
      rw [Text.beforeLast?_append]
      exact Option.map_eq_some_iff.2 ⟨_, read?_eq_some_iff.2 h, rfl⟩

/-! ## Channels and alphas -/

/-- A byte, and a number between 0 and 255 to which it is the nearest, a half going up. -/
structure RoundsToByte (x : Double lib) (b : UInt8) : Prop where
  finite : Finite x
  nonneg : 0 ≤ toReal x
  le_whole : toReal x ≤ 255
  le_half : (b.toNat : ℝ) ≤ toReal x + 1 / 2
  half_lt : toReal x + 1 / 2 < b.toNat + 1

/-- A text that stands for the channel. The whole of a percentage is 255. -/
def IsChannel (lib : Elementary) (t : Text) (b : UInt8) : Prop :=
  ∃ x : Double lib, IsPart (fun p => p / 100.0 * 255.0) t x ∧ RoundsToByte x b

/-- A text that stands for the alpha. The whole of a percentage is one. -/
def IsAlpha (t : Text) (x : Double lib) : Prop := IsPart (fun p => p / 100.0) t x ∧ InUnit x

theorem roundsToByte_iff {x : Double lib} {b : UInt8} :
    (0.0 ≤ x ∧ x ≤ 255.0) ∧ UInt8.ofNat (Number.round x) = b ↔ RoundsToByte x b := by
  constructor
  · rintro ⟨⟨h0, h255⟩, rfl⟩
    have hfinite : Finite x := isFinite_of_between finite_zero (@finite_wholeByte lib) h0 h255
    rw [le_iff finite_zero hfinite, toReal_zero] at h0
    rw [le_iff hfinite finite_wholeByte, toReal_wholeByte] at h255
    have hround := round_eq_floor x
    rw [max_eq_right h0, eq_comm, Nat.floor_eq_iff (by positivity)] at hround
    have hlt : Number.round x < 256 := by
      have : (Number.round x : ℝ) < 256 := by linarith [hround.1]
      exact_mod_cast this
    refine ⟨hfinite, h0, h255, ?_, ?_⟩
    · rw [UInt8.toNat_ofNat_of_lt' hlt]
      exact hround.1
    · rw [UInt8.toNat_ofNat_of_lt' hlt]
      exact hround.2
  · rintro ⟨hfinite, h0, h255, hlow, hhigh⟩
    have hround : Number.round x = b.toNat := by
      rw [round_eq_floor, max_eq_right h0, Nat.floor_eq_iff (by positivity)]
      exact ⟨hlow, hhigh⟩
    refine ⟨⟨?_, ?_⟩, ?_⟩
    · rwa [le_iff finite_zero hfinite, toReal_zero]
    · rwa [le_iff hfinite finite_wholeByte, toReal_wholeByte]
    · rw [hround, UInt8.ofNat_toNat]

theorem inUnit_iff {x : Double lib} : 0.0 ≤ x ∧ x ≤ 1.0 ↔ InUnit x := by
  constructor
  · rintro ⟨h0, h1⟩
    exact .of_mem h0 h1
  · rintro ⟨hfinite, h0, h1⟩
    rw [le_iff finite_zero hfinite, le_iff hfinite finite_one, toReal_zero, toReal_one]
    exact ⟨h0, h1⟩

theorem readChannel?_eq_some_iff {t : Text} {b : UInt8} :
    Color.readChannel? (Double lib) t = some b ↔ IsChannel lib t b := by
  rw [Color.readChannel?, Option.bind_eq_some_iff]
  refine exists_congr fun x => and_congr readPart?_eq_some_iff ?_
  rw [Option.ite_none_right_eq_some, Option.some.injEq, roundsToByte_iff]

theorem readAlpha?_eq_some_iff {t : Text} {x : Double lib} :
    Color.readAlpha? t = some x ↔ IsAlpha t x := by
  rw [Color.readAlpha?, Option.bind_eq_some_iff, IsAlpha, ← readPart?_eq_some_iff, ← inUnit_iff]
  constructor
  · rintro ⟨y, hy, h⟩
    rw [Option.ite_none_right_eq_some, Option.some.injEq] at h
    obtain ⟨hmem, rfl⟩ := h
    exact ⟨hy, hmem⟩
  · rintro ⟨hx, hmem⟩
    exact ⟨x, hx, if_pos hmem⟩

end Double

namespace Color

/-! ## Arguments -/

/-- The texts of the channels, and of the alpha if there is one, between two parentheses. -/
inductive Divides : Text → Text → Text → Text → Option Text → Prop
  | commas {r g b : Text} (h : ∀ t ∈ [r, g, b], ',' ∉ t) :
      Divides (Text.join [','] [r, g, b]) r.trim g.trim b.trim none
  | commasAlpha {r g b a : Text} (h : ∀ t ∈ [r, g, b, a], ',' ∉ t) :
      Divides (Text.join [','] [r, g, b, a]) r.trim g.trim b.trim (some a.trim)
  | blanks {t r g b : Text} (hcomma : ',' ∉ t) (hslash : '/' ∉ t) (hwords : t.words = [r, g, b]) :
      Divides t r g b none
  | blanksAlpha {t a r g b : Text} (hcomma : ',' ∉ t ++ '/' :: a) (hslash : '/' ∉ t)
      (hwords : t.words = [r, g, b]) : Divides (t ++ '/' :: a) r g b (some a.trim)

theorem mem_comma_join {piece next : Text} {rest : List Text} :
    ',' ∈ Text.join [','] (piece :: next :: rest) := by
  rw [Text.join_cons]
  exact List.mem_append_right _ List.mem_cons_self

theorem Divides.arguments {body r g b : Text} {alpha : Option Text}
    (h : Divides body r g b alpha) : arguments body = ([r, g, b], alpha) := by
  rw [Color.arguments]
  cases h with
  | commas h =>
    rw [if_pos mem_comma_join, Text.split_eq_iff.2 ⟨rfl, h⟩]
    rfl
  | commasAlpha h =>
    rw [if_pos mem_comma_join, Text.split_eq_iff.2 ⟨rfl, h⟩]
    rfl
  | blanks hcomma hslash hwords =>
    rw [if_neg hcomma, Text.cutFirst?_eq_none_iff.2 hslash]
    exact congrArg (·, none) hwords
  | blanksAlpha hcomma hslash hwords =>
    rw [if_neg hcomma, Text.cutFirst?_eq_some_iff.2 ⟨rfl, hslash⟩]
    exact congrArg (·, _) hwords

theorem divides_of_arguments {body r g b : Text} {alpha : Option Text}
    (h : arguments body = ([r, g, b], alpha)) : Divides body r g b alpha := by
  rw [arguments] at h
  split at h
  · obtain ⟨piece, rest, hsplit⟩ := Text.exists_split ',' body
    obtain ⟨rfl, hcomma⟩ := Text.split_eq_iff.1 hsplit
    rw [hsplit] at h
    -- Only three and four pieces leave three channels.
    rcases rest with _ | ⟨green, _ | ⟨blue, _ | ⟨last, _ | ⟨_, _⟩⟩⟩⟩
    · cases h
    · cases h
    · cases h
      exact .commas hcomma
    · cases h
      exact .commasAlpha hcomma
    · cases h
  · next hcomma =>
    split at h
    · next channels a hcut =>
      obtain ⟨rfl, hslash⟩ := Text.cutFirst?_eq_some_iff.1 hcut
      obtain ⟨hwords, rfl⟩ := Prod.mk.inj h
      exact .blanksAlpha hcomma hslash hwords
    · next hcut =>
      obtain ⟨hwords, rfl⟩ := Prod.mk.inj h
      exact .blanks hcomma (Text.cutFirst?_eq_none_iff.1 hcut) hwords

theorem arguments_eq_iff {body r g b : Text} {alpha : Option Text} :
    arguments body = ([r, g, b], alpha) ↔ Divides body r g b alpha :=
  ⟨divides_of_arguments, Divides.arguments⟩

/-! ## Literals -/

section
variable {lib : Binary64.Elementary} {R : Type} [Number R]
open Double (IsChannel IsAlpha)

/-- What stands between two parentheses, and the colour that it means. -/
inductive IsFunction : Text → Color (Double lib) → Prop
  | solid {body r g b : Text} {red green blue : UInt8} (h : Divides body r g b none)
      (hred : IsChannel lib r red) (hgreen : IsChannel lib g green) (hblue : IsChannel lib b blue) :
      IsFunction body (solid red green blue)
  | sheer {body r g b a : Text} {red green blue : UInt8} {alpha : Double lib}
      (h : Divides body r g b (some a)) (hred : IsChannel lib r red)
      (hgreen : IsChannel lib g green) (hblue : IsChannel lib b blue) (halpha : IsAlpha a alpha) :
      IsFunction body ⟨red, green, blue, alpha⟩

/-- The texts in lower case, without blanks around them, that are literals. -/
inductive IsLiteral : Text → Color (Double lib) → Prop
  | keyword (k : Keyword) : IsLiteral k.name k.color
  | hex {digits : Text} {c : Color (Double lib)} (hdigit : ∀ d ∈ digits, d ∈ Text.hexDigits)
      (hc : ofHexDigits? (digits.map Text.hexValue) = some c) : IsLiteral ('#' :: digits) c
  | rgb {body : Text} {c : Color (Double lib)} (h : IsFunction body c) :
      IsLiteral ("rgb(".toList ++ (body ++ [')'])) c
  | rgba {body : Text} {c : Color (Double lib)} (h : IsFunction body c) :
      IsLiteral ("rgba(".toList ++ (body ++ [')'])) c

theorem functionBody?_eq_some_iff {t rest : Text} :
    functionBody? t = some rest ↔ t = "rgba(".toList ++ rest ∨ t = "rgb(".toList ++ rest := by
  rw [functionBody?, Option.orElse_eq_or, Option.or_eq_some_iff, Text.after?_eq_some_iff,
    Text.after?_eq_some_iff]
  -- The longer name is tried first, and no text has both.
  refine or_congr_right (and_iff_right_of_imp ?_)
  rintro rfl
  rfl

theorem ofChannels_of_inUnit {red green blue : UInt8} {x : Double lib} (h : Double.InUnit x) :
    ofChannels red green blue x = ⟨red, green, blue, x⟩ := by
  obtain ⟨h0, h1⟩ := Double.inUnit_iff.2 h
  rw [ofChannels, Double.clampOr_of_mem _ h0 h1]

theorem ofChannels_one {red green blue : UInt8} :
    (ofChannels red green blue 1.0 : Color (Double lib)) = solid red green blue :=
  ofChannels_of_inUnit ⟨Double.finite_one, by rw [Double.toReal_one]; exact zero_le_one,
    Double.toReal_one.le⟩

theorem Divides.readArguments? {body r g b : Text} {alpha : Option Text}
    (h : Divides body r g b alpha) {c : Color (Double lib)} :
    readArguments? body = some c ↔ ∃ red, IsChannel lib r red ∧ ∃ green, IsChannel lib g green ∧
      ∃ blue, IsChannel lib b blue ∧ match alpha with
        | some a => ∃ x, IsAlpha a x ∧ ⟨red, green, blue, x⟩ = c
        | none => solid red green blue = c := by
  simp only [Color.readArguments?, h.arguments, Option.bind_eq_bind, Option.bind_eq_some_iff,
    Double.readChannel?_eq_some_iff, Option.pure_def]
  refine exists_congr fun red => and_congr_right fun _ => exists_congr fun green =>
    and_congr_right fun _ => exists_congr fun blue => and_congr_right fun _ => ?_
  cases alpha with
  | none =>
    dsimp only
    rw [Option.bind_some, ofChannels_one, Option.some.injEq]
  | some a =>
    dsimp only
    rw [Option.bind_eq_some_iff]
    refine exists_congr fun x => ?_
    rw [Double.readAlpha?_eq_some_iff]
    refine and_congr_right fun halpha => ?_
    rw [ofChannels_of_inUnit halpha.2, Option.some.injEq]

theorem readArguments?_eq_some_iff {body : Text} {c : Color (Double lib)} :
    readArguments? body = some c ↔ IsFunction body c := by
  constructor
  · intro h
    obtain ⟨r, g, b, alpha, hdivides⟩ : ∃ r g b alpha, Divides body r g b alpha := by
      unfold readArguments? at h
      split at h
      · next harguments => exact ⟨_, _, _, _, arguments_eq_iff.1 harguments⟩
      · cases h
    obtain ⟨red, hred, green, hgreen, blue, hblue, h⟩ := hdivides.readArguments?.1 h
    cases alpha with
    | none =>
      obtain rfl := h
      exact .solid hdivides hred hgreen hblue
    | some a =>
      obtain ⟨x, halpha, rfl⟩ := h
      exact .sheer hdivides hred hgreen hblue halpha
  · intro h
    cases h with
    | solid h hred hgreen hblue =>
      exact h.readArguments?.2 ⟨_, hred, _, hgreen, _, hblue, rfl⟩
    | sheer h hred hgreen hblue halpha =>
      exact h.readArguments?.2 ⟨_, hred, _, hgreen, _, hblue, _, halpha, rfl⟩

theorem ofName?_eq_some_iff {t : Text} {k : Keyword} : Keyword.ofName? t = some k ↔ t = k.name := by
  constructor
  · intro h
    have hname : (k.name == t) = true := List.find?_some (p := fun k : Keyword => k.name == t) h
    exact (eq_of_beq hname).symm
  · rintro rfl
    cases k <;> rfl

theorem isLiteral_of_readLower? {t : Text} {c : Color (Double lib)} (h : readLower? t = some c) :
    IsLiteral t c := by
  rw [readLower?] at h
  split at h
  · next k hk =>
    cases h
    rw [ofName?_eq_some_iff.1 hk]
    exact .keyword k
  split at h
  · next hsign =>
    obtain ⟨digits, rfl⟩ := List.head?_eq_some_iff.1 hsign
    obtain ⟨values, hvalues, hc⟩ := Option.bind_eq_some_iff.1 h
    have hdigit := Text.mem_hexDigits_of_mapM hvalues
    obtain rfl := Option.some.inj (hvalues.symm.trans (Text.mapM_hexDigit? hdigit))
    exact .hex hdigit hc
  · obtain ⟨body, hbody, hc⟩ := Option.bind_eq_some_iff.1 h
    obtain ⟨rest, hrest, hbody⟩ := Option.bind_eq_some_iff.1 hbody
    have hfunction := readArguments?_eq_some_iff.1 hc
    obtain rfl := Text.beforeLast?_eq_some_iff.1 hbody
    rcases functionBody?_eq_some_iff.1 hrest with rfl | rfl
    · exact .rgba hfunction
    · exact .rgb hfunction

theorem readLower?_sign (digits : Text) :
    (readLower? ('#' :: digits) : Option (Color R)) = readHex? ('#' :: digits) := by
  have hkeyword : Keyword.ofName? ('#' :: digits) = none :=
    ofName?_eq_none rfl fun k => by cases k <;> decide
  rw [readLower?, hkeyword]
  exact if_pos rfl

theorem readLower?_functionBody {t rest : Text} (h : functionBody? t = some rest) :
    (readLower? t : Option (Color R)) = (Text.beforeLast? ')' rest).bind readArguments? := by
  have hhead : t.head? = some 'r' := by
    rcases functionBody?_eq_some_iff.1 h with rfl | rfl <;> rfl
  have hkeyword := ofName?_eq_none hhead fun k => by cases k <;> decide
  have hsign : ¬ t.head? = some '#' := by
    rw [hhead]
    decide
  rw [readLower?, hkeyword]
  dsimp only
  rw [if_neg hsign, h, Option.bind_some]

theorem IsLiteral.readLower? {t : Text} {c : Color (Double lib)} (h : IsLiteral t c) :
    readLower? t = some c := by
  cases h with
  | keyword k => rw [Color.readLower?, ofName?_eq_some_iff.2 rfl]
  | hex hdigit hc =>
    rw [readLower?_sign, readHex?, hexBody, Text.mapM_hexDigit? hdigit, Option.bind_some]
    exact hc
  | rgb h =>
    rw [readLower?_functionBody (functionBody?_eq_some_iff.2 (.inr rfl)), Text.beforeLast?_append]
    exact readArguments?_eq_some_iff.2 h
  | rgba h =>
    rw [readLower?_functionBody (functionBody?_eq_some_iff.2 (.inl rfl)), Text.beforeLast?_append]
    exact readArguments?_eq_some_iff.2 h

theorem readLower?_eq_some_iff {t : Text} {c : Color (Double lib)} :
    readLower? t = some c ↔ IsLiteral t c :=
  ⟨isLiteral_of_readLower?, IsLiteral.readLower?⟩

theorem ofLiteral_eq_ok_iff {t : Text} {c : Color R} :
    ofLiteral t = .ok c ↔ readLower? t.trim.lower = some c := by
  rw [ofLiteral]
  split
  · next hread => rw [hread, Except.ok.injEq, Option.some.injEq]
  · next hread =>
    rw [hread]
    exact iff_of_false (fun h => by cases h) fun h => by cases h

theorem ofLiteral_eq_ok_iff_isLiteral {t : Text} {c : Color (Double lib)} :
    ofLiteral t = .ok c ↔ IsLiteral t.trim.lower c :=
  ofLiteral_eq_ok_iff.trans readLower?_eq_some_iff

/-- A text that starts like a function is a literal only if it goes on like one. -/
theorem isLiteral_function_iff {t rest : Text} {c : Color (Double lib)}
    (ht : t = "rgba(".toList ++ rest ∨ t = "rgb(".toList ++ rest) :
    IsLiteral t c ↔ ∃ body, rest = body ++ [')'] ∧ IsFunction body c := by
  rw [← readLower?_eq_some_iff, readLower?_functionBody (functionBody?_eq_some_iff.2 ht),
    Option.bind_eq_some_iff]
  exact exists_congr fun body =>
    and_congr Text.beforeLast?_eq_some_iff readArguments?_eq_some_iff

theorem looksLikeLiteral_of_isLiteral {t : Text} {c : Color (Double lib)}
    (h : IsLiteral t.trim.lower c) : looksLikeLiteral t = true := by
  rw [looksLikeLiteral]
  -- Both look at the same text, of which the form is all that counts.
  generalize t.trim.lower = u at h
  simp only [Bool.or_eq_true, decide_eq_true_eq]
  cases h with
  | keyword k => exact .inr (Option.isSome_of_mem (ofName?_eq_some_iff.2 rfl))
  | hex => exact .inl (.inl rfl)
  | rgb => exact .inl (.inr (Option.isSome_of_mem (functionBody?_eq_some_iff.2 (.inr rfl))))
  | rgba => exact .inl (.inr (Option.isSome_of_mem (functionBody?_eq_some_iff.2 (.inl rfl))))

end

/-! ## Digits in capitals -/

/-- Digits in lower case have the same values. -/
theorem readHex?_lower {R : Type} [Number R] (digits : Text) :
    (readHex? ('#' :: digits.lower) : Option (Color R)) = readHex? ('#' :: digits) := by
  have hdigit : Text.hexDigit? ∘ Char.toLower = Text.hexDigit? := funext Text.hexDigit?_toLower
  rw [readHex?, readHex?, hexBody, hexBody, Text.lower, List.mapM_map, hdigit]

/-- After a number sign a literal is read in the case in which it is written. -/
theorem ofLiteral_sign_iff {R : Type} [Number R] {t : Text} (hsign : t.trim.head? = some '#')
    {c : Color R} : ofLiteral t = .ok c ↔ ofHex t = .ok c := by
  obtain ⟨digits, hdigits⟩ := List.head?_eq_some_iff.1 hsign
  have hlower : t.trim.lower = '#' :: Text.lower digits := congrArg Text.lower hdigits
  rw [ofLiteral_eq_ok_iff, hlower, readLower?_sign, readHex?_lower, ofHex_eq_ok_iff, hdigits]

end Color

end ThemeTokens
