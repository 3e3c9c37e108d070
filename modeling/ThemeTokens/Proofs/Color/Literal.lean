import ThemeTokens.Proofs.Binary64.Thousandths
import ThemeTokens.Proofs.Color.Hex

/-!
# Colours in functional notation

What a colour is after it was written with decimal channels and read again: its channels are the
same, and its alpha is the nearest thousandth.
-/
namespace ThemeTokens

/-! ## Numbers -/

theorem Number.readPart?_of_not_mem {R : Type} [Number R] (scale : R → R) {t : Text}
    (h : '%' ∉ t) : readPart? scale t = read? t := by
  rw [readPart?, Text.beforeLast?_eq_none h]

namespace Color

/-- The colour that is written with three decimal places of alpha. -/
def rounded {R : Type} [Number R] (c : Color R) : Color R :=
  { c with alpha := Number.thousandths c.alpha }

theorem luminance_rounded {R : Type} [Number R] (c : Color R) :
    c.rounded.luminance = c.luminance := rfl

end Color

namespace Double
open Binary64
variable {lib : Elementary} {x : Double lib}

theorem ofNumeral_toNat (b : UInt8) :
    (Number.ofNumeral ⟨false, b.toNat, 0⟩ : Double lib) = Number.ofNat b.toNat := by
  have hb := b.toNat_lt
  have hplaces := @ofNumeral_places b.toNat 0 (by omega) (by decide)
  refine Eq.trans hplaces ?_
  split
  · next hzero =>
    rw [hzero]
    have hfloat : (0.0 : Float) = Float.ofNat 0 := by decide
    exact hfloat
  · rfl

theorem readChannel?_decimal (b : UInt8) :
    Color.readChannel? (Double lib) (Text.decimal b.toNat) = some b := by
  have hnear : Near 255 0 (Number.ofNat b.toNat : Double lib) b.toNat :=
    near_ofNat (b.toNat_lt.trans (by norm_num)) (toNat_le b)
  have hreal : toReal (Number.ofNat b.toNat : Double lib) = b.toNat := by
    have herror := abs_nonpos_iff.1 hnear.error
    linarith
  have hpercent : '%' ∉ Text.decimal b.toNat :=
    fun hmem => absurd (Text.isDigit_decimal b.toNat _ hmem) (by decide)
  have hfinite : Number.isFinite (Number.ofNat b.toNat : Double lib) = true := hnear.finite
  have hlow : 0.0 ≤ (Number.ofNat b.toNat : Double lib) := by
    rw [le_iff finite_zero hnear.finite, toReal_zero, hreal]
    positivity
  have hhigh : (Number.ofNat b.toNat : Double lib) ≤ 255.0 := by
    rw [le_iff hnear.finite finite_wholeByte, toReal_wholeByte, hreal]
    exact toNat_le b
  have hround : Number.round (Number.ofNat b.toNat : Double lib) = b.toNat := by
    have herror := abs_round_sub_le hnear (by positivity)
    have hlt : |(Number.round (Number.ofNat b.toNat : Double lib) : ℤ) - b.toNat| < 1 := by
      have : |(Number.round (Number.ofNat b.toNat : Double lib) : ℝ) - b.toNat| < 1 := by linarith
      exact_mod_cast this
    have := Int.abs_lt_one_iff.1 hlt
    omega
  rw [Color.readChannel?, Number.readPart?_of_not_mem _ hpercent, Number.read?,
    Numeral.read?_decimal, Option.bind_some, ofNumeral_toNat, if_pos hfinite, Option.bind_some,
    if_pos ⟨hlow, hhigh⟩, hround, UInt8.ofNat_toNat]

section
variable (h0 : 0.0 ≤ x) (h1 : x ≤ 1.0)
include h0 h1

theorem amount_eq : ∃ n : Numeral, n.InThousandths ∧ IsThousandths (toReal x) n.digits ∧
    Number.thousandths x = Number.ofNumeral n ∧
    Number.amount x = Decimal.compact n.positional := by
  obtain ⟨n, hplaces, hn, hround⟩ := exists_inThousandths h0 h1
  refine ⟨n, hn, hround, ?_, ?_⟩
  · rw [Number.thousandths, hplaces]
  · rw [Number.amount, Number.placesText, hplaces]
    rfl

theorem mem_amount : ∀ c ∈ Number.amount x, c ∈ Numeral.alphabet := by
  obtain ⟨n, hplaces, -, -⟩ := exists_inThousandths h0 h1
  exact Number.mem_amount hplaces

theorem readAlpha?_amount : Color.readAlpha? (Number.amount x) = some (Number.thousandths x) := by
  obtain ⟨n, hn, -, hthousandths, hamount⟩ := amount_eq h0 h1
  obtain ⟨m, hread, hm⟩ := ofNumeral_compact hn
  have hvalue : (Number.ofNumeral m : Double lib) = Number.ofNumeral n := hm
  have hmem := @ofNumeral_mem lib n hn
  have hfinite : Number.isFinite (Number.ofNumeral n : Double lib) = true :=
    finite_of_mem hmem.1 hmem.2
  have hpercent : '%' ∉ Number.amount x := fun h => absurd (mem_amount h0 h1 _ h) (by decide)
  rw [Color.readAlpha?, Number.readPart?_of_not_mem _ hpercent, Number.read?, hamount, hread,
    Option.bind_some, hvalue, if_pos hfinite, Option.bind_some, if_pos hmem, hthousandths]

theorem thousandths_nearest : ∃ k : ℕ, k ≤ 1000 ∧ |1000 * toReal x - k| ≤ 1 / 2 ∧
    IsNearest (Number.thousandths x : Double lib) (k / 1000) := by
  obtain ⟨n, hn, hround, hthousandths, -⟩ := amount_eq h0 h1
  refine ⟨n.digits, hn.le_thousand, hround.error, ?_⟩
  rw [hthousandths]
  exact isNearest_ofNumeral hn

theorem thousandths_mem : 0.0 ≤ Number.thousandths x ∧ Number.thousandths x ≤ 1.0 := by
  obtain ⟨n, hn, -, hthousandths, -⟩ := amount_eq h0 h1
  rw [hthousandths]
  exact ofNumeral_mem hn

theorem thousandths_one (hwhole : 1.0 ≤ x) : Number.thousandths x = 1.0 := by
  obtain ⟨⟨negative, k, exponent⟩, hn, hround, hthousandths, -⟩ := amount_eq h0 h1
  have hfinite := finite_of_mem h0 h1
  have hlow := (le_iff finite_one hfinite).1 hwhole
  have hhigh := (le_iff hfinite finite_one).1 h1
  rw [toReal_one] at hlow hhigh
  have hk : k = 1000 := by
    have hle := hn.le_thousand
    have hge : (999 : ℝ) < k := by
      have := (abs_le.1 hround.error).2
      dsimp only at this
      linarith
    have hge' : 999 < k := by exact_mod_cast hge
    dsimp only at hle
    omega
  subst hk
  obtain rfl : exponent = -(3 : Nat) := hn.exponent
  cases negative with
  | true => cases hn.sign rfl
  | false =>
    have hone : Binary64.ofNumeral ⟨false, 1000, -(3 : Nat)⟩ = 1.0 := by decide +kernel
    exact hthousandths.trans hone

end

/-! ## Reading what was written -/

variable (c : Color (Double lib))

/-- What a colour starts with; an opaque one has no alpha. -/
def literalOpening : Text := if c.isOpaque then "rgb(" else "rgba("

/-- The channels and the alpha, which stand between the parentheses. -/
def literalPieces : List Text :=
  [c.red, c.green, c.blue].map (fun b => Text.decimal b.toNat) ++
    if c.isOpaque then [] else [Number.amount c.alpha]

theorem literalText_eq :
    c.literalText = literalOpening c ++ Text.join ", " (literalPieces c) ++ ")" := by
  have hpieces (alpha : Text) :
      Text.join ", " ([c.red, c.green, c.blue].map (fun b => Text.decimal b.toNat) ++ [alpha]) =
        Text.join ", " ([c.red, c.green, c.blue].map fun b => Text.decimal b.toNat) ++
          (", " ++ alpha) := by
    rw [List.map_cons, List.cons_append, Text.join_cons, Text.join_cons,
      List.flatMap_append, List.flatMap_singleton, List.append_assoc]
  rw [Color.literalText, literalOpening, literalPieces]
  split
  · rw [List.append_nil]
  · rw [hpieces]
    simp

theorem functionBody?_literalText :
    Color.functionBody? c.literalText = some (Text.join ", " (literalPieces c) ++ [')']) := by
  rw [literalText_eq, literalOpening, List.append_assoc, Color.functionBody?]
  split <;> simp [Text.after?]

theorem trim_literalText : c.literalText.trim = c.literalText := by
  have htext := literalText_eq c
  refine Text.trim_eq_self_of_ends (fun d hd => ?_) fun d hd => ?_
  · rw [htext, literalOpening] at hd
    split at hd <;> cases hd <;> decide
  · rw [htext, List.getLast?_append] at hd
    cases hd
    decide

section
variable {c} (h0 : 0.0 ≤ c.alpha) (h1 : c.alpha ≤ 1.0)
include h0 h1

theorem mem_literalPieces {piece : Text} (hpiece : piece ∈ literalPieces c) :
    ∀ d ∈ piece, d ∈ Numeral.alphabet := by
  rcases List.mem_append.1 hpiece with hpiece | hpiece
  · obtain ⟨b, -, rfl⟩ := List.mem_map.1 hpiece
    exact Numeral.mem_decimal b.toNat
  · split at hpiece
    · cases hpiece
    · rw [List.mem_singleton.1 hpiece]
      exact mem_amount h0 h1

/-- What the pieces are taken for. -/
theorem arguments_literalPieces : Color.arguments (Text.join ", " (literalPieces c)) =
    ([c.red, c.green, c.blue].map (fun b => Text.decimal b.toNat),
      if c.isOpaque then none else some (Number.amount c.alpha)) := by
  have hnumeral : ∀ d ∈ Numeral.alphabet, d ≠ ',' ∧ isBlank d = false :=
    List.all_iff_forall_prop.1 (by decide)
  have hcomma : ∀ piece ∈ literalPieces c, ',' ∉ piece :=
    fun piece hpiece hmem => (hnumeral _ (mem_literalPieces h0 h1 hpiece _ hmem)).1 rfl
  have hblank : ∀ piece ∈ literalPieces c, ∀ d ∈ piece, isBlank d = false :=
    fun piece hpiece d hd => (hnumeral d (mem_literalPieces h0 h1 hpiece d hd)).2
  have hpieces : ((Text.join ", " (literalPieces c)).split ',').map Text.trim = literalPieces c :=
    Text.map_trim_split_join hcomma hblank
  have hbody : ',' ∈ Text.join ", " (literalPieces c) := by
    rw [literalPieces, List.map_cons, List.cons_append, Text.join_cons]
    exact List.mem_append_right _ List.mem_cons_self
  rw [Color.arguments, if_pos hbody, hpieces, literalPieces]
  cases c.isOpaque <;> rfl

theorem readArguments?_literalPieces :
    Color.readArguments? (Text.join ", " (literalPieces c)) = some c.rounded := by
  have hmem := thousandths_mem h0 h1
  rw [Color.readArguments?, arguments_literalPieces h0 h1]
  cases hopaque : c.isOpaque with
  | true =>
    have hone := clampOr_of_mem 1.0 hmem.1 hmem.2
    rw [thousandths_one h0 h1 (of_decide_eq_true hopaque)] at hone
    simp only [List.map_cons, List.map_nil, readChannel?_decimal, if_true, Option.bind_eq_bind,
      Option.bind_some, Option.pure_def, Color.ofChannels, hone, Color.rounded,
      thousandths_one h0 h1 (of_decide_eq_true hopaque)]
  | false =>
    simp only [List.map_cons, List.map_nil, readChannel?_decimal, Bool.false_eq_true, if_false,
      readAlpha?_amount h0 h1, Option.bind_eq_bind, Option.bind_some, Option.pure_def,
      Color.ofChannels, clampOr_of_mem _ hmem.1 hmem.2, Color.rounded]

/-- The characters of functional notation. -/
def literalAlphabet : Text := "rgba(), -.0123456789"

theorem mem_literalText : ∀ d ∈ c.literalText, d ∈ literalAlphabet := by
  have hnumeral : Numeral.alphabet ⊆ literalAlphabet := List.all_iff_forall_prop.1 (by decide)
  have hopening : literalOpening c ⊆ literalAlphabet := by
    rw [literalOpening]
    split <;> exact List.all_iff_forall_prop.1 (by decide)
  have hseparator : ", ".toList ⊆ literalAlphabet := List.all_iff_forall_prop.1 (by decide)
  have hclosing : ")".toList ⊆ literalAlphabet := List.all_iff_forall_prop.1 (by decide)
  intro d hd
  rw [literalText_eq] at hd
  rcases List.mem_append.1 hd with hd | hd
  · rcases List.mem_append.1 hd with hd | hd
    · exact hopening hd
    · rcases Text.mem_join hd with hd | ⟨piece, hpiece, hd⟩
      · exact hseparator hd
      · exact hnumeral (mem_literalPieces h0 h1 hpiece d hd)
  · exact hclosing hd

theorem readLower?_literalText : Color.readLower? c.literalText = some c.rounded := by
  have hhead : c.literalText.head? = some 'r' := by
    rw [literalText_eq, literalOpening]
    split <;> rfl
  have hsign : ¬ some 'r' = some '#' := by decide
  have hkeyword := Color.ofName?_eq_none hhead fun k => by cases k <;> decide
  simp only [Color.readLower?, hkeyword, hhead, hsign, if_false, functionBody?_literalText,
    Option.bind_some, Text.beforeLast?_append, readArguments?_literalPieces h0 h1]

theorem lower_literalText : c.literalText.lower = c.literalText := by
  have hlower : ∀ d ∈ literalAlphabet, d.toLower = d := List.all_iff_forall_prop.1 (by decide)
  exact Text.lower_eq_self fun d hd => hlower d (mem_literalText h0 h1 d hd)

theorem ofLiteral_literalText : Color.ofLiteral c.literalText = .ok c.rounded := by
  rw [Color.ofLiteral, trim_literalText, lower_literalText h0 h1, readLower?_literalText h0 h1]

theorem looksLikeLiteral_literalText : Color.looksLikeLiteral c.literalText = true := by
  rw [Color.looksLikeLiteral, trim_literalText, lower_literalText h0 h1, functionBody?_literalText]
  simp

/-- An opaque colour is kept by either notation. -/
theorem printed_eq_rounded (h : c.isOpaque = true) : c.printed = c.rounded := by
  rw [Color.printed, if_pos h, Color.rounded, thousandths_one h0 h1 (of_decide_eq_true h)]
  rfl

end

/-- A colour with the same channels and the thousandth nearest to the alpha, which is the double
nearest to that. -/
structure IsRounded (c d : Color (Double lib)) : Prop where
  red : d.red = c.red
  green : d.green = c.green
  blue : d.blue = c.blue
  alpha : d.alpha = Number.thousandths c.alpha
  nearest : ∃ k : ℕ, k ≤ 1000 ∧ |1000 * toReal c.alpha - k| ≤ 1 / 2 ∧
    IsNearest (d.alpha : Double lib) (k / 1000)

theorem isRounded_rounded {c : Color (Double lib)} (h0 : 0.0 ≤ c.alpha) (h1 : c.alpha ≤ 1.0) :
    IsRounded c c.rounded :=
  ⟨rfl, rfl, rfl, rfl, thousandths_nearest h0 h1⟩

end Double

end ThemeTokens
