import ThemeTokens.Proofs.Color.Grammar
import ThemeTokens.Proofs.Declaration.Outcome

/-!
# Literals in declarations

A declared text is looked at twice: whether it was meant as a colour, and which colour it is. No
text that is a colour is passed over as if it had not been meant as one.
-/
namespace ThemeTokens.Declaration
open Color Keyed

section
variable {lib : Binary64.Elementary}

/-- The first text that was meant as a colour gives its colour, if it is one. -/
theorem gives_readColor_of_literal {table : Keyed (RawValue Text)} {names : List Text}
    {name t : Text} {c : Color (Double lib)}
    (htried : Tried table (fun u => looksLikeLiteral u = true) names name)
    (hleads : LeadsTo table name t) (hread : ofLiteral t = .ok c) :
    Reading.Gives table (readColor names) (.ok (some c)) := by
  have hlooks := looksLikeLiteral_of_isLiteral (ofLiteral_eq_ok_iff_isLiteral.1 hread)
  have hother : ∀ u, ¬ looksLikeLiteral u = true →
      (colorVerdict? u : Option (Except SourceError (Color (Double lib)))) = none :=
    fun _ hu => if_neg hu
  have hverdict : colorVerdict? t = some (.ok c : Except SourceError (Color (Double lib))) := by
    rw [colorVerdict?, if_pos hlooks, hread]
    rfl
  rw [readColor_eq_firstVerdict]
  exact gives_firstVerdict_settled hother ⟨htried, hleads, hlooks⟩ hverdict

end

/-- Which texts are read as colours, and what becomes of those that are not. -/
structure ReadsLiterals (lib : Binary64.Elementary) : Prop where
  reads : ∀ t (c : Color (Double lib)), ofLiteral t = .ok c ↔ IsLiteral t.trim.lower c
  function : ∀ t rest (c : Color (Double lib)),
    t.trim.lower = "rgba(".toList ++ rest ∨ t.trim.lower = "rgb(".toList ++ rest →
      (ofLiteral t = .ok c ↔ ∃ body, rest = body ++ [')'] ∧ IsFunction body c)
  /-- Hexadecimal digits are read in the case in which they are written. -/
  digits : ∀ t, t.trim.head? = some '#' →
    ∀ c : Color (Double lib), ofLiteral t = .ok c ↔ ofHex t = .ok c
  alike : ∀ t u : Text, t.trim.lower = u.trim.lower →
    ∀ c : Color (Double lib), ofLiteral t = .ok c ↔ ofLiteral u = .ok c
  looks : ∀ t (c : Color (Double lib)), ofLiteral t = .ok c → looksLikeLiteral t = true
  taken : ∀ table names name t (c : Color (Double lib)),
    Tried table (fun u => looksLikeLiteral u = true) names name → LeadsTo table name t →
      ofLiteral t = .ok c → Reading.Gives table (readColor names) (.ok (some c))
  /-- The error has the text as it was written. -/
  verbatim : ∀ t e, (ofLiteral t : Except MalformedColor (Color (Double lib))) = .error e ↔
    e = ⟨t⟩ ∧ ¬ ∃ c : Color (Double lib), IsLiteral t.trim.lower c

theorem readsLiterals (lib : Binary64.Elementary) : ReadsLiterals lib where
  reads _ _ := ofLiteral_eq_ok_iff_isLiteral
  function _ _ _ ht := ofLiteral_eq_ok_iff_isLiteral.trans (isLiteral_function_iff ht)
  digits _ hsign _ := ofLiteral_sign_iff hsign
  alike t u h c := by rw [ofLiteral_eq_ok_iff_isLiteral, ofLiteral_eq_ok_iff_isLiteral, h]
  looks _ _ h := looksLikeLiteral_of_isLiteral (ofLiteral_eq_ok_iff_isLiteral.1 h)
  taken _ _ _ _ _ := gives_readColor_of_literal
  verbatim t e := by
    simp only [← ofLiteral_eq_ok_iff_isLiteral]
    constructor
    · intro h
      refine ⟨ofLiteral_error h, ?_⟩
      rintro ⟨c, hc⟩
      cases h.symm.trans hc
    · rintro ⟨rfl, h⟩
      cases hread : (ofLiteral t : Except MalformedColor (Color (Double lib))) with
      | ok c => exact absurd ⟨c, hread⟩ h
      | error e => rw [ofLiteral_error hread]

/-- Signs, exponents and a percentage between blanks. -/
def spaced : Text := "\tRgBa( +1.5E1 100% -0 / 5e-1 )\n"

/-- Each has one number too large, one that is no double, or a separator too many. -/
def overdone : List Text :=
  ["rgb(255.5, 0, 0)", "rgb(1e999%, 0, 0)", "rgb(1 2 3,)", "rgb(1 2 3 / 4 /)"]

theorem readsLiterals_edges :
    (ofLiteral spaced : Except MalformedColor (Color (Double .platform))) =
        .ok ⟨15, 255, 0, 0.5⟩ ∧
      IsFunction " +1.5e1 100% -0 / 5e-1 " (⟨15, 255, 0, 0.5⟩ : Color (Double .platform)) ∧
      looksLikeLiteral spaced = true ∧
      ∀ t ∈ overdone, looksLikeLiteral t = true ∧
        (ofLiteral t : Except MalformedColor (Color (Double .platform))) = .error ⟨t⟩ := by
  have h := readsLiterals .platform
  have hspaced : (ofLiteral spaced : Except MalformedColor (Color (Double .platform))) =
      .ok ⟨15, 255, 0, 0.5⟩ := ofLiteral_eq_ok_iff.2 (by decide +kernel)
  have hoverdone : ∀ t ∈ overdone, looksLikeLiteral t = true ∧
      (readLower? t.trim.lower : Option (Color (Double .platform))) = none :=
    List.all_iff_forall_prop.1 (by decide +kernel)
  obtain ⟨body, hbody, hfunction⟩ :=
    (h.function spaced " +1.5e1 100% -0 / 5e-1 )" _ (.inl (by decide))).1 hspaced
  obtain rfl : body = " +1.5e1 100% -0 / 5e-1 ".toList :=
    (List.append_inj_left' hbody rfl).symm
  refine ⟨hspaced, hfunction, h.looks spaced _ hspaced, fun t ht => ?_⟩
  obtain ⟨hlooks, hnone⟩ := hoverdone t ht
  refine ⟨hlooks, (h.verbatim t _).2 ⟨rfl, ?_⟩⟩
  rintro ⟨c, hc⟩
  rw [← readLower?_eq_some_iff, hnone] at hc
  cases hc

end ThemeTokens.Declaration
