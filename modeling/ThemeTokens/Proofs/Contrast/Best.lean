import ThemeTokens.Proofs.Color.Luminance
import ThemeTokens.Proofs.Contrast.Search
import ThemeTokens.Proofs.Paint

/-!
# The best of what the contrast search evaluates

The search answers with a colour that reaches the minimum if its walk comes upon one, and else with
the greatest contrast that it has seen. All of this follows from the order of doubles: nothing is
assumed of how the contrast changes from one lightness to the next.
-/
namespace ThemeTokens.Contrast
open Double
variable {lib : Binary64.Elementary} {candidate : Double lib → Color (Double lib)}
  {foreground background : Color (Double lib)} {minimum : Double lib} {direction : Direction}

/-- What the walk keeps contrasts at least as much as either of the two. -/
theorem ratio_le_better (hnumber : ∀ c, Number.isNaN (ratio c background) = false)
    (best color : Color (Double lib)) :
    let better := if ratio best background < ratio color background then color else best
    ratio best background ≤ ratio better background ∧
      ratio color background ≤ ratio better background := by
  dsimp only
  split
  · next hlt =>
    exact ⟨Double.le_of_lt hlt, Double.le_refl (hnumber color)⟩
  · next hle =>
    exact ⟨Double.le_refl (hnumber best),
      (Double.not_lt_iff_le (hnumber best) (hnumber color)).1 hle⟩

theorem walk_greatest (hnumber : ∀ c, Number.isNaN (ratio c background) = false) {steps : ℕ}
    {failing : Double lib} {best outcome : Color (Double lib)}
    (h : walk candidate background minimum direction steps failing best = .exhausted outcome) :
    ratio best background ≤ ratio outcome background ∧
      ∀ l ∈ tried direction steps failing,
        ratio (candidate l) background ≤ ratio outcome background := by
  induction steps generalizing failing best with
  | zero =>
    rw [walk, Walk.exhausted.injEq] at h
    subst h
    refine ⟨Double.le_refl (hnumber best), fun l hl => ?_⟩
    cases hl
  | succ steps ih =>
    rw [walk] at h
    rw [tried]
    dsimp only at h ⊢
    set lightness : Double lib := Number.clamp (failing + direction.step)
    obtain ⟨hbest, hcolor⟩ := ratio_le_better hnumber best (candidate lightness)
    set better := if ratio best background < ratio (candidate lightness) background then
      candidate lightness else best
    by_cases hmeets : meets (candidate lightness) background minimum = true
    · rw [if_pos hmeets] at h
      cases h
    rw [if_neg hmeets] at h
    by_cases hpole : direction.atPole lightness = true
    · rw [if_pos hpole, Walk.exhausted.injEq] at h
      rw [if_pos hpole, ← h]
      refine ⟨hbest, fun l hl => ?_⟩
      rw [List.mem_singleton.1 hl]
      exact hcolor
    · rw [if_neg hpole] at h ⊢
      obtain ⟨hbetter, hrest⟩ := ih h
      refine ⟨Double.le_trans hbest hbetter, fun l hl => ?_⟩
      rcases List.mem_cons.1 hl with rfl | hl
      · exact Double.le_trans hcolor hbetter
      · exact hrest l hl

/-- A colour that passes contrasts at least as much as one that fails. -/
theorem ratio_le_of_meets {color : Color (Double lib)}
    (hnumber : ∀ c, Number.isNaN (ratio c background) = false)
    (hfails : meets foreground background minimum = false)
    (hmeets : meets color background minimum = true) :
    ratio foreground background ≤ ratio color background := by
  refine (Double.le_total (hnumber foreground) (hnumber color)).resolve_right fun hle => ?_
  exact of_decide_eq_false hfails (Double.le_trans (of_decide_eq_true hmeets) hle)

theorem alpha_candidateOf (h : foreground.HasOpacity) (l : Double lib) :
    (candidateOf foreground l).alpha = foreground.alpha :=
  clampOr_of_mem 1.0 h.1 h.2

theorem alpha_ensure (h : foreground.HasOpacity) (background : Color (Double lib))
    (minimum : Double lib) :
    (ensure foreground background minimum).alpha = foreground.alpha := by
  cases hmeets : meets foreground background minimum with
  | true => rw [ensure_of_meets hmeets]
  | false =>
    rcases ensure_spec (P := fun _ => True) (fun _ _ _ _ => trivial) hmeets trivial
      (fun _ _ => trivial) with ⟨-, l, -, hl⟩ | ⟨-, -, hsame | ⟨l, -, hl⟩⟩
    · rw [hl]
      exact alpha_candidateOf h l
    · rw [hsame]
    · rw [hl]
      exact alpha_candidateOf h l

/-- What a search has to show for its answer. -/
structure Search.Best (s : Search (Double lib)) (foreground background : Color (Double lib))
    (minimum : Double lib) : Prop where
  count : s.evaluated.length ≤ maxCandidates
  unchanged : meets foreground background minimum = true → s.color = foreground
  reaches : (∃ l ∈ s.walked, meets (candidateOf foreground l) background minimum = true) →
    meets s.color background minimum = true
  greatest : (∀ l ∈ s.walked, meets (candidateOf foreground l) background minimum = false) →
    s.color ∈ foreground :: s.evaluated.map (candidateOf foreground) ∧
      ∀ c ∈ foreground :: s.evaluated.map (candidateOf foreground),
        ratio c background ≤ ratio s.color background
  improves : ratio foreground background ≤ ratio s.color background
  alpha : foreground.HasOpacity → s.color.alpha = foreground.alpha

theorem best_of_meets (hnumber : ∀ c, Number.isNaN (ratio c background) = false)
    (h : meets foreground background minimum = true) :
    (search foreground background minimum).Best foreground background minimum := by
  have hrefl : ratio foreground background ≤ ratio foreground background :=
    Double.le_refl (hnumber foreground)
  rw [search_of_meets h]
  refine ⟨Nat.zero_le _, fun _ => rfl, fun _ => h, fun _ => ⟨List.mem_cons_self, ?_⟩, hrefl,
    fun _ => rfl⟩
  intro c hc
  rw [List.mem_singleton.1 hc]
  exact hrefl

theorem best_of_exhausted (hnumber : ∀ c, Number.isNaN (ratio c background) = false)
    (h : meets foreground background minimum = false) {best : Color (Double lib)}
    (hwalk : (walkFrom foreground background minimum).2 = .exhausted best) :
    (search foreground background minimum).Best foreground background minimum := by
  have hcount := length_evaluated_le foreground background minimum
  have hsame := search_color foreground background minimum
  have hfirst := recordedWalk_exhausted hwalk
  rw [search_of_exhausted h hwalk] at hcount hsame ⊢
  rw [walkFrom, recordedWalk_snd] at hwalk
  obtain ⟨hall, hbest⟩ := walk_exhausted hwalk
  obtain ⟨hstart, hrest⟩ := walk_greatest hnumber hwalk
  rw [← hfirst] at hall hbest hrest
  refine ⟨hcount, fun hm => absurd (h.symm.trans hm) Bool.false_ne_true, fun hreached => ?_,
    fun _ => ⟨?_, ?_⟩, hstart, fun ha => ?_⟩
  · obtain ⟨l, hl, hm⟩ := hreached
    exact absurd ((hall l hl).symm.trans hm) Bool.false_ne_true
  · rw [Search.evaluated, List.append_nil]
    rcases hbest with rfl | ⟨l, hl, rfl⟩
    · exact List.mem_cons_self
    · exact List.mem_cons_of_mem _ (List.mem_map_of_mem hl)
  · rw [Search.evaluated, List.append_nil]
    intro c hc
    rcases List.mem_cons.1 hc with rfl | hc
    · exact hstart
    · obtain ⟨l, hl, rfl⟩ := List.mem_map.1 hc
      exact hrest l hl
  · rw [hsame]
    exact alpha_ensure ha background minimum

theorem best_of_reached (hnumber : ∀ c, Number.isNaN (ratio c background) = false)
    (h : meets foreground background minimum = false) {steps : ℕ} {failing passing : Double lib}
    {color : Color (Double lib)}
    (hwalk : (walkFrom foreground background minimum).2 = .reached steps failing passing color) :
    (search foreground background minimum).Best foreground background minimum := by
  obtain ⟨f, p, -, hbracket⟩ := search_brackets h hwalk
  obtain ⟨-, -, hreached⟩ := recordedWalk_reached hwalk
  have hcolor := hbracket.color_eq
  have hmeets : meets (search foreground background minimum).color background minimum = true := by
    rw [hcolor]
    exact hbracket.passes
  refine ⟨length_evaluated_le _ _ _, fun hm => absurd (h.symm.trans hm) Bool.false_ne_true,
    fun _ => hmeets, fun hall => ?_, ratio_le_of_meets hnumber h hmeets, fun ha => ?_⟩
  · have hwalked : passing ∈ (search foreground background minimum).walked := by
      rw [search_of_reached h hwalk]
      exact hreached.passing_mem
    exact absurd ((hall passing hwalked).symm.trans hreached.passes) Bool.false_ne_true
  · rw [search_color]
    exact alpha_ensure ha background minimum

/-- The answer reaches the minimum if a lightness of the walk does, and else has the greatest
contrast of all that were evaluated. It never contrasts less than the foreground. -/
theorem ensure_best (hnumber : ∀ c, Number.isNaN (ratio c background) = false)
    (foreground : Color (Double lib)) (minimum : Double lib) :
    (search foreground background minimum).color = ensure foreground background minimum ∧
      (search foreground background minimum).Best foreground background minimum := by
  refine ⟨search_color _ _ _, ?_⟩
  cases h : meets foreground background minimum with
  | true => exact best_of_meets hnumber h
  | false =>
    cases hwalk : (walkFrom foreground background minimum).2 with
    | exhausted best => exact best_of_exhausted hnumber h hwalk
    | reached steps failing passing color => exact best_of_reached hnumber h hwalk

/-- White on black, where no colour reaches the minimum. -/
theorem ensure_best_rounded :
    (∀ c : Color (Double .rounded), Number.isNaN (ratio c Color.black) = false) ∧
      (search Color.white Color.black (22.0 : Double .rounded)).color =
        ensure Color.white Color.black 22.0 ∧
      (search Color.white Color.black (22.0 : Double .rounded)).Best Color.white Color.black
        22.0 :=
  have hnumber (c : Color (Double .rounded)) : Number.isNaN (ratio c Color.black) = false :=
    (finite_ratio Binary64.Elementary.accurate_rounded c Color.black).isNaN_eq_false
  ⟨hnumber, ensure_best hnumber Color.white 22.0⟩

end ThemeTokens.Contrast
