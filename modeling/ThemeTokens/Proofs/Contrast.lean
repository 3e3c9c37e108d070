import ThemeTokens.Contrast
import ThemeTokens.Proofs.Binary64.Byte
import ThemeTokens.Proofs.Binary64.Interval

/-!
# The contrast search

The walk tries a list of lightnesses in order. If one of them passes, the search answers with a
lightness that passes; if none does, with a colour that fails. Every step brings the walk closer to
its pole, and there are enough of them to get there.
-/
namespace ThemeTokens.Contrast

section
variable {R : Type} [Number R]

/-- The lightnesses that the walk tries as long as none passes. -/
def tried (direction : Direction) : ℕ → R → List R
  | 0, _ => []
  | steps + 1, failing =>
    let lightness := Number.clamp (failing + direction.step)
    lightness :: if direction.atPole lightness then [] else tried direction steps lightness

variable {candidate : R → Color R} {background foreground : Color R} {minimum : R}
  {direction : Direction}

theorem ensure_of_meets (h : meets foreground background minimum = true) :
    ensure foreground background minimum = foreground := by
  rw [ensure]
  exact if_pos h

theorem walk_exhausted {steps : ℕ} {failing : R} {best outcome : Color R}
    (h : walk candidate background minimum direction steps failing best = .exhausted outcome) :
    (∀ l ∈ tried direction steps failing, meets (candidate l) background minimum = false) ∧
      (outcome = best ∨ ∃ l ∈ tried direction steps failing, outcome = candidate l) := by
  induction steps generalizing failing best with
  | zero =>
    rw [walk, Walk.exhausted.injEq] at h
    refine ⟨fun l hl => ?_, Or.inl h.symm⟩
    cases hl
  | succ steps ih =>
    rw [walk] at h
    rw [tried]
    dsimp only at h ⊢
    set lightness : R := Number.clamp (failing + direction.step)
    set better := if ratio best background < ratio (candidate lightness) background then
      candidate lightness else best with hbetter
    have hbest : better = best ∨ better = candidate lightness := by
      rw [hbetter]
      split
      · exact Or.inr rfl
      · exact Or.inl rfl
    by_cases hmeets : meets (candidate lightness) background minimum = true
    · rw [if_pos hmeets] at h
      cases h
    rw [if_neg hmeets] at h
    rw [Bool.not_eq_true] at hmeets
    by_cases hpole : direction.atPole lightness = true
    · rw [if_pos hpole, Walk.exhausted.injEq] at h
      rw [if_pos hpole]
      refine ⟨fun l hl => ?_, ?_⟩
      · rw [List.mem_singleton.1 hl]
        exact hmeets
      · rw [← h]
        exact hbest.imp_right fun hb => ⟨lightness, List.mem_cons_self, hb⟩
    · rw [if_neg hpole] at h ⊢
      obtain ⟨hall, hout⟩ := ih h
      refine ⟨fun l hl => ?_, ?_⟩
      · rcases List.mem_cons.1 hl with rfl | hl
        · exact hmeets
        · exact hall l hl
      · rcases hout with hout | ⟨l, hl, hout⟩
        · rw [hout]
          exact hbest.imp_right fun hb => ⟨lightness, List.mem_cons_self, hb⟩
        · exact Or.inr ⟨l, List.mem_cons_of_mem _ hl, hout⟩

theorem walk_reached {steps left : ℕ} {start failing passing : R} {best color : Color R}
    (h : walk candidate background minimum direction steps start best =
      .reached left failing passing color) :
    (failing = start ∨ failing ∈ tried direction steps start) ∧
      passing ∈ tried direction steps start ∧ color = candidate passing ∧
      meets (candidate passing) background minimum = true := by
  induction steps generalizing start best with
  | zero =>
    rw [walk] at h
    cases h
  | succ steps ih =>
    rw [walk] at h
    rw [tried]
    dsimp only at h ⊢
    set lightness : R := Number.clamp (start + direction.step)
    by_cases hmeets : meets (candidate lightness) background minimum = true
    · rw [if_pos hmeets, Walk.reached.injEq] at h
      obtain ⟨_, rfl, rfl, rfl⟩ := h
      exact ⟨Or.inl rfl, List.mem_cons_self, rfl, hmeets⟩
    rw [if_neg hmeets] at h
    by_cases hpole : direction.atPole lightness = true
    · rw [if_pos hpole] at h
      cases h
    · rw [if_neg hpole] at h ⊢
      obtain ⟨hfailing, hpassing, hcolor, hpass⟩ := ih h
      refine ⟨Or.inr ?_, List.mem_cons_of_mem _ hpassing, hcolor, hpass⟩
      rcases hfailing with rfl | hfailing
      · exact List.mem_cons_self
      · exact List.mem_cons_of_mem _ hfailing

/-- Halving the bracket keeps what holds of both ends and of every middle. -/
theorem refine_spec {P : R → Prop} (hP : ∀ x y, P x → P y → P ((y + x) * 0.5)) (steps : ℕ)
    {failing passing : R} (hfailing : P failing) (hpassing : P passing)
    (hmeets : meets (candidate passing) background minimum = true) :
    ∃ l, P l ∧ meets (candidate l) background minimum = true ∧
      refine candidate background minimum steps failing passing (candidate passing) =
        candidate l := by
  induction steps generalizing failing passing with
  | zero => exact ⟨passing, hpassing, hmeets, rfl⟩
  | succ steps ih =>
    rw [refine]
    dsimp only
    have hmiddle := hP failing passing hfailing hpassing
    split
    · split
      · next hhalf => exact ih hfailing hmiddle hhalf
      · exact ih hmiddle hpassing hmeets
    · exact ⟨passing, hpassing, hmeets, rfl⟩

/-- Both phases together. -/
theorem search_spec {P : R → Prop} (hP : ∀ x y, P x → P y → P ((y + x) * 0.5)) {steps : ℕ}
    {start : R} (hstart : P start) (htried : ∀ l ∈ tried direction steps start, P l)
    (hfails : meets foreground background minimum = false) {outcome : Walk R} {color : Color R}
    (hcolor : color = match outcome with
      | .exhausted best => best
      | .reached left failing passing last =>
        refine candidate background minimum left failing passing last)
    (hwalk : walk candidate background minimum direction steps start foreground = outcome) :
    (meets color background minimum = true ∧ ∃ l, P l ∧ color = candidate l) ∨
      (meets color background minimum = false ∧
        (∀ l ∈ tried direction steps start, meets (candidate l) background minimum = false) ∧
        (color = foreground ∨ ∃ l ∈ tried direction steps start, color = candidate l)) := by
  cases outcome with
  | exhausted best =>
    obtain ⟨hall, hbest⟩ := walk_exhausted hwalk
    rw [← show color = best from hcolor] at hbest
    refine Or.inr ⟨?_, hall, hbest⟩
    rcases hbest with hbest | ⟨l, hl, hbest⟩
    · rw [hbest]
      exact hfails
    · rw [hbest]
      exact hall l hl
  | reached left failing passing last =>
    obtain ⟨hfailing, hpassing, hlast, hpass⟩ := walk_reached hwalk
    have hPfailing : P failing := by
      rcases hfailing with rfl | hfailing
      · exact hstart
      · exact htried _ hfailing
    obtain ⟨l, hl, hmeets, heq⟩ := refine_spec hP left hPfailing (htried _ hpassing) hpass
    have hcolor : color = candidate l := by rw [hcolor, hlast, ← heq]
    rw [hcolor]
    exact Or.inl ⟨hmeets, l, hl, rfl⟩

/-- A colour that falls short is answered with a candidate that passes, or, when all lightnesses of
the walk fail, with one of theirs or the colour itself. -/
theorem ensure_spec {P : R → Prop} (hP : ∀ x y, P x → P y → P ((y + x) * 0.5))
    (hfails : meets foreground background minimum = false)
    (hstart : P (Number.clamp foreground.toOklch.lightness))
    (htried : ∀ l ∈ tried (Direction.awayFrom foreground background) maxCandidates
      (Number.clamp foreground.toOklch.lightness), P l) :
    (meets (ensure foreground background minimum) background minimum = true ∧
      ∃ l, P l ∧ ensure foreground background minimum =
        Color.ofOklch (foreground.toOklch.withLightness l)) ∨
    (meets (ensure foreground background minimum) background minimum = false ∧
      (∀ l ∈ tried (Direction.awayFrom foreground background) maxCandidates
        (Number.clamp foreground.toOklch.lightness),
        meets (Color.ofOklch (foreground.toOklch.withLightness l)) background minimum = false) ∧
      (ensure foreground background minimum = foreground ∨
        ∃ l ∈ tried (Direction.awayFrom foreground background) maxCandidates
          (Number.clamp foreground.toOklch.lightness),
          ensure foreground background minimum =
            Color.ofOklch (foreground.toOklch.withLightness l))) := by
  have hne : ¬ meets foreground background minimum = true := by
    rw [hfails]
    decide
  refine search_spec hP hstart htried hfails ?_ rfl
  rw [ensure]
  exact if_neg hne

end

/-! ## Toward a pole -/

section
open Binary64 Double
variable {lib : Elementary} {steps : ℕ} {failing : Double lib}

theorem near_self (h : InUnit failing) : Near 1 0 failing (toReal failing) :=
  .self h.finite (abs_le.2 ⟨by linarith [h.nonneg], h.le_one⟩)

namespace Direction

/-- What is left of the way to the pole. -/
noncomputable def distance : Direction → Double lib → ℝ
  | .lighten, x => 1 - toReal x
  | .darken, x => toReal x

variable {d : Direction}

theorem distance_nonneg (h : InUnit failing) : 0 ≤ d.distance failing := by
  cases d with
  | lighten => exact sub_nonneg.2 h.le_one
  | darken => exact h.nonneg

theorem distance_le_one (h : InUnit failing) : d.distance failing ≤ 1 := by
  cases d with
  | lighten => exact sub_le_self 1 h.nonneg
  | darken => exact h.le_one

theorem atPole_iff (h : InUnit failing) :
    d.atPole failing = true ↔ d.distance failing = 0 := by
  have hnonneg := @distance_nonneg lib failing d h
  cases d with
  | lighten =>
    rw [atPole, decide_eq_true_eq, Double.le_iff finite_one h.finite, toReal_one,
      ← sub_nonpos]
    exact ⟨fun hle => le_antisymm hle hnonneg, fun heq => heq.le⟩
  | darken =>
    rw [atPole, decide_eq_true_eq, Double.le_iff h.finite finite_zero, toReal_zero]
    exact ⟨fun hle => le_antisymm hle hnonneg, fun heq => heq.le⟩

theorem near_stepLength : Near 1 slip (0.05 : Double lib) 0.05 :=
  near_literal (by norm_num) (by norm_num) (by norm_num) (by norm_num)

/-- A step goes nearly its full length, or to the pole. -/
theorem distance_step (h : InUnit failing) :
    InUnit (Number.clamp (failing + d.step)) ∧
      d.distance (Number.clamp (failing + d.step)) ≤ max 0 (d.distance failing - 0.049) := by
  have hself := near_self h
  cases d with
  | lighten =>
    have hsum := hself.add near_stepLength (by norm_num [slip])
    have hge := hsum.ge
    refine ⟨InUnit.clamp hsum.finite, ?_⟩
    simp only [distance, step]
    rw [toReal_clamp hsum.finite]
    have hle : min 1 (toReal failing + 0.049) ≤ max 0 (min 1 (toReal (failing + 0.05))) := by
      refine le_max_of_le_right (min_le_min_left 1 ?_)
      norm_num [slip] at hge ⊢
      linarith
    calc 1 - max 0 (min 1 (toReal (failing + 0.05)))
        ≤ 1 - min 1 (toReal failing + 0.049) := sub_le_sub_left hle 1
      _ = max 0 (1 - toReal failing - 0.049) := by
        rw [← max_sub_sub_left, sub_self, sub_add_eq_sub_sub]
  | darken =>
    have hsum := hself.add near_stepLength.neg (by norm_num [slip])
    have hle := hsum.le
    refine ⟨InUnit.clamp hsum.finite, ?_⟩
    simp only [distance, step]
    rw [toReal_clamp hsum.finite]
    refine max_le_max_left 0 ((min_le_right _ _).trans ?_)
    norm_num [slip] at hle ⊢
    linarith

end Direction

variable {d : Direction}

/-- All that the walk tries is at least one step ahead of its start. -/
theorem tried_mem (h : InUnit failing) : ∀ l ∈ tried d steps failing,
    InUnit l ∧ d.distance l ≤ max 0 (d.distance failing - 0.049) := by
  induction steps generalizing failing with
  | zero =>
    intro l hl
    cases hl
  | succ steps ih =>
    obtain ⟨hnext, hle⟩ := @Direction.distance_step lib failing d h
    intro l hl
    rw [tried] at hl
    rcases List.mem_cons.1 hl with rfl | hl
    · exact ⟨hnext, hle⟩
    · split at hl
      · cases hl
      · obtain ⟨hlight, hstep⟩ := ih hnext l hl
        refine ⟨hlight, hstep.trans (max_le (le_max_left _ _) ?_)⟩
        norm_num at hle ⊢
        rcases hle with hle | hle
        · exact Or.inl (by linarith)
        · exact Or.inr (by linarith)

/-- With enough steps the walk ends at the pole. -/
theorem exists_pole_tried (h : InUnit failing)
    (henough : d.distance failing ≤ 0.049 * (steps + 1)) :
    ∃ l ∈ tried d (steps + 1) failing, d.distance l = 0 := by
  induction steps generalizing failing with
  | zero =>
    obtain ⟨hnext, hle⟩ := @Direction.distance_step lib failing d h
    rw [Nat.cast_zero, zero_add, mul_one] at henough
    rw [max_eq_left (sub_nonpos.2 henough)] at hle
    exact ⟨_, List.mem_cons_self, le_antisymm hle (Direction.distance_nonneg hnext)⟩
  | succ steps ih =>
    obtain ⟨hnext, hle⟩ := @Direction.distance_step lib failing d h
    rw [tried]
    by_cases hpole : d.atPole (Number.clamp (failing + d.step)) = true
    · exact ⟨_, List.mem_cons_self, (Direction.atPole_iff hnext).1 hpole⟩
    · have hpos : 0 < d.distance (Number.clamp (failing + d.step)) :=
        (Direction.distance_nonneg hnext).lt_of_ne fun hzero =>
          hpole ((Direction.atPole_iff hnext).2 hzero.symm)
      have hstep := (le_max_iff.1 hle).resolve_left (not_le.2 hpos)
      push_cast at henough
      obtain ⟨l, hl, hzero⟩ := ih hnext (by linarith)
      rw [if_neg hpole]
      exact ⟨l, List.mem_cons_of_mem _ hl, hzero⟩

/-- The rounded middle of two numbers lies between them. -/
theorem inUnit_middle {x y : Double lib} (hx : InUnit x) (hy : InUnit y) :
    InUnit ((y + x) * 0.5) ∧ min (toReal x) (toReal y) ≤ toReal ((y + x) * 0.5) ∧
      toReal ((y + x) * 0.5) ≤ max (toReal x) (toReal y) := by
  have habs {z : Double lib} (hz : InUnit z) : |toReal z| ≤ 100 :=
    (abs_of_nonneg hz.nonneg).trans_le (hz.le_one.trans (by norm_num))
  rcases le_total (toReal x) (toReal y) with hle | hle
  · obtain ⟨hfinite, hlow, hhigh⟩ := middle_mem hx.finite hy.finite hy.finite hx.finite hle le_rfl
      le_rfl hle (habs hx) (habs hy)
    rw [min_eq_left hle, max_eq_right hle]
    exact ⟨⟨hfinite, hx.nonneg.trans hlow, hhigh.trans hy.le_one⟩, hlow, hhigh⟩
  · obtain ⟨hfinite, hlow, hhigh⟩ := middle_mem hy.finite hx.finite hy.finite hx.finite le_rfl hle
      hle le_rfl (habs hy) (habs hx)
    rw [min_eq_right hle, max_eq_left hle]
    exact ⟨⟨hfinite, hy.nonneg.trans hlow, hhigh.trans hx.le_one⟩, hlow, hhigh⟩

theorem distance_middle {x y : Double lib} (hx : InUnit x) (hy : InUnit y) :
    min (d.distance x) (d.distance y) ≤ d.distance ((y + x) * 0.5) ∧
      d.distance ((y + x) * 0.5) ≤ max (d.distance x) (d.distance y) := by
  obtain ⟨-, hlow, hhigh⟩ := inUnit_middle hx hy
  cases d with
  | lighten =>
    simp only [Direction.distance]
    rw [min_sub_sub_left, max_sub_sub_left]
    exact ⟨sub_le_sub_left hhigh 1, sub_le_sub_left hlow 1⟩
  | darken => exact ⟨hlow, hhigh⟩

/-- The search ends at a lightness on the way to the pole that passes, or the pole itself fails.
Then what is left is the colour as it is, or one at least a step ahead of it. -/
theorem ensure_cases {foreground background : Color (Double lib)} {minimum : Double lib}
    (hd : Direction.awayFrom foreground background = d)
    (hfinite : Finite foreground.toOklch.lightness)
    (hfails : meets foreground background minimum = false) :
    (meets (ensure foreground background minimum) background minimum = true ∧
      ∃ l, InUnit l ∧ d.distance l ≤ d.distance (Number.clamp foreground.toOklch.lightness) ∧
        ensure foreground background minimum =
          Color.ofOklch (foreground.toOklch.withLightness l)) ∨
    (meets (ensure foreground background minimum) background minimum = false ∧
      (∃ l, InUnit l ∧ d.distance l = 0 ∧
        meets (Color.ofOklch (foreground.toOklch.withLightness l)) background minimum = false) ∧
      (ensure foreground background minimum = foreground ∨
        ∃ l, InUnit l ∧
          d.distance l ≤ max 0 (d.distance (Number.clamp foreground.toOklch.lightness) - 0.049) ∧
          ensure foreground background minimum =
            Color.ofOklch (foreground.toOklch.withLightness l))) := by
  subst hd
  have hstart := InUnit.clamp hfinite
  have htried := @tried_mem lib maxCandidates _ (Direction.awayFrom foreground background) hstart
  set d := Direction.awayFrom foreground background
  set u := Number.clamp foreground.toOklch.lightness with hu
  have hdistance := @Direction.distance_nonneg lib u d hstart
  rcases ensure_spec (P := fun l => InUnit l ∧ d.distance l ≤ d.distance u)
      (fun x y hx hy => ⟨(inUnit_middle hx.1 hy.1).1,
        (distance_middle hx.1 hy.1).2.trans (max_le hx.2 hy.2)⟩) hfails ⟨hstart, le_rfl⟩
      fun l hl => ⟨(htried l hl).1, (htried l hl).2.trans (max_le hdistance (by norm_num))⟩ with
    ⟨hpass, l, ⟨hl, hle⟩, hcolor⟩ | ⟨hfail, hall, hcolor⟩
  · exact Or.inl ⟨hpass, l, hl, hle, hcolor⟩
  · refine Or.inr ⟨hfail, ?_, ?_⟩
    · have hle := @Direction.distance_le_one lib u d hstart
      obtain ⟨l, hl, hpole⟩ := @exists_pole_tried lib 39 u d hstart (by norm_num; linarith)
      exact ⟨l, (htried l hl).1, hpole, hall l hl⟩
    · exact hcolor.imp_right fun ⟨l, hl, hcolor⟩ => ⟨l, (htried l hl).1, (htried l hl).2, hcolor⟩

end

end ThemeTokens.Contrast
