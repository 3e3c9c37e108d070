import ThemeTokens.Proofs.Color.Oklab
import ThemeTokens.Proofs.Contrast.Search

/-!
# How far the contrast search goes

The steps to the pole and the halvings that make a bracket narrow are fewer than the search allows
for both phases together, so it is never cut short. A bracket lies on the way from the start to the
pole, and when it is narrow its passing end is hardly further away than necessary.
-/
namespace ThemeTokens.Contrast
open Double
variable {lib : Binary64.Elementary} {candidate : Double lib → Color (Double lib)}
  {foreground background : Color (Double lib)} {minimum start failing passing : Double lib}
  {d : Direction}

/-! ## The number of steps -/

/-- Between two tries the distance shrinks by nearly a step. -/
theorem length_tried_le {steps n : ℕ} (h : InUnit failing)
    (hdistance : d.distance failing ≤ 0.049 * (n + 1)) :
    (tried d steps failing).length ≤ n + 1 := by
  induction n generalizing steps failing with
  | zero =>
    cases steps with
    | zero => exact Nat.zero_le _
    | succ steps =>
      obtain ⟨hnext, hle⟩ := @Direction.distance_step lib failing d h
      rw [Nat.cast_zero, zero_add, mul_one] at hdistance
      rw [max_eq_left (sub_nonpos.2 hdistance)] at hle
      have hpole : d.atPole (Number.clamp (failing + d.step)) = true :=
        (Direction.atPole_iff hnext).2 (le_antisymm hle (Direction.distance_nonneg hnext))
      rw [tried, if_pos hpole]
      exact le_rfl
  | succ n ih =>
    cases steps with
    | zero => exact Nat.zero_le _
    | succ steps =>
      obtain ⟨hnext, hle⟩ := @Direction.distance_step lib failing d h
      push_cast at hdistance
      rw [tried]
      refine Nat.succ_le_succ ?_
      split
      · exact Nat.zero_le _
      · refine ih hnext (hle.trans (max_le (by positivity) ?_))
        linarith

/-- The walk reaches the pole after at most 21 steps. -/
theorem length_walk_le (h : InUnit (startOf foreground)) (background : Color (Double lib))
    (minimum : Double lib) :
    (walkFrom foreground background minimum).1.length ≤ 21 := by
  have hone := @Direction.distance_le_one lib _ (Direction.awayFrom foreground background) h
  refine (recordedWalk_isPrefix_tried _ _ _).length_le.trans (length_tried_le (n := 20) h ?_)
  norm_num
  linarith

/-! ## The bracket -/

/-- The ends of a bracket on the way from the start to the pole. -/
structure Ordered (d : Direction) (start failing passing : Double lib) : Prop where
  failing_mem : InUnit failing
  passing_mem : InUnit passing
  failing_le : d.distance failing ≤ d.distance start
  passing_le : d.distance passing ≤ d.distance failing

/-- Either half of a bracket is a bracket. -/
theorem Ordered.halves (h : Ordered d start failing passing) :
    Ordered d start failing ((passing + failing) * 0.5) ∧
      Ordered d start ((passing + failing) * 0.5) passing := by
  obtain ⟨hmiddle, -, -⟩ := inUnit_middle h.failing_mem h.passing_mem
  obtain ⟨hlow, hhigh⟩ := @distance_middle lib d _ _ h.failing_mem h.passing_mem
  rw [min_eq_right h.passing_le] at hlow
  rw [max_eq_left h.passing_le] at hhigh
  exact ⟨⟨h.failing_mem, hmiddle, h.failing_le, hhigh⟩,
    ⟨hmiddle, h.passing_mem, hhigh.trans h.failing_le, hlow⟩⟩

theorem Ordered.recordedRefine {steps : ℕ} {color : Color (Double lib)}
    (h : Ordered d start failing passing) :
    let halving := recordedRefine candidate background minimum steps failing passing color
    Ordered d start halving.failing halving.passing := by
  induction steps generalizing failing passing color with
  | zero => exact h
  | succ steps ih =>
    obtain ⟨hnear, hfar⟩ := h.halves
    rw [Contrast.recordedRefine]
    dsimp only
    split
    · split
      · exact ih hnear
      · exact ih hfar
    · exact h

/-- A step does not lead away from the pole. -/
theorem distance_step_le (h : InUnit start) : InUnit (Number.clamp (start + d.step)) ∧
    d.distance (Number.clamp (start + d.step)) ≤ d.distance start := by
  obtain ⟨hnext, hle⟩ := @Direction.distance_step lib start d h
  exact ⟨hnext, hle.trans (max_le (Direction.distance_nonneg h) (by norm_num))⟩

/-- The walk leaves a bracket of one step. -/
theorem ordered_of_reached {steps left : ℕ} {best color : Color (Double lib)}
    (h : InUnit start)
    (hwalk : (recordedWalk candidate background minimum d steps start best).2 =
      .reached left failing passing color) :
    Ordered d start failing passing := by
  fun_induction recordedWalk candidate background minimum d steps start best with
  | case1 => cases hwalk
  | case2 steps start best lightness color' hmeets =>
    obtain ⟨rfl, rfl, rfl, rfl⟩ := Walk.reached.inj hwalk
    obtain ⟨hnext, hle⟩ := distance_step_le h
    exact ⟨h, hnext, le_rfl, hle⟩
  | case3 => cases hwalk
  | case4 steps start best lightness color' hmeets better hpole rest ih =>
    obtain ⟨hnext, hle⟩ := distance_step_le h
    obtain ⟨hfailing, hpassing, hstart, hpole⟩ := ih hnext hwalk
    exact ⟨hfailing, hpassing, hstart.trans hle, hpole⟩

/-! ## The number of halvings -/

theorem near_difference (hf : InUnit failing) (hp : InUnit passing) :
    Near 2 slip (passing - failing) (toReal passing - toReal failing) :=
  ((near_self hp).sub (near_self hf) (by norm_num)).mono (by norm_num) (by norm_num)

theorem toReal_abs {x : Double lib} (hx : Finite x) :
    Finite (Number.abs x) ∧ toReal (Number.abs x) = |toReal x| := by
  unfold Number.abs
  split
  · next hneg =>
    rw [lt_iff hx finite_zero, toReal_zero] at hneg
    exact ⟨Binary64.isFinite_neg hx, by rw [toReal_neg, abs_of_neg hneg]⟩
  · next hpos =>
    rw [lt_iff hx finite_zero, toReal_zero, not_lt] at hpos
    exact ⟨hx, (abs_of_nonneg hpos).symm⟩

theorem near_bracketWidth : Near 1 slip (bracketWidth : Double lib) 1e-4 :=
  near_fraction (by norm_num) (by norm_num) (by norm_num)

/-- A little below the width at which halving ends, so that rounding does not matter. -/
theorem not_wide (hf : InUnit failing) (hp : InUnit passing)
    (h : |toReal passing - toReal failing| ≤ 98 / 10 ^ 6 + 6 * slip) :
    ¬ bracketWidth < Number.abs (passing - failing) := by
  have hdifference := near_difference hf hp
  obtain ⟨hfinite, habs⟩ := toReal_abs hdifference.finite
  have hwidth := @near_bracketWidth lib
  have hge := hwidth.ge
  have herror := abs_sub_abs_le_abs_sub (toReal (passing - failing))
    (toReal passing - toReal failing)
  have hbound := hdifference.error
  rw [lt_iff hwidth.finite hfinite, habs, not_lt]
  norm_num [slip] at hge h hbound ⊢
  linarith

/-- Each half is half as wide, up to rounding. -/
theorem abs_middle_sub_le {w : ℝ} (hf : InUnit failing) (hp : InUnit passing)
    (h : |toReal passing - toReal failing| ≤ w) :
    |toReal ((passing + failing) * 0.5) - toReal failing| ≤ w / 2 + 2 * slip ∧
      |toReal passing - toReal ((passing + failing) * 0.5)| ≤ w / 2 + 2 * slip := by
  have hhalf : Near 1 0 (0.5 : Double lib) (1 / 2) := by
    have := Near.self (A := 1) (@finite_half lib) (by rw [toReal_half]; norm_num)
    rwa [toReal_half] at this
  have hmiddle := ((near_self hp).add (near_self hf) (by norm_num)).mul hhalf (by norm_num [slip])
  obtain ⟨hlow, hhigh⟩ := abs_le.1 hmiddle.error
  obtain ⟨hleft, hright⟩ := abs_le.1 h
  constructor <;> rw [abs_le] <;> constructor <;> linarith

/-- A bracket of the width `98e-6 * 2 ^ k` is halved at most `k` times. -/
theorem length_middles_le {k steps : ℕ} {color : Color (Double lib)} (hf : InUnit failing)
    (hp : InUnit passing)
    (h : |toReal passing - toReal failing| ≤ 98 / 10 ^ 6 * 2 ^ k + 6 * slip) :
    (recordedRefine candidate background minimum steps failing passing color).middles.length ≤
      k := by
  induction k generalizing steps failing passing color with
  | zero =>
    rw [pow_zero, mul_one] at h
    cases steps with
    | zero => exact le_rfl
    | succ steps =>
      rw [recordedRefine, if_neg (not_wide hf hp h)]
      exact le_rfl
  | succ k ih =>
    cases steps with
    | zero => exact Nat.zero_le _
    | succ steps =>
      have hmiddle := (inUnit_middle hf hp).1
      have hslip : (0 : ℝ) ≤ slip := by norm_num [slip]
      obtain ⟨hleft, hright⟩ := abs_middle_sub_le hf hp h
      have hhalf : (98 / 10 ^ 6 * 2 ^ (k + 1) + 6 * slip) / 2 + 2 * slip ≤
          98 / 10 ^ 6 * 2 ^ k + 6 * slip := by
        rw [pow_succ (2 : ℝ) k]
        linarith
      rw [recordedRefine]
      split
      · refine Nat.succ_le_succ ?_
        split
        · exact ih hf hmiddle (hleft.trans hhalf)
        · exact ih hmiddle hp (hright.trans hhalf)
      · exact Nat.zero_le _

/-- The clamp does not make a step longer. -/
theorem abs_next_sub_le (h : InUnit failing) :
    |toReal (Number.clamp (failing + d.step)) - toReal failing| ≤ 0.05 + 2 * slip := by
  have hself := near_self h
  have hstep : Near 1 (0.05 + 2 * slip) (failing + d.step) (toReal failing) := by
    cases d with
    | lighten =>
      rw [Direction.step]
      have hsum := hself.add Direction.near_stepLength (by norm_num [slip])
      obtain ⟨hlow, hhigh⟩ := abs_le.1 hsum.error
      norm_num at hlow hhigh
      exact ⟨hsum.finite, hself.bound, abs_le.2 ⟨by linarith, by linarith⟩⟩
    | darken =>
      rw [Direction.step]
      have hsum := hself.add Direction.near_stepLength.neg (by norm_num [slip])
      obtain ⟨hlow, hhigh⟩ := abs_le.1 hsum.error
      norm_num at hlow hhigh
      exact ⟨hsum.finite, hself.bound, abs_le.2 ⟨by linarith, by linarith⟩⟩
  have herror := hstep.clamp.error
  rwa [min_eq_right h.le_one, max_eq_right h.nonneg] at herror

/-- A bracket of one step is halved at most nine times. -/
theorem halving_tight {color : Color (Double lib)} {evaluated : List (Double lib)} (steps : ℕ)
    (hsteps : 9 < steps)
    (hbracket : Brackets candidate background minimum start evaluated failing passing color)
    (hordered : Ordered d start failing passing)
    (hnext : passing = Number.clamp (failing + d.step)) :
    let halving := recordedRefine candidate background minimum steps failing passing color
    halving.middles.length ≤ 9 ∧
      Brackets candidate background minimum start (evaluated ++ halving.middles) halving.failing
        halving.passing halving.color ∧
      Ordered d start halving.failing halving.passing ∧
      Number.abs (halving.passing - halving.failing) ≤ bracketWidth := by
  intro halving
  have hcount : halving.middles.length ≤ 9 := by
    refine length_middles_le hordered.failing_mem hordered.passing_mem ?_
    rw [hnext]
    refine (abs_next_sub_le hordered.failing_mem).trans ?_
    norm_num [slip]
  have hends : Ordered d start halving.failing halving.passing := hordered.recordedRefine
  have hdifference := near_difference hends.failing_mem hends.passing_mem
  refine ⟨hcount, hbracket.recordedRefine, hends, ?_⟩
  exact (Double.not_lt_iff_le near_bracketWidth.finite.isNaN_eq_false
    (toReal_abs hdifference.finite).1.isNaN_eq_false).1
      (recordedRefine_narrow (hcount.trans_lt hsteps))

/-! ## Both phases -/

/-- What a search within its budget has to show. -/
structure Search.Tight (s : Search (Double lib)) (foreground background : Color (Double lib))
    (minimum : Double lib) : Prop where
  count : s.evaluated.length < maxCandidates
  walk_ends : meets foreground background minimum = false →
    ∃ l, s.walked.getLast? = some l ∧
      (meets (candidateOf foreground l) background minimum = true ∨
        (Direction.awayFrom foreground background).atPole l = true)
  halving_ends : ∀ f p, s.bracket = some (f, p) → Number.abs (p - f) ≤ bracketWidth
  minimal : s.color ≠ foreground → meets s.color background minimum = true →
    ∃ p ∈ s.evaluated, s.color = candidateOf foreground p ∧
      ∃ f, (f = startOf foreground ∨
          f ∈ s.evaluated ∧ meets (candidateOf foreground f) background minimum = false) ∧
        Ordered (Direction.awayFrom foreground background) (startOf foreground) f p ∧
        Number.abs (p - f) ≤ (1e-4 : Double lib)

theorem tight_of_meets (h : meets foreground background minimum = true) :
    (search foreground background minimum).Tight foreground background minimum := by
  rw [search_of_meets h]
  exact ⟨Nat.zero_lt_succ _, fun hf => absurd (h.symm.trans hf) Bool.false_ne_true.symm,
    fun f p hb => (Option.some_ne_none _ hb.symm).elim, fun hne => absurd rfl hne⟩

theorem tight_of_exhausted (hstart : InUnit (startOf foreground))
    (h : meets foreground background minimum = false) {best : Color (Double lib)}
    (hwalk : (walkFrom foreground background minimum).2 = .exhausted best) :
    (search foreground background minimum).Tight foreground background minimum := by
  have hshort := length_walk_le hstart background minimum
  have hcount : (walkFrom foreground background minimum).1.length < maxCandidates :=
    hshort.trans_lt (by decide)
  have hbest : best = foreground ∨ meets best background minimum = false := by
    rw [walkFrom, recordedWalk_snd] at hwalk
    obtain ⟨hall, rfl | ⟨l, hl, rfl⟩⟩ := walk_exhausted hwalk
    · exact Or.inl rfl
    · exact Or.inr (hall l hl)
  rw [search_of_exhausted h hwalk]
  refine ⟨?_, fun _ => recordedWalk_last hcount, fun f p hb => (Option.some_ne_none _ hb.symm).elim,
    fun hne hm => ?_⟩
  · rw [Search.evaluated, List.append_nil]
    exact hcount
  · exact absurd (hm.symm.trans (hbest.resolve_left hne)) Bool.false_ne_true.symm

theorem tight_of_reached (hstart : InUnit (startOf foreground))
    (h : meets foreground background minimum = false) {steps : ℕ} {failing passing : Double lib}
    {color : Color (Double lib)}
    (hwalk : (walkFrom foreground background minimum).2 = .reached steps failing passing color) :
    (search foreground background minimum).Tight foreground background minimum := by
  have hshort := length_walk_le hstart background minimum
  have hcount : (walkFrom foreground background minimum).1.length < maxCandidates :=
    hshort.trans_lt (by decide)
  obtain ⟨hspent, hnext, hreached⟩ := recordedWalk_reached hwalk
  change (walkFrom foreground background minimum).1.length + steps = 40 at hspent
  obtain ⟨hhalved, hbracket, hends, hwidth⟩ :=
    halving_tight steps (by omega) hreached (ordered_of_reached hstart hwalk) hnext
  rw [search_of_reached h hwalk]
  refine ⟨?_, fun _ => recordedWalk_last hcount, ?_, fun _ _ => ?_⟩
  · rw [Search.evaluated, List.length_append, maxCandidates]
    dsimp only
    omega
  · intro f p hb
    obtain ⟨rfl, rfl⟩ := Prod.mk.inj (Option.some.inj hb)
    exact hwidth
  · exact ⟨_, hbracket.passing_mem, hbracket.color_eq, _, hbracket.failing_eq, hends, hwidth⟩

/-- The search is never cut short, and the answer goes at most the width of a narrow bracket further
than a lightness that fails. -/
theorem ensure_tight (hstart : InUnit (startOf foreground)) (background : Color (Double lib))
    (minimum : Double lib) :
    (search foreground background minimum).color = ensure foreground background minimum ∧
      (search foreground background minimum).Tight foreground background minimum := by
  refine ⟨search_color _ _ _, ?_⟩
  cases h : meets foreground background minimum with
  | true => exact tight_of_meets h
  | false =>
    cases hwalk : (walkFrom foreground background minimum).2 with
    | exhausted best => exact tight_of_exhausted hstart h hwalk
    | reached steps failing passing color => exact tight_of_reached hstart h hwalk

/-- White on white, which has to be darkened. -/
theorem ensure_tight_rounded :
    InUnit (startOf (Color.white : Color (Double .rounded))) ∧
      (search Color.white Color.white (4.5 : Double .rounded)).color =
        ensure Color.white Color.white 4.5 ∧
      (search Color.white Color.white (4.5 : Double .rounded)).Tight Color.white Color.white 4.5 :=
  have hstart : InUnit (startOf (Color.white : Color (Double .rounded))) :=
    InUnit.clamp (finite_lightness Binary64.Elementary.accurate_rounded Color.white)
  ⟨hstart, ensure_tight hstart Color.white 4.5⟩

end ThemeTokens.Contrast
