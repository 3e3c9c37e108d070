import ThemeTokens.Proofs.Contrast

/-!
# What the contrast search evaluates

The search once more, with a record of the lightnesses that it evaluates and of the bracket that it
leaves. Its answer is that of the search without a record, so what a record shows holds of the
search.
-/
namespace ThemeTokens.Contrast
variable {R : Type} [Number R]

/-- The colour that the search evaluates at a lightness. -/
def candidateOf (foreground : Color R) (lightness : R) : Color R :=
  Color.ofOklch (foreground.toOklch.withLightness lightness)

/-- The lightness that the walk starts from, which is not evaluated again. -/
def startOf (foreground : Color R) : R := Number.clamp foreground.toOklch.lightness

/-- The middles of a bracket that was halved, its last two ends, and the answer. -/
structure Halving (R : Type) where
  middles : List R
  failing : R
  passing : R
  color : Color R

/-- The lightnesses of both phases in order, the ends of the last bracket, and the answer. -/
structure Search (R : Type) where
  walked : List R
  halved : List R
  bracket : Option (R × R)
  color : Color R

def Search.evaluated (s : Search R) : List R := s.walked ++ s.halved

section
variable (candidate : R → Color R) (background : Color R) (minimum : R)

def recordedWalk (direction : Direction) : ℕ → R → Color R → List R × Walk R
  | 0, _, best => ([], .exhausted best)
  | steps + 1, failing, best =>
    let lightness := Number.clamp (failing + direction.step)
    let color := candidate lightness
    if meets color background minimum then
      ([lightness], .reached steps failing lightness color)
    else
      let best := if ratio best background < ratio color background then color else best
      if direction.atPole lightness then ([lightness], .exhausted best)
      else
        let rest := recordedWalk direction steps lightness best
        (lightness :: rest.1, rest.2)

def recordedRefine : ℕ → R → R → Color R → Halving R
  | 0, failing, passing, color => ⟨[], failing, passing, color⟩
  | steps + 1, failing, passing, color =>
    if bracketWidth < Number.abs (passing - failing) then
      let middle := (passing + failing) * 0.5
      let halfway := candidate middle
      let rest :=
        if meets halfway background minimum then recordedRefine steps failing middle halfway
        else recordedRefine steps middle passing color
      { rest with middles := middle :: rest.middles }
    else ⟨[], failing, passing, color⟩

end

/-- The walk from a foreground away from its background. -/
def walkFrom (foreground background : Color R) (minimum : R) : List R × Walk R :=
  recordedWalk (candidateOf foreground) background minimum
    (Direction.awayFrom foreground background) maxCandidates (startOf foreground) foreground

def search (foreground background : Color R) (minimum : R) : Search R :=
  if meets foreground background minimum then ⟨[], [], none, foreground⟩
  else
    let walked := walkFrom foreground background minimum
    match walked.2 with
    | .exhausted best => ⟨walked.1, [], none, best⟩
    | .reached steps failing passing color =>
      let halving := recordedRefine (candidateOf foreground) background minimum steps failing
        passing color
      ⟨walked.1, halving.middles, some (halving.failing, halving.passing), halving.color⟩

section
variable {candidate : R → Color R} {background foreground : Color R} {minimum : R}
  {direction : Direction}

/-! ## The record keeps the answer -/

theorem recordedWalk_snd (steps : ℕ) (failing : R) (best : Color R) :
    (recordedWalk candidate background minimum direction steps failing best).2 =
      walk candidate background minimum direction steps failing best := by
  fun_induction recordedWalk candidate background minimum direction steps failing best with
  | case1 => rfl
  | case2 steps failing best lightness color hmeets =>
    rw [walk]
    exact (if_pos hmeets).symm
  | case3 steps failing best lightness color hmeets better hpole =>
    rw [walk]
    exact ((if_neg hmeets).trans (if_pos hpole)).symm
  | case4 steps failing best lightness color hmeets better hpole rest ih =>
    rw [walk]
    exact ih.trans ((if_neg hmeets).trans (if_neg hpole)).symm

theorem recordedRefine_color (steps : ℕ) (failing passing : R) (color : Color R) :
    (recordedRefine candidate background minimum steps failing passing color).color =
      refine candidate background minimum steps failing passing color := by
  induction steps generalizing failing passing color with
  | zero => rfl
  | succ steps ih =>
    rw [recordedRefine, refine]
    dsimp only
    split
    · split
      · exact ih _ _ _
      · exact ih _ _ _
    · rfl

/-! ## The walk -/

theorem length_recordedWalk_le (steps : ℕ) (failing : R) (best : Color R) :
    (recordedWalk candidate background minimum direction steps failing best).1.length ≤ steps := by
  fun_induction recordedWalk candidate background minimum direction steps failing best with
  | case1 => exact le_rfl
  | case2 => exact Nat.le_add_left 1 _
  | case3 => exact Nat.le_add_left 1 _
  | case4 steps failing best lightness color hmeets better hpole rest ih =>
    exact Nat.add_le_add_right ih 1

theorem recordedWalk_isPrefix_tried (steps : ℕ) (failing : R) (best : Color R) :
    (recordedWalk candidate background minimum direction steps failing best).1 <+:
      tried direction steps failing := by
  fun_induction recordedWalk candidate background minimum direction steps failing best with
  | case1 => exact List.nil_prefix
  | case2 steps failing best lightness color hmeets =>
    exact (List.prefix_cons_inj _).2 List.nil_prefix
  | case3 steps failing best lightness color hmeets better hpole =>
    exact (List.prefix_cons_inj _).2 List.nil_prefix
  | case4 steps failing best lightness color hmeets better hpole rest ih =>
    rw [tried]
    refine (List.prefix_cons_inj _).2 ?_
    rw [if_neg hpole]
    exact ih

/-- A walk that no lightness ends evaluates all that there are. -/
theorem recordedWalk_exhausted {steps : ℕ} {failing : R} {best outcome : Color R}
    (h : (recordedWalk candidate background minimum direction steps failing best).2 =
      .exhausted outcome) :
    (recordedWalk candidate background minimum direction steps failing best).1 =
      tried direction steps failing := by
  fun_induction recordedWalk candidate background minimum direction steps failing best with
  | case1 => rfl
  | case2 => cases h
  | case3 steps failing best lightness color hmeets better hpole =>
    rw [tried]
    exact congrArg (lightness :: ·) (if_pos hpole).symm
  | case4 steps failing best lightness color hmeets better hpole rest ih =>
    rw [tried]
    exact congrArg (lightness :: ·) ((ih h).trans (if_neg hpole).symm)

/-- A walk with steps to spare ends at a lightness that passes or at the pole. -/
theorem recordedWalk_last {steps : ℕ} {failing : R} {best : Color R}
    (h : (recordedWalk candidate background minimum direction steps failing best).1.length <
      steps) :
    ∃ l, (recordedWalk candidate background minimum direction steps failing best).1.getLast? =
        some l ∧
      (meets (candidate l) background minimum = true ∨ direction.atPole l = true) := by
  fun_induction recordedWalk candidate background minimum direction steps failing best with
  | case1 => cases h
  | case2 steps failing best lightness color hmeets => exact ⟨lightness, rfl, Or.inl hmeets⟩
  | case3 steps failing best lightness color hmeets better hpole =>
    exact ⟨lightness, rfl, Or.inr hpole⟩
  | case4 steps failing best lightness color hmeets better hpole rest ih =>
    obtain ⟨l, hlast, hend⟩ := ih (Nat.lt_of_succ_lt_succ h)
    refine ⟨l, ?_, hend⟩
    rw [List.getLast?_cons, hlast]
    rfl

/-- What the two phases keep of the bracket: its failing end is the start or was evaluated and
failed, its passing end was evaluated and passed. -/
structure Brackets (candidate : R → Color R) (background : Color R) (minimum start : R)
    (evaluated : List R) (failing passing : R) (color : Color R) : Prop where
  failing_eq : failing = start ∨
    failing ∈ evaluated ∧ meets (candidate failing) background minimum = false
  passing_mem : passing ∈ evaluated
  passes : meets (candidate passing) background minimum = true
  color_eq : color = candidate passing

theorem recordedWalk_reached {steps left : ℕ} {start failing passing : R} {best color : Color R}
    (h : (recordedWalk candidate background minimum direction steps start best).2 =
      .reached left failing passing color) :
    (recordedWalk candidate background minimum direction steps start best).1.length + left =
        steps ∧
      passing = Number.clamp (failing + direction.step) ∧
      Brackets candidate background minimum start
        (recordedWalk candidate background minimum direction steps start best).1
        failing passing color := by
  fun_induction recordedWalk candidate background minimum direction steps start best with
  | case1 => cases h
  | case2 steps start best lightness color' hmeets =>
    obtain ⟨rfl, rfl, rfl, rfl⟩ := Walk.reached.inj h
    exact ⟨Nat.add_comm 1 _, rfl, Or.inl rfl, List.mem_singleton_self _, hmeets, rfl⟩
  | case3 => cases h
  | case4 steps start best lightness color' hmeets better hpole rest ih =>
    obtain ⟨hlength, hstep, hbracket⟩ := ih h
    refine ⟨?_, hstep, Or.inr ?_, List.mem_cons_of_mem _ hbracket.passing_mem, hbracket.passes,
      hbracket.color_eq⟩
    · rw [← hlength, List.length_cons]
      exact Nat.add_right_comm _ 1 _
    · rcases hbracket.failing_eq with rfl | ⟨hmem, hfails⟩
      · exact ⟨List.mem_cons_self, Bool.eq_false_iff.2 hmeets⟩
      · exact ⟨List.mem_cons_of_mem _ hmem, hfails⟩

/-! ## The halving -/

theorem length_recordedRefine_le (steps : ℕ) (failing passing : R) (color : Color R) :
    (recordedRefine candidate background minimum steps failing passing color).middles.length ≤
      steps := by
  induction steps generalizing failing passing color with
  | zero => exact le_rfl
  | succ steps ih =>
    rw [recordedRefine]
    dsimp only
    split
    · refine Nat.succ_le_succ ?_
      split
      · exact ih _ _ _
      · exact ih _ _ _
    · exact Nat.zero_le _

/-- Halving with steps to spare ends with a narrow bracket. -/
theorem recordedRefine_narrow {steps : ℕ} {failing passing : R} {color : Color R}
    (h : (recordedRefine candidate background minimum steps failing passing color).middles.length <
      steps) :
    ¬ bracketWidth < Number.abs
      ((recordedRefine candidate background minimum steps failing passing color).passing -
        (recordedRefine candidate background minimum steps failing passing color).failing) := by
  induction steps generalizing failing passing color with
  | zero => cases h
  | succ steps ih =>
    rw [recordedRefine] at h ⊢
    dsimp only at h ⊢
    split
    · next hwide =>
      rw [if_pos hwide] at h
      split
      · next hmeets =>
        rw [if_pos hmeets] at h
        exact ih (Nat.lt_of_succ_lt_succ h)
      · next hmeets =>
        rw [if_neg hmeets] at h
        exact ih (Nat.lt_of_succ_lt_succ h)
    · next hnarrow => exact hnarrow

/-- The middle replaces the end that it agrees with. -/
theorem Brackets.recordedRefine {steps : ℕ} {start failing passing : R} {evaluated : List R}
    {color : Color R}
    (h : Brackets candidate background minimum start evaluated failing passing color) :
    let halving := recordedRefine candidate background minimum steps failing passing color
    Brackets candidate background minimum start (evaluated ++ halving.middles)
      halving.failing halving.passing halving.color := by
  induction steps generalizing failing passing color evaluated with
  | zero =>
    change Brackets candidate background minimum start (evaluated ++ []) failing passing color
    rw [List.append_nil]
    exact h
  | succ steps ih =>
    rw [Contrast.recordedRefine]
    dsimp only
    split
    · set middle : R := (passing + failing) * 0.5
      have hmem : middle ∈ evaluated ++ [middle] := List.mem_append_right _ List.mem_cons_self
      rw [List.append_cons]
      split
      · next hmeets =>
        refine ih ⟨?_, hmem, hmeets, rfl⟩
        exact h.failing_eq.imp_right fun hf => ⟨List.mem_append_left _ hf.1, hf.2⟩
      · next hmeets =>
        exact ih ⟨Or.inr ⟨hmem, Bool.eq_false_iff.2 hmeets⟩,
          List.mem_append_left _ h.passing_mem, h.passes, h.color_eq⟩
    · rw [List.append_nil]
      exact h

/-! ## Both phases -/

theorem search_of_meets (h : meets foreground background minimum = true) :
    search foreground background minimum = ⟨[], [], none, foreground⟩ := by
  rw [search]
  exact if_pos h

theorem search_of_exhausted (h : meets foreground background minimum = false) {best : Color R}
    (hwalk : (walkFrom foreground background minimum).2 = .exhausted best) :
    search foreground background minimum =
      ⟨(walkFrom foreground background minimum).1, [], none, best⟩ := by
  rw [search, if_neg (Bool.eq_false_iff.1 h)]
  dsimp only
  rw [hwalk]

theorem search_of_reached (h : meets foreground background minimum = false) {steps : ℕ}
    {failing passing : R} {color : Color R}
    (hwalk : (walkFrom foreground background minimum).2 = .reached steps failing passing color) :
    search foreground background minimum =
      let halving := recordedRefine (candidateOf foreground) background minimum steps failing
        passing color
      ⟨(walkFrom foreground background minimum).1, halving.middles,
        some (halving.failing, halving.passing), halving.color⟩ := by
  rw [search, if_neg (Bool.eq_false_iff.1 h)]
  dsimp only
  rw [hwalk]

theorem ensure_of_fails (h : meets foreground background minimum = false) :
    ensure foreground background minimum =
      match (walkFrom foreground background minimum).2 with
      | .exhausted best => best
      | .reached steps failing passing color =>
        refine (candidateOf foreground) background minimum steps failing passing color := by
  rw [ensure, walkFrom, recordedWalk_snd]
  exact if_neg (Bool.eq_false_iff.1 h)

theorem search_color (foreground background : Color R) (minimum : R) :
    (search foreground background minimum).color = ensure foreground background minimum := by
  cases h : meets foreground background minimum with
  | true => rw [search_of_meets h, ensure_of_meets h]
  | false =>
    rw [ensure_of_fails h]
    cases hwalk : (walkFrom foreground background minimum).2 with
    | exhausted best => rw [search_of_exhausted h hwalk]
    | reached steps failing passing color =>
      rw [search_of_reached h hwalk]
      exact recordedRefine_color _ _ _ _

/-- The bracket that is left after both phases, among all lightnesses that they evaluated. -/
theorem search_brackets (h : meets foreground background minimum = false) {steps : ℕ}
    {failing passing : R} {color : Color R}
    (hwalk : (walkFrom foreground background minimum).2 = .reached steps failing passing color) :
    ∃ f p, (search foreground background minimum).bracket = some (f, p) ∧
      Brackets (candidateOf foreground) background minimum (startOf foreground)
        (search foreground background minimum).evaluated f p
        (search foreground background minimum).color := by
  rw [search_of_reached h hwalk]
  exact ⟨_, _, rfl, (recordedWalk_reached hwalk).2.2.recordedRefine⟩

/-- A search that falls short has walked to its end. -/
theorem exhausted_of_fails (h : meets foreground background minimum = false)
    (hensure : meets (ensure foreground background minimum) background minimum = false) :
    walk (candidateOf foreground) background minimum (Direction.awayFrom foreground background)
      maxCandidates (startOf foreground) foreground =
        .exhausted (ensure foreground background minimum) := by
  rw [← recordedWalk_snd]
  change (walkFrom foreground background minimum).2 = _
  cases hwalk : (walkFrom foreground background minimum).2 with
  | exhausted best => rw [ensure_of_fails h, hwalk]
  | reached steps failing passing color =>
    obtain ⟨f, p, -, hbracket⟩ := search_brackets h hwalk
    rw [← search_color, hbracket.color_eq, hbracket.passes] at hensure
    cases hensure

/-- A walk through nothing but the foreground leaves it as it is. -/
theorem ensure_eq_self
    (h : ∀ l ∈ tried (Direction.awayFrom foreground background) maxCandidates (startOf foreground),
      candidateOf foreground l = foreground) :
    ensure foreground background minimum = foreground := by
  cases hmeets : meets foreground background minimum with
  | true => exact ensure_of_meets hmeets
  | false =>
    rw [ensure_of_fails hmeets]
    cases hwalk : (walkFrom foreground background minimum).2 with
    | exhausted best =>
      rw [walkFrom, recordedWalk_snd] at hwalk
      rcases (walk_exhausted hwalk).2 with rfl | ⟨l, hl, rfl⟩
      · rfl
      · exact h l hl
    | reached steps failing passing color =>
      rw [walkFrom, recordedWalk_snd] at hwalk
      obtain ⟨-, hpassing, -, hpass⟩ := walk_reached hwalk
      rw [h passing hpassing, hmeets] at hpass
      cases hpass

theorem length_evaluated_le (foreground background : Color R) (minimum : R) :
    (search foreground background minimum).evaluated.length ≤ maxCandidates := by
  rw [Search.evaluated, List.length_append]
  cases h : meets foreground background minimum with
  | true =>
    rw [search_of_meets h]
    exact Nat.zero_le _
  | false =>
    cases hwalk : (walkFrom foreground background minimum).2 with
    | exhausted best =>
      rw [search_of_exhausted h hwalk]
      exact length_recordedWalk_le _ _ _
    | reached steps failing passing color =>
      rw [search_of_reached h hwalk, ← (recordedWalk_reached hwalk).1]
      exact Nat.add_le_add_left (length_recordedRefine_le _ _ _ _) _

end

end ThemeTokens.Contrast
