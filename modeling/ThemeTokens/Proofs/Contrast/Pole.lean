import ThemeTokens.Proofs.Color.Dark
import ThemeTokens.Proofs.Contrast.Best
import ThemeTokens.Proofs.Legibility

/-!
# Out of reach

When the contrast search falls short it has come to black or white, for nothing on its way there can
contrast more: what is on the pole's side of the background contrasts less by a whole byte, and a
step that has crossed the background has not gone far enough to make up for it. So a second search
has nothing left to do.
-/
namespace ThemeTokens

/-- The colour that the search moves toward. -/
def Contrast.Direction.pole {R : Type} [Number R] : Contrast.Direction → Color R
  | .lighten => Color.white
  | .darken => Color.black

namespace Double
open Transfer Contrast
variable {lib : Binary64.Elementary} {c background : Color (Double lib)}

/-! ## Channels -/

theorem light_pole_lighten : (Direction.lighten.pole : Color (Double lib)).light = 1 := light_white

theorem light_pole_darken : (Direction.darken.pole : Color (Double lib)).light = 0 := light_black

theorem sameChannels_white_or_light_le (c : Color (Double lib)) :
    c.SameChannels Color.white ∨ c.light ≤ 1 - 1 / 2000 :=
  channels_or_light_le c

/-- A colour has black's channels or is visibly lighter. -/
theorem sameChannels_black_or_light_ge (c : Color (Double lib)) :
    c.SameChannels Color.black ∨ 1.8 / 10 ^ 5 ≤ c.light := by
  have hr := light_nonneg c.red
  have hg := light_nonneg c.green
  have hb := light_nonneg c.blue
  have lighter (h : 1 / 4000 ≤ light c.red ∨ 1 / 4000 ≤ light c.green ∨
      1 / 4000 ≤ light c.blue) : 1.8 / 10 ^ 5 ≤ c.light := by
    rw [Color.light]
    norm_num at h ⊢
    rcases h with h | h | h <;> linarith
  by_cases hred : c.red = 0
  · by_cases hgreen : c.green = 0
    · by_cases hblue : c.blue = 0
      · exact Or.inl ⟨hred, hgreen, hblue⟩
      · exact Or.inr (lighter (Or.inr (Or.inr (light_ge_of_ne_zero hblue))))
    · exact Or.inr (lighter (Or.inr (Or.inl (light_ge_of_ne_zero hgreen))))
  · exact Or.inr (lighter (Or.inl (light_ge_of_ne_zero hred)))

/-! ## The contrast of the poles -/

theorem div_add_le_div_iff {p q r s δ : ℝ} (hq : 0 < q) (hs : 0 < s) :
    p / q + δ ≤ r / s ↔ (p + δ * q) * s ≤ r * q := by
  rw [div_add' _ _ _ hq.ne', div_le_div_iff₀ hq hs]

/-- White contrasts visibly more than a colour that is not far on the wrong side. -/
theorem contrast_white_ge {Y : ℝ} (hY1 : Y ≤ 1) (hbackground : background.light ≤ Y + 2 / 10 ^ 8)
    (hc : c.light ≤ 1 - 1 / 2000)
    (hsquare : (Y + 0.05) ^ 2 + 0.0003 ≤ 1.05 * (c.light + 0.05)) :
    c.contrast background + 2.1 / 10 ^ 4 ≤
      (Color.white : Color (Double lib)).contrast background := by
  have hB0 := color_light_nonneg background
  have hB1 := color_light_le_one background
  have hC0 := color_light_nonneg c
  have hwhite : (Color.white : Color (Double lib)).contrast background =
      (1 + 0.05) / (background.light + 0.05) := by
    rw [contrast_of_le (by rwa [light_white]), light_white]
  rw [hwhite]
  rcases le_total background.light c.light with hright | hwrong
  · rw [contrast_of_le hright, div_add_le_div_iff (by linarith) (by linarith)]
    refine mul_le_mul_of_nonneg_right ?_ (by linarith)
    norm_num at hc ⊢
    linarith
  · rw [contrast_comm, contrast_of_le hwrong, div_add_le_div_iff (by linarith) (by linarith)]
    generalize background.light = B at *
    generalize c.light = C at *
    have hproduct : (B + 0.05) * (C + 0.05) ≤ 1.05 * 1.05 :=
      mul_le_mul (by norm_num; linarith) (by norm_num at hc ⊢; linarith) (by linarith)
        (by norm_num)
    have hB2 : (B + 0.05) ^ 2 ≤ (Y + 0.05 + 2 / 10 ^ 8) ^ 2 := by
      refine pow_le_pow_left₀ (by linarith) ?_ 2
      linarith
    calc (B + 0.05 + 2.1 / 10 ^ 4 * (C + 0.05)) * (B + 0.05)
        = (B + 0.05) ^ 2 + 2.1 / 10 ^ 4 * ((B + 0.05) * (C + 0.05)) := by ring
      _ ≤ (Y + 0.05 + 2 / 10 ^ 8) ^ 2 + 2.1 / 10 ^ 4 * (1.05 * 1.05) := by gcongr
      _ = (Y + 0.05) ^ 2 + (4 / 10 ^ 8 * (Y + 0.05) + (2 / 10 ^ 8) ^ 2 +
          2.1 / 10 ^ 4 * (1.05 * 1.05)) := by ring
      _ ≤ (Y + 0.05) ^ 2 + 0.0003 := by norm_num; linarith
      _ ≤ (1 + 0.05) * (C + 0.05) := by norm_num at hsquare ⊢; linarith

/-- Black contrasts visibly more than a colour that is not far on the wrong side. -/
theorem contrast_black_ge {Y : ℝ} (hbackground : Y ≤ background.light + 2 / 10 ^ 8)
    (hc : 1.8 / 10 ^ 5 ≤ c.light) (htwice : c.light + 1.2 / 10 ^ 5 ≤ 1.99 * Y) :
    c.contrast background + 2.1 / 10 ^ 4 ≤
      (Color.black : Color (Double lib)).contrast background := by
  have hB0 := color_light_nonneg background
  have hC0 := color_light_nonneg c
  have hblack : (Color.black : Color (Double lib)).contrast background =
      (background.light + 0.05) / (0 + 0.05) := by
    rw [contrast_comm, contrast_of_le (by rwa [light_black]), light_black]
  rw [hblack]
  rcases le_total c.light background.light with hright | hwrong
  · rw [contrast_comm, contrast_of_le hright, div_add_le_div_iff (by linarith) (by norm_num)]
    generalize background.light = B at *
    generalize c.light = C at *
    have hgap : (1.8 / 10 ^ 5) * 0.05 ≤ C * (B + 0.05) :=
      mul_le_mul hc (by linarith) (by norm_num) hC0
    norm_num at hgap hc ⊢
    nlinarith
  · rw [contrast_of_le hwrong, div_add_le_div_iff (by linarith) (by norm_num)]
    generalize background.light = B at *
    generalize c.light = C at *
    have hB2 : 0 ≤ B ^ 2 := sq_nonneg B
    norm_num at hbackground htwice ⊢
    nlinarith

/-! ## The direction of the search -/

variable {foreground : Color (Double lib)} {d : Direction}

theorem light_le_of_luminance_le (acc : lib.Accurate)
    (h : toReal c.luminance ≤ toReal background.luminance) :
    c.light ≤ background.light + 2 / 10 ^ 8 := by
  have hc := (near_luminance acc c).ge
  have hbackground := (near_luminance acc background).le
  linarith

theorem luminance_lt_of_light (acc : lib.Accurate) (h : c.light + 1 / 10 ^ 5 ≤ background.light) :
    c.luminance < background.luminance := by
  have hc := near_luminance acc c
  have hbackground := near_luminance acc background
  rw [lt_iff hc.finite hbackground.finite]
  have := hc.le
  have := hbackground.ge
  norm_num at *
  linarith

theorem luminance_irrefl (acc : lib.Accurate) (c : Color (Double lib)) :
    ¬ c.luminance < c.luminance := by
  have hc := near_luminance acc c
  rw [lt_iff hc.finite hc.finite]
  exact lt_irrefl _

theorem luminance_le_of_lighten (acc : lib.Accurate)
    (h : Direction.awayFrom foreground background = .lighten) :
    toReal background.luminance ≤ toReal foreground.luminance := by
  have hf := (near_luminance acc foreground).finite
  have hb := (near_luminance acc background).finite
  by_contra hlt
  rw [not_le, ← lt_iff hf hb] at hlt
  rw [Direction.awayFrom, if_neg, if_pos hlt] at h
  · cases h
  · rw [lt_iff hb hf, not_lt]
    exact ((lt_iff hf hb).1 hlt).le

theorem luminance_le_of_darken (acc : lib.Accurate)
    (h : Direction.awayFrom foreground background = .darken) :
    toReal foreground.luminance ≤ toReal background.luminance := by
  have hf := (near_luminance acc foreground).finite
  have hb := (near_luminance acc background).finite
  by_contra hlt
  rw [not_le, ← lt_iff hb hf] at hlt
  rw [Direction.awayFrom, if_pos hlt] at h
  cases h

/-- Colours of one luminance are moved toward the pole that contrasts more. -/
theorem awayFrom_of_sameChannels (acc : lib.Accurate) (h : c.SameChannels background) :
    Direction.awayFrom c background =
      if ratio Color.black background ≤ ratio Color.white background then .lighten else .darken := by
  rw [Direction.awayFrom, h.luminance_eq, if_neg (luminance_irrefl acc background),
    if_neg (luminance_irrefl acc background)]

theorem ratio_lt_of_contrast (acc : lib.Accurate) {e : Color (Double lib)}
    (h : c.contrast background + 2.1 / 10 ^ 4 ≤ e.contrast background) :
    ratio c background < ratio e background := by
  have hc := near_ratio acc c background
  have he := near_ratio acc e background
  rw [lt_iff hc.finite he.finite]
  have := hc.le
  have := he.ge
  norm_num at *
  linarith

theorem awayFrom_white (acc : lib.Accurate) :
    Direction.awayFrom (Color.white : Color (Double lib)) Color.white = .darken := by
  rw [awayFrom_of_sameChannels acc (.refl _), if_neg]
  have hlt : ratio (Color.white : Color (Double lib)) Color.white < ratio Color.black Color.white := by
    refine ratio_lt_of_contrast acc ?_
    rw [contrast_comm Color.black, contrast_of_le le_rfl, contrast_of_le (by
      rw [light_black, light_white]; norm_num), light_black, light_white]
    norm_num
  have hb := finite_ratio acc (Color.black : Color (Double lib)) Color.white
  have hw := finite_ratio acc (Color.white : Color (Double lib)) Color.white
  rw [lt_iff hw hb] at hlt
  rw [le_iff hb hw, not_le]
  exact hlt

theorem awayFrom_black (acc : lib.Accurate) :
    Direction.awayFrom (Color.black : Color (Double lib)) Color.black = .lighten := by
  rw [awayFrom_of_sameChannels acc (.refl _), if_pos]
  refine Double.le_of_lt (ratio_lt_of_contrast acc ?_)
  rw [contrast_of_le le_rfl, contrast_of_le (by rw [light_black, light_white]; norm_num),
    light_black, light_white]
  norm_num

theorem awayFrom_congr {d e : Color (Double lib)} (hc : c.SameChannels d)
    (hbackground : background.SameChannels e) :
    Direction.awayFrom c background = Direction.awayFrom d e := by
  have hratio (other : Color (Double lib)) : ratio other background = ratio other e := by
    rw [ratio, ratio, hbackground.luminance_eq]
  rw [Direction.awayFrom, Direction.awayFrom, hc.luminance_eq, hbackground.luminance_eq, hratio,
    hratio]

/-- What is moved toward a pole is not on that pole. -/
theorem not_pole_of_awayFrom (acc : lib.Accurate)
    (h : Direction.awayFrom foreground background = d) : ¬ background.SameChannels d.pole := by
  intro hpole
  cases d with
  | lighten =>
    have hlight := light_le_of_luminance_le acc (luminance_le_of_lighten acc h)
    rw [hpole.light_eq, light_pole_lighten] at hlight
    rcases sameChannels_white_or_light_le foreground with hwhite | hdarker
    · rw [awayFrom_congr hwhite (e := Color.white) hpole, awayFrom_white acc] at h
      cases h
    · norm_num at hlight hdarker
      linarith
  | darken =>
    have hlight := light_le_of_luminance_le acc (luminance_le_of_darken acc h)
    rw [hpole.light_eq, light_pole_darken] at hlight
    rcases sameChannels_black_or_light_ge foreground with hblack | hlighter
    · rw [awayFrom_congr hblack (e := Color.black) hpole, awayFrom_black acc] at h
      cases h
    · norm_num at hlight hlighter
      linarith

/-- At a pole the search does not turn around. -/
theorem awayFrom_of_pole (acc : lib.Accurate)
    (h : Direction.awayFrom foreground background = d) (hc : c.SameChannels d.pole) :
    Direction.awayFrom c background = d := by
  have hpole := not_pole_of_awayFrom acc h
  have hlight := hc.light_eq
  cases d with
  | lighten =>
    have hdarker := (sameChannels_white_or_light_le background).resolve_left hpole
    rw [light_pole_lighten] at hlight
    refine if_pos (luminance_lt_of_light acc ?_)
    rw [hlight]
    norm_num at hdarker ⊢
    linarith
  | darken =>
    have hlighter := (sameChannels_black_or_light_ge background).resolve_left hpole
    rw [light_pole_darken] at hlight
    have hlt : c.luminance < background.luminance := by
      refine luminance_lt_of_light acc ?_
      rw [hlight]
      norm_num at hlighter ⊢
      linarith
    have hc := (near_luminance acc c).finite
    have hb := (near_luminance acc background).finite
    rw [Direction.awayFrom, if_neg, if_pos hlt]
    rw [lt_iff hb hc, not_lt]
    exact ((lt_iff hc hb).1 hlt).le

/-! ## Candidates -/

variable {l : Double lib}

theorem inUnit_startOf (acc : lib.Accurate) (c : Color (Double lib)) : InUnit (startOf c) :=
  InUnit.clamp (finite_lightness acc c)

theorem toReal_startOf (acc : lib.Accurate) (c : Color (Double lib)) :
    toReal (startOf c) = max 0 (min 1 (toReal c.toOklch.lightness)) :=
  toReal_clamp (finite_lightness acc c)

theorem candidate_pole (acc : lib.Accurate) (foreground : Color (Double lib)) (hl : InUnit l)
    (hpole : d.distance l = 0) : (candidateOf foreground l).SameChannels d.pole := by
  obtain ⟨hmuted, hlightness⟩ := muted_withLightness acc (chroma_toOklch_le acc foreground) hl
  cases d with
  | lighten =>
    exact hmuted.ofOklch_eq_white acc le_rfl (hlightness.trans (sub_eq_zero.1 hpole).symm)
  | darken => exact hmuted.ofOklch_eq_black acc le_rfl (hlightness.trans hpole)

theorem sq_le_of_ahead (acc : lib.Accurate) (foreground : Color (Double lib)) (hl : InUnit l)
    (hl1 : toReal l < 1) (hahead : toReal foreground.toOklch.lightness + 0.049 ≤ toReal l) :
    (foreground.light + 0.05) ^ 2 + 0.0003 ≤
      1.05 * ((candidateOf foreground l).light + 0.05) := by
  obtain ⟨_, _, _, hself⟩ := exists_responses acc foreground
  obtain ⟨hmuted, hlightness⟩ := muted_withLightness acc (chroma_toOklch_le acc foreground) hl
  have hcandidate := hmuted.cones acc le_rfl
  rw [hlightness] at hcandidate
  have hsquare := hself.cones.sq_le_of_step hcandidate hahead hl1
  have hbytes := (abs_le.1 (hmuted.abs_light_sub_luminance_le acc le_rfl)).1
  rw [Color.luminance_shown] at hsquare
  change -0.0061 ≤ (candidateOf foreground l).light - _ at hbytes
  norm_num at hsquare hbytes ⊢
  linarith

theorem le_twice_of_behind (acc : lib.Accurate) (foreground : Color (Double lib)) (hl : InUnit l)
    (hbehind : toReal l + 0.049 ≤ toReal foreground.toOklch.lightness) :
    (candidateOf foreground l).light + 1.2 / 10 ^ 5 ≤ 1.99 * foreground.light := by
  obtain ⟨_, _, _, hself⟩ := exists_responses acc foreground
  obtain ⟨hmuted, hlightness⟩ := muted_withLightness acc (chroma_toOklch_le acc foreground) hl
  have hcandidate := hmuted.cones acc le_rfl
  rw [hlightness] at hcandidate
  have htwice := hself.cones.le_twice_of_step hcandidate hl.nonneg hbehind
  have hbytes := (abs_le.1 (hmuted.abs_light_sub_luminance_le acc le_rfl)).2
  rw [Color.luminance_shown] at htwice
  refine (add_le_add_left (le_min (hmuted.light_le_twice acc le_rfl) ?_) _).trans htwice
  exact sub_le_iff_le_add'.1 hbytes

/-- Nothing that the walk may keep contrasts as much as its pole, unless it has the pole's
channels. -/
theorem ratio_lt_pole (acc : lib.Accurate) (hd : Direction.awayFrom foreground background = d)
    (hc : c = foreground ∨ ∃ l, InUnit l ∧
      d.distance l ≤ max 0 (d.distance (startOf foreground) - 0.049) ∧ c = candidateOf foreground l)
    (hpole : ¬ c.SameChannels d.pole) : ratio c background < ratio d.pole background := by
  have hY0 := color_light_nonneg foreground
  -- a candidate that is not the pole is one step ahead of the foreground itself, not only of the
  -- lightness that the walk starts from
  have hahead {l : Double lib} (hl : InUnit l)
      (hle : d.distance l ≤ max 0 (d.distance (startOf foreground) - 0.049))
      (hcl : c = candidateOf foreground l) : 0 < d.distance l ∧
        d.distance l ≤ d.distance (startOf foreground) - 0.049 := by
    have hpos : 0 < d.distance l := (Direction.distance_nonneg hl).lt_of_ne fun hzero =>
      hpole (hcl ▸ candidate_pole acc foreground hl hzero.symm)
    exact ⟨hpos, (le_max_iff.1 hle).resolve_left hpos.not_ge⟩
  have hstart := toReal_startOf acc foreground
  cases d with
  | lighten =>
    have hdarker := (sameChannels_white_or_light_le c).resolve_left hpole
    have hbackground := light_le_of_luminance_le acc (luminance_le_of_lighten acc hd)
    refine ratio_lt_of_contrast acc
      (contrast_white_ge (color_light_le_one foreground) hbackground hdarker ?_)
    rcases hc with rfl | ⟨l, hl, hle, hcl⟩
    · norm_num at hdarker ⊢
      nlinarith
    · obtain ⟨hpos, hstep⟩ := hahead hl hle hcl
      rw [Direction.distance, Direction.distance, hstart] at hstep
      rw [Direction.distance] at hpos
      rw [hcl]
      refine sq_le_of_ahead acc foreground hl (sub_pos.1 hpos) ?_
      have hmax := le_max_right 0 (min 1 (toReal foreground.toOklch.lightness))
      rcases min_choice 1 (toReal foreground.toOklch.lightness) with hmin | hmin <;>
        rw [hmin] at hmax hstep <;> linarith
  | darken =>
    have hlighter := (sameChannels_black_or_light_ge c).resolve_left hpole
    have hbackground := light_le_of_luminance_le acc (luminance_le_of_darken acc hd)
    refine ratio_lt_of_contrast acc (contrast_black_ge hbackground hlighter ?_)
    rcases hc with rfl | ⟨l, hl, hle, hcl⟩
    · norm_num at hlighter ⊢
      linarith
    · obtain ⟨hpos, hstep⟩ := hahead hl hle hcl
      rw [Direction.distance, Direction.distance, hstart] at hstep
      rw [Direction.distance] at hpos
      rw [hcl]
      refine le_twice_of_behind acc foreground hl ?_
      have hmin := min_le_right 1 (toReal foreground.toOklch.lightness)
      rcases max_choice 0 (min 1 (toReal foreground.toOklch.lightness)) with hmax | hmax <;>
        rw [hmax] at hstep <;> linarith

/-! ## The answer -/

variable {minimum : Double lib}

theorem ensure_sameChannels_pole (acc : lib.Accurate)
    (h : meets foreground background minimum = false)
    (hensure : meets (ensure foreground background minimum) background minimum = false) :
    (ensure foreground background minimum).SameChannels
      (Direction.awayFrom foreground background).pole := by
  have hwalk := exhausted_of_fails h hensure
  have hstart := inUnit_startOf acc foreground
  have hle := @Direction.distance_le_one lib _ (Direction.awayFrom foreground background) hstart
  obtain ⟨l, hl, hpole⟩ := @exists_pole_tried lib 39 _ (Direction.awayFrom foreground background)
    hstart (by norm_num; linarith)
  obtain ⟨-, hgreatest⟩ := walk_greatest
    (fun c => (finite_ratio acc c background).isNaN_eq_false) hwalk
  have hmost := hgreatest l hl
  have hl := (tried_mem hstart l hl).1
  rw [(candidate_pole acc foreground hl hpole).ratio_eq] at hmost
  by_contra hother
  have hlt := ratio_lt_pole acc rfl ((walk_exhausted hwalk).2.imp_right fun ⟨l, hl, hcolor⟩ =>
    ⟨l, (tried_mem hstart l hl).1, (tried_mem hstart l hl).2, hcolor⟩) hother
  rw [lt_iff (finite_ratio acc _ _) (finite_ratio acc _ _)] at hlt
  exact hlt.not_ge ((le_iff (finite_ratio acc _ _) (finite_ratio acc _ _)).1 hmost)

/-- From a pole it is less than a step to the lightness of that pole. -/
theorem distance_start_le (acc : lib.Accurate) (hc : c.SameChannels d.pole) :
    d.distance (startOf c) ≤ 0.049 := by
  have hstart := toReal_startOf acc c
  have hlight := hc.light_eq
  cases d with
  | lighten =>
    rw [light_pole_lighten] at hlight
    have hpale := (Shows.self acc c).lightness_ge (by rw [hlight]; norm_num)
    have hmin : 0.951 ≤ min 1 (toReal c.toOklch.lightness) := le_min (by norm_num) hpale
    rw [Direction.distance, hstart]
    linarith [hmin.trans (le_max_right 0 _)]
  | darken =>
    rw [light_pole_darken] at hlight
    obtain ⟨_, _, _, h⟩ := exists_responses acc c
    rw [Direction.distance, hstart]
    refine max_le (by norm_num) ((min_le_right _ _).trans ?_)
    by_contra hlarge
    rw [not_le] at hlarge
    have hcube := h.cones.cube_le_luminance hlarge.le
    rw [Color.luminance_shown, hlight] at hcube
    have hpos : 0 < toReal c.toOklch.lightness ^ 3 :=
      pow_pos (lt_trans (by norm_num) hlarge) 3
    change 0.6 * toReal c.toOklch.lightness ^ 3 ≤ 0 at hcube
    linarith

/-- A search from the pole that it would move to has nothing left to do. -/
theorem ensure_of_pole (acc : lib.Accurate) (hopacity : c.HasOpacity)
    (hd : Direction.awayFrom c background = d) (hc : c.SameChannels d.pole) :
    ensure c background minimum = c := by
  refine ensure_eq_self fun l hl => ?_
  have hstart := inUnit_startOf acc c
  rw [hd] at hl
  obtain ⟨hunit, hle⟩ := tried_mem hstart l hl
  rw [max_eq_left (sub_nonpos.2 (distance_start_le acc hc))] at hle
  have hpole := candidate_pole acc c hunit (le_antisymm hle (Direction.distance_nonneg hunit))
  exact (hpole.trans hc.symm).eq_of_alpha (alpha_candidateOf hopacity l)

/-- The search reaches the minimum or ends at black or white, and a second search changes nothing. -/
theorem ensure_meets_or_pole (acc : lib.Accurate) (hopacity : foreground.HasOpacity)
    (background : Color (Double lib)) (minimum : Double lib) :
    (meets (ensure foreground background minimum) background minimum = true ∨
      ensure foreground background minimum =
        { (Color.black : Color (Double lib)) with alpha := foreground.alpha } ∨
      ensure foreground background minimum =
        { (Color.white : Color (Double lib)) with alpha := foreground.alpha }) ∧
    ensure (ensure foreground background minimum) background minimum =
      ensure foreground background minimum := by
  cases h : meets foreground background minimum with
  | true =>
    rw [ensure_of_meets h, ensure_of_meets h]
    exact ⟨Or.inl h, rfl⟩
  | false =>
    cases hensure : meets (ensure foreground background minimum) background minimum with
    | true => exact ⟨Or.inl rfl, ensure_of_meets hensure⟩
    | false =>
      have hpole := ensure_sameChannels_pole acc h hensure
      have halpha := alpha_ensure hopacity background minimum
      refine ⟨Or.inr ?_, ?_⟩
      · generalize Direction.awayFrom foreground background = d at hpole
        cases d with
        | lighten =>
          exact Or.inr (Color.SameChannels.eq_of_alpha
            (d := { (Color.white : Color (Double lib)) with alpha := _ }) hpole halpha)
        | darken =>
          exact Or.inl (Color.SameChannels.eq_of_alpha
            (d := { (Color.black : Color (Double lib)) with alpha := _ }) hpole halpha)
      · exact ensure_of_pole acc (Color.hasOpacity_ensure hopacity background minimum)
          (awayFrom_of_pole acc rfl hpole) hpole

/-- White on black, where no colour reaches the minimum. -/
theorem ensure_meets_or_pole_rounded :
    let result := ensure Color.white Color.black (22.0 : Double .rounded)
    (meets result Color.black 22.0 = true ∨
      result = { (Color.black : Color (Double .rounded)) with alpha := 1.0 } ∨
      result = { (Color.white : Color (Double .rounded)) with alpha := 1.0 }) ∧
    ensure result Color.black 22.0 = result :=
  have hopacity : (Color.white : Color (Double .rounded)).HasOpacity := Color.one_mem
  ensure_meets_or_pole Binary64.Elementary.accurate_rounded hopacity Color.black 22.0

end Double

end ThemeTokens
