import ThemeTokens.Proofs.Color.Gamut

/-!
# Luminance between multiples of the cube of lightness

Lightness is made of the roots of what the cones see, and each cone sees a share of the luminance
that depends little on the colour. So the luminance of what sRGB holds lies between two multiples of
the cube of its lightness, but for what the slack of the gamut allows in the dark.
-/
namespace ThemeTokens.Cones
variable {rgb : LinearRgb ℝ} {L l m s : ℝ}

/-- The short cone sees at most six times as much as the medium one. -/
theorem short_le (h : Cones rgb L l m s) : s ≤ 1.8036 * max 0 m + 0.018 := by
  obtain ⟨⟨⟨hr0, hr1⟩, ⟨hg0, hg1⟩, ⟨hb0, hb1⟩⟩, _, hmedium, hshort, _⟩ := h
  obtain ⟨hm0, _⟩ := abs_le.1 hmedium
  obtain ⟨_, hs1⟩ := abs_le.1 hshort
  have hpos : m ^ 3 ≤ max 0 m ^ 3 :=
    (Odd.strictMono_pow (by decide : Odd 3)).monotone (le_max_right 0 m)
  generalize hn : max 0 m = n at hpos
  have hn0 : 0 ≤ n := hn ▸ le_max_left 0 m
  refine Double.le_of_cube_le ?_
  have hcube : 1.8036 ^ 3 * n ^ 3 + 0.018 ^ 3 ≤ (1.8036 * n + 0.018) ^ 3 := by
    have : 0 ≤ 3 * (1.8036 * n) ^ 2 * 0.018 + 3 * (1.8036 * n) * 0.018 ^ 2 := by positivity
    linarith only [this, show (1.8036 * n + 0.018) ^ 3 = 1.8036 ^ 3 * n ^ 3 + 0.018 ^ 3 +
      (3 * (1.8036 * n) ^ 2 * 0.018 + 3 * (1.8036 * n) * 0.018 ^ 2) by ring]
  refine le_trans ?_ hcube
  norm_num at hr0 hg0 hb0 hb1 hm0 hs1 ⊢
  linarith only [hr0, hg0, hb0, hm0, hs1, hpos]

/-- Enough luminance makes a colour lighter than a given lightness. -/
theorem lt_lightness (h : Cones rgb L l m s) {v : ℝ} (hv : 0.013 ≤ v)
    (hY : 1.15 * v ^ 3 + 1 / 10 ^ 6 ≤ rgb.luminance) : v < L := by
  have hshort := h.short_le
  obtain ⟨⟨⟨hr0, hr1⟩, ⟨hg0, hg1⟩, ⟨hb0, hb1⟩⟩, hlong, hmedium, _, hlight⟩ := h
  obtain ⟨hl0, _⟩ := abs_le.1 hlong
  obtain ⟨hm0, _⟩ := abs_le.1 hmedium
  obtain ⟨hL, _⟩ := abs_le.1 hlight
  rw [LinearRgb.luminance] at hY
  have hv0 : 0 ≤ v := le_trans (by norm_num) hv
  have hv3 : 0 ≤ v ^ 3 := pow_nonneg hv0 3
  have hl : 0.9355 * v ≤ l := by
    refine Double.le_of_cube_le ?_
    rw [mul_pow]
    norm_num at hr0 hg0 hb0 hl0 hY ⊢
    linarith only [hr0, hg0, hb0, hl0, hY, hv3]
  have hm : 1.0305 * v ≤ m := by
    refine Double.le_of_cube_le ?_
    rw [mul_pow]
    norm_num at hr0 hg0 hb0 hm0 hY ⊢
    linarith only [hr0, hg0, hb0, hm0, hY, hv3]
  rw [max_eq_right (by linarith)] at hshort
  norm_num at hL hl hm hshort hv ⊢
  linarith only [hL, hl, hm, hshort, hv]

theorem luminance_lt (h : Cones rgb L l m s) :
    rgb.luminance < 1.15 * max L 0.013 ^ 3 + 1 / 10 ^ 6 := by
  by_contra hY
  exact (le_max_left L 0.013).not_gt (h.lt_lightness (le_max_right L 0.013) (not_lt.1 hY))

theorem cube_le_luminance (h : Cones rgb L l m s) (hL0 : 0.049 ≤ L) :
    0.6 * L ^ 3 ≤ rgb.luminance := by
  by_contra hY
  obtain ⟨_, _, ⟨hs0, _⟩⟩ := h.root_mem
  obtain ⟨⟨⟨hr0, hr1⟩, ⟨hg0, hg1⟩, ⟨hb0, hb1⟩⟩, hlong, hmedium, _, hlight⟩ := h
  obtain ⟨_, hl1⟩ := abs_le.1 hlong
  obtain ⟨_, hm1⟩ := abs_le.1 hmedium
  obtain ⟨_, hL⟩ := abs_le.1 hlight
  rw [LinearRgb.luminance, not_le] at hY
  have hL3 : (0.049 : ℝ) ^ 3 ≤ L ^ 3 := by
    have : (0 : ℝ) ≤ 0.049 := by norm_num
    gcongr
  have hl : l ≤ 1.055 * L := by
    refine Double.le_of_cube_le ?_
    rw [mul_pow]
    norm_num at hr0 hg0 hb0 hl1 hY hL3 ⊢
    linarith only [hr0, hg0, hb0, hl1, hY, hL3]
  have hm : m ≤ 0.965 * L := by
    refine Double.le_of_cube_le ?_
    rw [mul_pow]
    norm_num at hr0 hg0 hb0 hm1 hY hL3 ⊢
    linarith only [hr0, hg0, hb0, hm1, hY, hL3]
  norm_num at hL hl hm hs0 hL0
  linarith only [hL, hl, hm, hs0, hL0]

/-- The tangents at white, which are close for light colours. -/
theorem lightness_le_line (h : Cones rgb L l m s) : L ≤ 0.7 + 0.3044 * rgb.luminance := by
  have htangent := h.lightness_le (show (0.1 : ℝ) ≤ 1 by norm_num)
    (show (0.1 : ℝ) ≤ 1 by norm_num)
  obtain ⟨⟨⟨hr0, hr1⟩, ⟨hg0, hg1⟩, ⟨hb0, hb1⟩⟩, hlong, hmedium, _, _⟩ := h
  obtain ⟨_, hl1⟩ := abs_le.1 hlong
  obtain ⟨_, hm1⟩ := abs_le.1 hmedium
  rw [LinearRgb.luminance]
  norm_num at hr0 hr1 hg0 hg1 hb0 hb1 hl1 hm1 htangent ⊢
  linarith only [hr0, hr1, hg0, hg1, hb0, hb1, hl1, hm1, htangent]

theorem luminance_ge_slack (h : Cones rgb L l m s) : -(1 / 10 ^ 6) ≤ rgb.luminance := by
  obtain ⟨⟨hr0, _⟩, ⟨hg0, _⟩, ⟨hb0, _⟩⟩ := h.toFits
  rw [LinearRgb.luminance]
  norm_num at hr0 hg0 hb0 ⊢
  linarith only [hr0, hg0, hb0]

/-- Without lightness there is nothing but black. -/
theorem black_of_lightness (h : Cones rgb L l m s) (hL : L = 0) :
    rgb.red ≤ 1 / 10 ^ 4 ∧ rgb.green ≤ 1 / 10 ^ 4 ∧ rgb.blue ≤ 1 / 10 ^ 4 := by
  have hY := h.luminance_lt
  obtain ⟨⟨hr0, _⟩, ⟨hg0, _⟩, ⟨hb0, _⟩⟩ := h.toFits
  rw [hL, max_eq_right (by norm_num), LinearRgb.luminance] at hY
  norm_num at hr0 hg0 hb0 hY ⊢
  refine ⟨?_, ?_, ?_⟩ <;> linarith only [hr0, hg0, hb0, hY]

/-! ## One step further -/

variable {rgb' : LinearRgb ℝ} {L' l' m' s' : ℝ}

/-- What a step to more lightness does to luminance, where it is moderate before. -/
theorem sq_le_of_lighter (h : Cones rgb L l m s) (h' : Cones rgb' L' l' m' s')
    (hstep : L + 0.049 ≤ L') (hL : L ≤ 0.78) :
    (rgb.luminance + 0.05) ^ 2 + 0.0004 ≤ 1.05 * (rgb'.luminance + 0.0439) := by
  have hY := h.luminance_lt
  have hY0 := h.luminance_ge_slack
  have hY' := h'.luminance_ge_slack
  rcases le_or_gt L 0.013 with hdark | hlight
  · rw [max_eq_right hdark] at hY
    norm_num at hY hY0 hY' ⊢
    nlinarith
  · rw [max_eq_left hlight.le] at hY
    have hstep3 : (L + 0.049) ^ 3 ≤ L' ^ 3 := by
      have : 0 ≤ L + 0.049 := by linarith
      gcongr
    have hcube' := h'.cube_le_luminance (by linarith)
    -- the square of `L` is no less than its cube, so that all is said in terms of the cube
    have hq1 : L ^ 3 ≤ L ^ 2 := pow_le_pow_of_le_one (by linarith) (by linarith) (by norm_num)
    have hq : L ^ 3 ≤ 0.78 ^ 3 := by
      have : 0 ≤ L := by linarith
      gcongr
    have hq0 : 0 ≤ L ^ 3 := pow_nonneg (by linarith) 3
    have hexpand : (L + 0.049) ^ 3 = L ^ 3 + 0.147 * L ^ 2 + (0.007203 * L + 0.049 ^ 3) := by ring
    rw [hexpand] at hstep3
    generalize L ^ 3 = q at *
    norm_num at hY hY0 hstep3 hcube' hq hlight ⊢
    nlinarith

/-- Between two lightnesses the cube lies below its chord. -/
theorem cube_le_chord {x a b : ℝ} (ha : 0 ≤ a) (hx : a ≤ x) (hb : x ≤ b) :
    x ^ 3 ≤ a ^ 3 + (a ^ 2 + a * b + b ^ 2) * (x - a) := by
  have hrest : 0 ≤ (x - a) * (b - x) * (x + a + b) :=
    mul_nonneg (mul_nonneg (sub_nonneg.2 hx) (sub_nonneg.2 hb)) (by linarith)
  linarith only [hrest, show (x - a) * (b - x) * (x + a + b) =
    a ^ 3 + (a ^ 2 + a * b + b ^ 2) * (x - a) - x ^ 3 by ring]

/-- What a step to more lightness does to luminance, where it is large before. -/
theorem sq_le_of_lighter_of_pale (h : Cones rgb L l m s) (h' : Cones rgb' L' l' m' s')
    (hstep : L + 0.049 ≤ L') (hL : 0.78 ≤ L) (hL' : L' < 1) :
    (rgb.luminance + 0.05) ^ 2 + 0.0004 ≤ 1.05 * (rgb'.luminance + 0.0439) := by
  have hY := h.luminance_lt
  have hY0 := h.luminance_ge_slack
  have hpale : rgb.luminance < 0.939 := by
    by_contra hpale
    have := h.lightness_ge_of_pale (not_lt.1 hpale)
    norm_num at this hstep
    linarith
  have hline := h'.lightness_le_line
  have hchord := cube_le_chord (show (0 : ℝ) ≤ 0.78 by norm_num) hL
    (show L ≤ 0.951 by norm_num at hstep ⊢; linarith)
  rw [max_eq_left (le_trans (by norm_num) hL)] at hY
  generalize rgb.luminance = Y at *
  generalize rgb'.luminance = Y' at *
  norm_num at hY hY0 hpale hline hchord hstep hL ⊢
  rcases le_or_gt Y 0.5457 with hlow | hhigh
  · norm_num at hlow
    nlinarith only [hlow, hY0, hline, hstep, hL]
  · have hsquare : 0 ≤ (Y - 0.5457) * (0.939 - Y) :=
      mul_nonneg (sub_nonneg.2 hhigh.le) (by norm_num; linarith)
    norm_num at hsquare
    nlinarith only [hsquare, hY, hchord, hline, hstep]

theorem sq_le_of_step (h : Cones rgb L l m s) (h' : Cones rgb' L' l' m' s')
    (hstep : L + 0.049 ≤ L') (hL' : L' < 1) :
    (rgb.luminance + 0.05) ^ 2 + 0.0004 ≤ 1.05 * (rgb'.luminance + 0.0439) :=
  (le_total L 0.78).elim (h.sq_le_of_lighter h' hstep)
    fun hL => h.sq_le_of_lighter_of_pale h' hstep hL hL'

/-- What a step to less lightness leaves of the luminance: less than it had been twice, by either of
two bounds for what the bytes of the darker colour show. -/
theorem le_twice_of_step (h : Cones rgb L l m s) (h' : Cones rgb' L' l' m' s')
    (hL' : 0 ≤ L') (hstep : L' + 0.049 ≤ L) :
    min (2 * rgb'.luminance + 1 / 10 ^ 5) (rgb'.luminance + 0.0061) + 1.2 / 10 ^ 5 ≤
      1.99 * rgb.luminance := by
  have hcube := h.cube_le_luminance (by linarith)
  have hY' := h'.luminance_lt
  have hstep3 : (L' + 0.049) ^ 3 ≤ L ^ 3 := by gcongr
  have hexpand : (L' + 0.049) ^ 3 =
      L' ^ 3 + 0.147 * L' ^ 2 + (0.007203 * L' + 0.049 ^ 3) := by ring
  rw [hexpand] at hstep3
  have hL3 : 0 ≤ L' ^ 3 := pow_nonneg hL' 3
  have hL2 : 0 ≤ L' ^ 2 := sq_nonneg L'
  rcases le_or_gt L' 0.013 with hdark | hlight
  · refine (add_le_add_left (min_le_left _ _) _).trans ?_
    rw [max_eq_right hdark] at hY'
    norm_num at hcube hY' hstep3 ⊢
    linarith only [hcube, hY', hstep3, hL3, hL2, hL']
  rw [max_eq_left hlight.le] at hY'
  rcases le_or_gt L' 0.19 with hdim | hbright
  · refine (add_le_add_left (min_le_left _ _) _).trans ?_
    have hshrink : L' ^ 3 ≤ 0.19 * L' ^ 2 := by
      rw [pow_succ' L' 2]
      gcongr
    have hshrink2 : L' ^ 2 ≤ 0.19 * L' := by
      rw [pow_two]
      gcongr
    norm_num at hcube hY' hstep3 hshrink hshrink2 ⊢
    linarith only [hcube, hY', hstep3, hshrink, hshrink2, hL']
  · refine (add_le_add_left (min_le_right _ _) _).trans ?_
    have hgrow : 0.19 ^ 2 ≤ L' ^ 2 := by gcongr
    norm_num at hcube hY' hstep3 hgrow hbright ⊢
    linarith only [hcube, hY', hstep3, hgrow, hbright, hL3]

end ThemeTokens.Cones
