import ThemeTokens.Proofs.Palette

/-!
# Light text on a dark window

No colour contrasts more with a dark window than white. Pale text is made lighter until it can be
read, so it can be read in the end exactly where white can.
-/
namespace ThemeTokens.Double
open Binary64 Transfer
variable {lib : Elementary} {a window text : Color (Double lib)}

/-! ## White -/

theorem light_le_of_ne {b : UInt8} (h : b ≠ 255) : light b ≤ 1 - 1 / 140 := by
  have hb : b.toNat ≤ 254 := by
    have hlt := b.toNat_lt
    have hne : b.toNat ≠ 255 := fun h' => h (UInt8.toNat_inj.1 h')
    omega
  have hb' : (b.toNat : ℝ) ≤ 254 := by exact_mod_cast hb
  have hpower : (0.9963 : ℝ) ^ (2.4 : ℝ) ≤ 1 - 1 / 140 :=
    calc (0.9963 : ℝ) ^ (2.4 : ℝ) ≤ 0.9963 ^ (2 : ℝ) :=
          Real.rpow_le_rpow_of_exponent_ge (by norm_num) (by norm_num) (by norm_num)
      _ ≤ 1 - 1 / 140 := by norm_num
  exact light_le_of_power hb' (by norm_num) hpower (by norm_num)

/-- A colour has white's channels or is visibly darker. -/
theorem channels_or_light_le (c : Color (Double lib)) :
    (c.red = 255 ∧ c.green = 255 ∧ c.blue = 255) ∨ c.light ≤ 1 - 1 / 2000 := by
  have hr := light_le_one c.red
  have hg := light_le_one c.green
  have hb := light_le_one c.blue
  have darker (h : light c.red ≤ 1 - 1 / 140 ∨ light c.green ≤ 1 - 1 / 140 ∨
      light c.blue ≤ 1 - 1 / 140) : c.light ≤ 1 - 1 / 2000 := by
    rw [Color.light]
    norm_num at h ⊢
    rcases h with h | h | h <;> linarith
  by_cases hred : c.red = 255
  · by_cases hgreen : c.green = 255
    · by_cases hblue : c.blue = 255
      · exact Or.inl ⟨hred, hgreen, hblue⟩
      · exact Or.inr (darker (Or.inr (Or.inr (light_le_of_ne hblue))))
    · exact Or.inr (darker (Or.inr (Or.inl (light_le_of_ne hgreen))))
  · exact Or.inr (darker (Or.inl (light_le_of_ne hred)))

/-- Contrast depends on the channels alone. -/
theorem meets_congr {c d : Color (Double lib)} {m : Double lib} (h : c.SameChannels d) :
    Contrast.meets c window m = Contrast.meets d window m := by
  rw [Contrast.meets, Contrast.meets, h.ratio_eq]

/-- What can be read on a darker window could also be read if it were white. -/
theorem meets_white_of_meets (acc : lib.Accurate) {m : Double lib} (hm : Finite m)
    (hwindow : window.light ≤ 0.51) (ha : window.light ≤ a.light)
    (h : Contrast.meets a window m = true) : Contrast.meets Color.white window m = true := by
  rcases channels_or_light_le a with hwhite | hdarker
  · rwa [meets_congr (d := a) ⟨hwhite.1.symm, hwhite.2.1.symm, hwhite.2.2.symm⟩]
  · have hratio := near_ratio acc a window
    have hle := ((le_iff hm hratio.finite).1 (of_decide_eq_true h)).trans hratio.le
    have hwindow0 := color_light_nonneg window
    have hwhite := @light_white lib
    refine meets_of_le acc hm ?_
    rw [contrast_of_le ha] at hle
    rw [contrast_of_le (by rw [hwhite]; norm_num at hwindow ⊢; linarith), hwhite]
    have hgap : 4 / 10 ^ 4 ≤ (1 - a.light) / (window.light + 0.05) := by
      rw [le_div_iff₀ (by positivity)]
      norm_num at hwindow hdarker ⊢
      linarith
    have hsplit : (1 + 0.05) / (window.light + 0.05) =
        (a.light + 0.05) / (window.light + 0.05) + (1 - a.light) / (window.light + 0.05) := by
      rw [← add_div]
      congr 1
      ring
    rw [hsplit]
    norm_num at hle hgap ⊢
    linarith

/-! ## Pale text -/

/-- The text of the search at a lightness that it may try. -/
theorem light_candidate_ge (acc : lib.Accurate) (htext : Pale text) {l : Double lib}
    (hl : Finite l) (hlow : 0.92 ≤ toReal l) (hhigh : toReal l ≤ 1) :
    0.51 ≤ (Color.ofOklch (text.toOklch.withLightness l)).light := by
  obtain ⟨hmuted, hlightness⟩ := muted_withLightness acc (chroma_toOklch_le_of_pale acc htext)
    ⟨hl, le_trans (by norm_num) hlow, hhigh⟩
  obtain ⟨⟨hr, _⟩, ⟨hg, _⟩, ⟨hb, _⟩⟩ := @Muted.light_mem lib 0.0346 _ acc 0.92 1 0.03956 hmuted
    (by norm_num) (by norm_num) (hlightness.symm ▸ hlow) (hlightness.symm ▸ hhigh) (by norm_num)
    (by norm_num)
  rw [Color.light]
  norm_num at hr hg hb ⊢
  linarith

theorem candidate_white (acc : lib.Accurate) (htext : Pale text) {l : Double lib}
    (hl : Finite l) (hone : toReal l = 1) :
    (Color.ofOklch (text.toOklch.withLightness l)).red = 255 ∧
      (Color.ofOklch (text.toOklch.withLightness l)).green = 255 ∧
      (Color.ofOklch (text.toOklch.withLightness l)).blue = 255 := by
  obtain ⟨hmuted, hlightness⟩ := muted_withLightness acc (chroma_toOklch_le_of_pale acc htext)
    ⟨hl, by rw [hone]; norm_num, hone.le⟩
  exact hmuted.ofOklch_eq_white acc (by norm_num) (hlightness.trans hone)

theorem awayFrom_eq_lighten (acc : lib.Accurate) (htext : Pale text)
    (hwindow : window.light ≤ 0.51) : Contrast.Direction.awayFrom text window = .lighten := by
  have htextlight := near_luminance acc text
  have hwindowlight := near_luminance acc window
  refine if_pos ((lt_iff hwindowlight.finite htextlight.finite).2 ?_)
  have h1 := htextlight.ge
  have h2 := hwindowlight.le
  have h3 := htext.light_mem.1
  norm_num at h1 h2 h3 hwindow
  linarith

theorem meets_ensure_iff (acc : lib.Accurate) (htext : Pale text) {m : Double lib} (hm : Finite m)
    (hwindow : window.light ≤ 0.51) :
    Contrast.meets (Contrast.ensure text window m) window m = true ↔
      Contrast.meets Color.white window m = true := by
  cases hmeets : Contrast.meets text window m with
  | true =>
    have hlight : window.light ≤ text.light :=
      hwindow.trans (le_trans (by norm_num) htext.light_mem.1)
    rw [Contrast.ensure_of_meets hmeets, hmeets]
    exact iff_of_true rfl (meets_white_of_meets acc hm hwindow hlight hmeets)
  | false =>
    obtain ⟨hlow, hhigh⟩ := lightness_toOklch_mem acc htext
    have hfinite := finite_lightness acc text
    have hstart : toReal (Number.clamp text.toOklch.lightness) = toReal text.toOklch.lightness :=
      InUnit.toReal_clamp
        ⟨hfinite, le_trans (by norm_num) hlow, hhigh.trans (by norm_num)⟩
    rcases Contrast.ensure_cases (awayFrom_eq_lighten acc htext hwindow) hfinite hmeets with
      ⟨hpass, l, hl, hway, hcolor⟩ | ⟨hfail, ⟨l, hl, hpole, hwhite⟩, _⟩
    · rw [Contrast.Direction.distance, Contrast.Direction.distance, hstart,
        sub_le_sub_iff_left] at hway
      have hlight := light_candidate_ge acc htext hl.finite (hlow.trans hway) hl.le_one
      rw [← hcolor] at hlight
      exact iff_of_true hpass (meets_white_of_meets acc hm hwindow (hwindow.trans hlight) hpass)
    · have hone : toReal l = 1 := (sub_eq_zero.1 hpole).symm
      rw [hfail, ← meets_congr (d := Color.white) (candidate_white acc htext hl.finite hone),
        hwhite]

end ThemeTokens.Double
