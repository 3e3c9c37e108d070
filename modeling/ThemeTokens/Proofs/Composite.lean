import ThemeTokens.Proofs.Binary64.Tie
import ThemeTokens.Proofs.Color.Layer
import ThemeTokens.Proofs.Exact

/-!
# Compositing

The laws of layers hold on exact numbers, and on doubles up to the rounding of an alpha. What is
solid is exactly opaque on doubles too, and rounding moves no channel past those that it mixes.
-/
namespace ThemeTokens
open Transfer

/-! ## On exact numbers -/

namespace Exact
variable {s d : Color Exact}

theorem toReal_ofByte (b : UInt8) : toReal (Number.ofByte b) = b.toNat / 255 := by
  rw [Number.ofByte, toReal_div, toReal_ofNat, toReal_ofScientific]
  norm_num

theorem toReal_toLinear_ofByte (b : UInt8) : toReal (toLinear (Number.ofByte b)) = light b := by
  rw [light, decoded, ← toReal_ofByte, toLinear]
  simp only [le_iff, toReal_ofScientific]
  split <;> rfl

theorem toReal_ofLinear (x : Exact) :
    toReal (ofLinear x) = encode (max 0 (min 1 (toReal x))) := by
  have hle : max 0 (min 1 (toReal x)) ≤ 1 := max_le zero_le_one (min_le_left _ _)
  rw [ofLinear, encode, encoded_of_le_one hle, ← toReal_clampOr 0.0]
  simp only [le_iff, toReal_ofScientific]
  split
  · rfl
  · rw [toReal_mulAdd, toReal_pow, toReal_div, toReal_neg]
    simp only [toReal_ofScientific]
    norm_num
    ring

theorem abs_byte_sub_encode_le (x : Exact) :
    |((Number.toByte (ofLinear x)).toNat : ℝ) - 255 * encode (max 0 (min 1 (toReal x)))| ≤ 0.6 := by
  have hle : max 0 (min 1 (toReal x)) ≤ 1 := max_le zero_le_one (min_le_left _ _)
  have h0 := encode_nonneg (le_max_left _ _) hle
  have h1 := encode_le_one hle
  have hscaled : toReal (Number.clampOr 0.0 (ofLinear x) * 255.0) =
      255 * encode (max 0 (min 1 (toReal x))) := by
    rw [toReal_mul, toReal_clampOr, toReal_ofLinear, min_eq_right h1, max_eq_right h0,
      toReal_ofScientific]
    norm_num
    ring
  generalize encode (max 0 (min 1 (toReal x))) = e at h0 h1 hscaled
  have hlow := Nat.sub_one_lt_floor (255 * e + 0.5)
  have hhigh := Nat.floor_le (show 0 ≤ 255 * e + 0.5 by positivity)
  have hbyte : ⌊255 * e + 0.5⌋₊ < 256 := by
    rw [Nat.floor_lt' (by norm_num)]
    norm_num
    linarith
  rw [Number.toByte, round_eq, hscaled, UInt8.toNat_ofNat_of_lt' hbyte, abs_le]
  norm_num at hlow hhigh ⊢
  constructor <;> linarith

/-- A channel of a composite, where no layer decides it alone. -/
theorem between_weighed {a b : UInt8} {v w alpha : Exact} (hv : 0 < toReal v) (hv1 : toReal v ≤ 1)
    (hw : 0 ≤ toReal w) (halpha : toReal alpha = coverage (toReal v) (toReal w)) :
    Channel.Between (Number.toByte (ofLinear (Number.mulAdd (toLinear (Number.ofByte a)) v
      (toLinear (Number.ofByte b) * w * (1.0 - v)) / alpha))) a b := by
  have hrest : 0 ≤ toReal w * (1 - toReal v) := mul_nonneg hw (sub_nonneg.2 hv1)
  have hpos : 0 < toReal alpha := by
    rw [halpha, coverage]
    positivity
  have hlo := Channel.min_light_nonneg a b
  have hhi := Channel.max_light_le_one a b
  obtain ⟨hlow, hhigh⟩ := mean_mem (x := light a) (y := light b)
    (n := light a * toReal v + light b * (toReal w * (1 - toReal v))) (a := toReal alpha) (η := 0)
    (δ := 0) ⟨min_le_left _ _, le_max_left _ _⟩ ⟨min_le_right _ _, le_max_right _ _⟩
    (by linarith) (by linarith) hv.le hrest (by rw [sub_self, abs_zero, mul_zero])
    (by rw [halpha, coverage, sub_self, abs_zero]) hpos (by rw [mul_zero, zero_mul])
  refine Channel.between_of_light le_rfl (by norm_num) (abs_byte_sub_encode_le _)
    (hlow.trans_eq ?_) (Eq.trans_le ?_ hhigh) <;>
  rw [toReal_div, toReal_mulAdd, toReal_mul, toReal_mul, toReal_sub, toReal_one,
    toReal_toLinear_ofByte, toReal_toLinear_ofByte, mul_assoc (light b)]

theorem mem_of_isLayer {c : Color Exact} (h : c.IsLayer) :
    0 ≤ toReal c.alpha ∧ toReal c.alpha ≤ 1 := by
  rwa [Color.IsLayer, le_iff, le_iff, toReal_zero, toReal_one] at h

theorem isLayer_withAlpha {c : Color Exact} (alpha : Exact) : (c.withAlpha alpha).IsLayer := by
  rw [Color.IsLayer, le_iff, le_iff, toReal_zero, toReal_one, Color.withAlpha, toReal_clampOr]
  exact ⟨le_max_left _ _, max_le zero_le_one (min_le_left _ _)⟩

theorem isLayer_solid (red green blue : UInt8) :
    (Color.solid red green blue : Color Exact).IsLayer := by
  rw [Color.IsLayer, le_iff, le_iff, toReal_zero, Color.solid, toReal_one]
  exact ⟨zero_le_one, le_rfl⟩

theorem toReal_min_one (x : Exact) : toReal (Number.min x 1.0) = min (toReal x) 1 := by
  unfold Number.min
  split
  · next h =>
    rw [lt_iff, toReal_one] at h
    rw [min_eq_left h.le]
  · next h =>
    rw [lt_iff, toReal_one, not_lt] at h
    rw [min_eq_right h, toReal_one]

theorem layerOver (hs : s.IsLayer) (hd : d.IsLayer) :
    Color.Composite toReal 0 s d (s.layerOver d) ∨
      coverage (toReal s.alpha) (toReal d.alpha) < 1e-9 + 0 ∧ s.layerOver d = .transparent := by
  have hs := mem_of_isLayer hs
  have hd := mem_of_isLayer hd
  unfold Color.layerOver
  split
  · next h =>
    rw [Bool.or_eq_true, Color.isOpaque, Color.isTransparent, decide_eq_true_eq, decide_eq_true_eq,
      le_iff, le_iff, toReal_one, toReal_zero] at h
    exact Or.inl (Color.composite_left hs hd le_rfl (h.imp hs.2.antisymm (·.antisymm hd.1)))
  split
  · next h =>
    rw [Color.isTransparent, decide_eq_true_eq, le_iff, toReal_zero] at h
    exact Or.inl (Color.composite_right hs hd le_rfl (h.antisymm hs.1))
  next hvisible =>
  rw [Color.isTransparent, decide_eq_true_eq, le_iff, toReal_zero, not_le] at hvisible
  extract_lets x y alpha weigh
  have halpha : toReal alpha = coverage (toReal s.alpha) (toReal d.alpha) := by
    rw [toReal_mulAdd, toReal_sub, toReal_one, coverage, add_comm]
  split
  · next h =>
    rw [lt_iff, halpha, Color.vanishing, toReal_ofScientific] at h
    exact Or.inr ⟨h.trans_eq (add_zero _).symm, rfl⟩
  · have hmin : toReal (Number.min alpha 1.0) = coverage (toReal s.alpha) (toReal d.alpha) := by
      rw [toReal_min_one, halpha, min_eq_left (coverage_le_one hs.2 hd.2)]
    refine Or.inl (.of_alpha hs hd ?_ ?_ (fun hone => ?_) ⟨?_, ?_, ?_⟩)
    · exact (congrArg (fun x => |x - _|) hmin).trans_le (by rw [sub_self, abs_zero])
    · exact hmin.trans_le (coverage_le_one hs.2 hd.2)
    · exact hmin.trans (coverage_eq_one hone)
    all_goals exact between_weighed hvisible hs.2 hd.1 halpha

end Exact

/-! ## On doubles -/

namespace Double
open Binary64
variable {lib : Elementary} {x y : Double lib} {s d : Color (Double lib)}

theorem isNearest_rest (h : InUnit x) : IsNearest ((1.0 : Double lib) - x) (1 - toReal x) := by
  have hrange : |toReal (1.0 : Double lib) - toReal x| ≤ 1000 := by
    rw [toReal_one]
    exact abs_le.2 ⟨by linarith [h.le_one], by linarith [h.nonneg]⟩
  rw [← @toReal_one lib]
  exact isNearest_sub finite_one h.finite (Near.inRange hrange)

theorem abs_rest_sub_le (h : InUnit x) : |toReal (1.0 - x) - (1 - toReal x)| ≤ 1 / 2 ^ 54 :=
  abs_sub_le_of_isNearest (isNearest_rest h) (sub_nonneg.2 h.le_one) (sub_le_self 1 h.nonneg)

theorem InUnit.rest (h : InUnit x) : InUnit (1.0 - x) where
  finite := (isNearest_rest h).isFinite
  nonneg := (isNearest_rest h).nonneg (sub_nonneg.2 h.le_one)
  le_one := by
    rw [← @toReal_one lib]
    exact (isNearest_rest h).le finite_one ((sub_le_self 1 h.nonneg).trans toReal_one.ge)

theorem isNearest_alpha (hx : InUnit x) (hy : InUnit y) :
    IsNearest (Number.mulAdd y (1.0 - x) x : Double lib)
      (toReal y * toReal (1.0 - x) + toReal x) := by
  have hmul := mul_le_one₀ hy.le_one hx.rest.nonneg hx.rest.le_one
  have hmul0 := mul_nonneg hy.nonneg hx.rest.nonneg
  have hrange : |toReal y * toReal (1.0 - x) + toReal x| ≤ 1000 :=
    abs_le.2 ⟨by linarith [hx.nonneg], by linarith [hx.le_one]⟩
  exact isNearest_mulAdd hy.finite hx.rest.finite hx.finite (Near.inRange hrange)

/-- A number below one and what it lacks to one. Where rounding the difference leaves a tie, the tie
goes up. -/
theorem one_le_alpha (hx : InUnit x) (hx0 : 0 < toReal x) (hx1 : toReal x < 1) (hy : InUnit y)
    (hy1 : toReal y = 1) : 1 ≤ toReal (Number.mulAdd y (1.0 - x) x) := by
  have hle : toReal x ≤ 1 - 1 / 2 ^ 53 := le_of_lt_one hx.finite hx1
  have hlow := (abs_le.1 (abs_rest_sub_le hx)).1
  have hrest : 0 < toReal (1.0 - x) := by linarith
  have hsum := isNearest_alpha hx hy
  rw [hy1, one_mul] at hsum
  rcases (show 1 - 1 / 2 ^ 54 ≤ toReal (1.0 - x) + toReal x by linarith).lt_or_eq with hlt | heq
  · exact hsum.one_le (@finite_one lib) toReal_one hlt
  · -- the difference was a tie too and went down, as it does for three times `2 ^ -54`
    have hpos : 0 < toReal y := hy1.symm ▸ zero_lt_one
    obtain ⟨m, e, hexact, hresult⟩ :=
      mulAdd_of_pos hy.finite hx.rest.finite hx.finite hpos hrest hx0
    change _ = toReal y * toReal (1.0 - x) + toReal x at hexact
    rw [hy1, one_mul, ← heq] at hexact
    have hcarry : Number.mulAdd y (1.0 - x) x = 1.0 := hresult.trans (ofBinary_next_to_one hexact)
    rw [hcarry, toReal_one]

theorem abs_alpha_sub_le (hx : InUnit x) (hy : InUnit y) :
    |toReal (Number.mulAdd y (1.0 - x) x) - coverage (toReal x) (toReal y)| ≤ 7 / 2 ^ 55 := by
  have hrest := abs_rest_sub_le hx
  obtain ⟨hlow, hhigh⟩ := abs_le.1 hrest
  have hrest0 := hx.rest.nonneg
  have hsum0 : 0 ≤ toReal y * toReal (1.0 - x) + toReal x :=
    add_nonneg (mul_nonneg hy.nonneg hrest0) hx.nonneg
  have hsum1 : toReal y * toReal (1.0 - x) + toReal x ≤ 1 + 1 / 2 ^ 54 := by
    have := mul_le_of_le_one_left hrest0 hy.le_one
    linarith
  have hround : |toReal (Number.mulAdd y (1.0 - x) x) -
      (toReal y * toReal (1.0 - x) + toReal x)| ≤ (1 + 1 / 2 ^ 54) / 2 ^ 53 :=
    (isNearest_alpha hx hy).error_le (by rwa [abs_of_nonneg hsum0]) (by norm_num)
  have hexact : |toReal y * toReal (1.0 - x) + toReal x - coverage (toReal x) (toReal y)| ≤
      1 / 2 ^ 54 := by
    rw [coverage, add_comm (toReal x), add_sub_add_right_eq_sub, ← mul_sub, abs_mul,
      abs_of_nonneg hy.nonneg]
    exact (mul_le_of_le_one_left (abs_nonneg _) hy.le_one).trans hrest
  refine (abs_sub_le _ _ _).trans ((add_le_add hround hexact).trans ?_)
  norm_num

/-! ## Channels on doubles -/

theorem mul_error_le (hx : Finite x) (hy : Finite y) (h : |toReal x * toReal y| ≤ 4) :
    Finite (x * y) ∧ |toReal (x * y) - toReal x * toReal y| ≤ 4 / 2 ^ 53 := by
  have hround := isNearest_mul hx hy (Near.inRange (h.trans (by norm_num)))
  exact ⟨hround.isFinite, hround.error_le h (by norm_num)⟩

theorem mulAdd_error_le {z : Double lib} (hx : Finite x) (hy : Finite y) (hz : Finite z)
    (h : |toReal x * toReal y + toReal z| ≤ 4) : Finite (Number.mulAdd x y z) ∧
      |toReal (Number.mulAdd x y z) - (toReal x * toReal y + toReal z)| ≤ 4 / 2 ^ 53 := by
  have hround := isNearest_mulAdd hx hy hz (Near.inRange (h.trans (by norm_num)))
  exact ⟨hround.isFinite, hround.error_le h (by norm_num)⟩

theorem div_error_le (hx : Finite x) (hy : Finite y) (hy0 : toReal y ≠ 0)
    (h : |toReal x / toReal y| ≤ 4) :
    Finite (x / y) ∧ |toReal (x / y) - toReal x / toReal y| ≤ 4 / 2 ^ 53 := by
  have hround := isNearest_div hx hy hy0 (Near.inRange (h.trans (by norm_num)))
  exact ⟨hround.isFinite, hround.error_le h (by norm_num)⟩

theorem InUnit.abs_mul_le (h : InUnit x) (r : ℝ) : |r * toReal x| ≤ |r| := by
  rw [abs_mul, abs_of_nonneg h.nonneg]
  exact mul_le_of_le_one_right (abs_nonneg r) h.le_one

/-- What the operations lose is little next to an alpha that does not vanish. -/
theorem weighed_mem {v w alpha : Double lib} {lo hi : ℝ} (hx : Finite x)
    (hxmem : lo ≤ toReal x ∧ toReal x ≤ hi) (hy : Finite y) (hymem : lo ≤ toReal y ∧ toReal y ≤ hi)
    (hlo : -1 ≤ lo) (hhi : hi ≤ 11 / 10) (hv : InUnit v) (hw : InUnit w)
    (halpha : alpha = Number.mulAdd w (1.0 - v) v) (hvisible : 9 / 10 ^ 10 ≤ toReal alpha) :
    Finite (Number.mulAdd x v (y * w * (1.0 - v)) / alpha) ∧
      lo - 26 / 10 ^ 7 ≤ toReal (Number.mulAdd x v (y * w * (1.0 - v)) / alpha) ∧
        toReal (Number.mulAdd x v (y * w * (1.0 - v)) / alpha) ≤ hi + 26 / 10 ^ 7 := by
  have hrest := hv.rest
  have hloss : (4 : ℝ) / 2 ^ 53 ≤ 1 / 10 ^ 9 := by norm_num
  have hxv := (hv.abs_mul_le (toReal x)).trans
    (show |toReal x| ≤ 11 / 10 from abs_le.2 ⟨by linarith, by linarith⟩)
  have hyw := (hw.abs_mul_le (toReal y)).trans
    (show |toReal y| ≤ 11 / 10 from abs_le.2 ⟨by linarith, by linarith⟩)
  obtain ⟨hp, hploss⟩ := mul_error_le hy hw.finite (by linarith)
  generalize y * w = p at hp hploss ⊢
  have hpabs : |toReal p| ≤ 12 / 10 := by
    linarith [abs_sub_abs_le_abs_sub (toReal p) (toReal y * toReal w)]
  have hpr := (hrest.abs_mul_le (toReal p)).trans hpabs
  obtain ⟨hq, hqloss⟩ := mul_error_le hp hrest.finite (by linarith)
  have halpha' := isNearest_alpha hv hw
  rw [← halpha] at halpha'
  generalize (1.0 : Double lib) - v = r at hrest hpr hq hqloss halpha' ⊢
  generalize p * r = q at hq hqloss ⊢
  have hsum : |toReal x * toReal v + toReal q| ≤ 4 := by
    linarith [abs_add_le (toReal x * toReal v) (toReal q),
      abs_sub_abs_le_abs_sub (toReal q) (toReal p * toReal r)]
  obtain ⟨hn, hnloss⟩ := mulAdd_error_le hx hv.finite hq hsum
  generalize Number.mulAdd x v q = n at hn hnloss ⊢
  have hnumerator : |toReal n - (toReal x * toReal v + toReal y * (toReal w * toReal r))| ≤
      3 * (4 / 2 ^ 53) := by
    have hsplit : toReal n - (toReal x * toReal v + toReal y * (toReal w * toReal r)) =
        (toReal n - (toReal x * toReal v + toReal q)) + (toReal q - toReal p * toReal r) +
          (toReal p - toReal y * toReal w) * toReal r := by ring
    rw [hsplit]
    refine (abs_add_three _ _ _).trans ?_
    linarith [hrest.abs_mul_le (toReal p - toReal y * toReal w)]
  have hwr := mul_le_one₀ hw.le_one hrest.nonneg hrest.le_one
  have hwr0 := mul_nonneg hw.nonneg hrest.nonneg
  have hdenominator : |toReal alpha - (toReal v + toReal w * toReal r)| ≤ 4 / 2 ^ 53 := by
    rw [add_comm (toReal v)]
    refine halpha'.error_le ?_ (by norm_num)
    exact abs_le.2 ⟨by linarith [hv.nonneg], by linarith [hv.le_one]⟩
  have hpos : 0 < toReal alpha := lt_of_lt_of_le (by norm_num) hvisible
  obtain ⟨hmean0, hmean1⟩ := mean_mem hxmem hymem hlo (hhi.trans (by norm_num)) hv.nonneg hwr0
    hnumerator hdenominator hpos (δ := 25 / 10 ^ 7) (by norm_num at hvisible ⊢; linarith)
  obtain ⟨hquotient, hquotient_loss⟩ := div_error_le hn halpha'.isFinite hpos.ne'
    (abs_le.2 ⟨by linarith, by linarith⟩)
  obtain ⟨hlow, hhigh⟩ := abs_le.1 hquotient_loss
  exact ⟨hquotient, by linarith, by linarith⟩

/-- A channel of a composite, where no layer decides it alone. -/
theorem between_weighed (acc : lib.Accurate) {a b : UInt8} {v w alpha : Double lib} (hv : InUnit v)
    (hw : InUnit w) (halpha : alpha = Number.mulAdd w (1.0 - v) v)
    (hvisible : 9 / 10 ^ 10 ≤ toReal alpha) :
    Channel.Between (Number.toByte (ofLinear (Number.mulAdd (toLinear (Number.ofByte a)) v
      (toLinear (Number.ofByte b) * w * (1.0 - v)) / alpha))) a b := by
  have hlo := Channel.min_light_nonneg a b
  have hhi := Channel.max_light_le_one a b
  have hx := near_toLinear acc a
  have hy := near_toLinear acc b
  obtain ⟨hfinite, hlow, hhigh⟩ := @weighed_mem lib _ _ v w alpha
    (min (light a) (light b) - 1 / 10 ^ 9) (max (light a) (light b) + 1 / 10 ^ 9) hx.finite
    ⟨(sub_le_sub_right (min_le_left _ _) _).trans hx.ge,
      hx.le.trans (add_le_add_left (le_max_left _ _) _)⟩ hy.finite
    ⟨(sub_le_sub_right (min_le_right _ _) _).trans hy.ge,
      hy.le.trans (add_le_add_left (le_max_right _ _) _)⟩ (by linarith) (by linarith) hv hw halpha
    hvisible
  refine Channel.between_of_light (δ := 3 / 10 ^ 6) (by norm_num) le_rfl
    (abs_byte_sub_encode_le acc hfinite) (le_trans ?_ hlow) (hhigh.trans ?_)
  · linarith
  · linarith

/-! ## Colours on doubles -/

theorem inUnit_of_isLayer {c : Color (Double lib)} (h : c.IsLayer) : InUnit c.alpha :=
  .of_mem h.1 h.2

theorem isLayer_solid (red green blue : UInt8) :
    (Color.solid red green blue : Color (Double lib)).IsLayer := by
  rw [Color.IsLayer, Color.solid, le_iff finite_zero finite_one, le_iff finite_one finite_one,
    toReal_zero, toReal_one]
  exact ⟨zero_le_one, le_rfl⟩

theorem toReal_min_one (hx : Finite x) : toReal (Number.min x 1.0) = min (toReal x) 1 := by
  unfold Number.min
  split
  · next h =>
    rw [lt_iff hx finite_one, toReal_one] at h
    rw [min_eq_left h.le]
  · next h =>
    rw [lt_iff hx finite_one, toReal_one, not_lt] at h
    rw [min_eq_right h, toReal_one]

theorem isNearest_vanishing : IsNearest (Color.vanishing : Double lib) (1 / 10 ^ 9) := by
  have h := isNearest_ofScientific (m := 1) (e := 9) (by norm_num) (by norm_num)
  rw [Nat.cast_one] at h
  exact h

theorem layerOver (acc : lib.Accurate) (hs : s.IsLayer) (hd : d.IsLayer) :
    Color.Composite toReal (1 / 2 ^ 52) s d (s.layerOver d) ∨
      coverage (toReal s.alpha) (toReal d.alpha) < 1e-9 + 1 / 2 ^ 52 ∧
        s.layerOver d = .transparent := by
  have hs := inUnit_of_isLayer hs
  have hd := inUnit_of_isLayer hd
  have hs' := And.intro hs.nonneg hs.le_one
  have hd' := And.intro hd.nonneg hd.le_one
  have hε : (0 : ℝ) ≤ 1 / 2 ^ 52 := by positivity
  unfold Color.layerOver
  split
  · next h =>
    rw [Bool.or_eq_true, Color.isOpaque, Color.isTransparent, decide_eq_true_eq, decide_eq_true_eq,
      le_iff finite_one hs.finite, le_iff hd.finite finite_zero, toReal_one, toReal_zero] at h
    exact Or.inl (Color.composite_left hs' hd' hε (h.imp hs.le_one.antisymm (·.antisymm hd.nonneg)))
  next hopaque =>
  rw [Bool.or_eq_true, not_or, Color.isOpaque, decide_eq_true_eq, le_iff finite_one hs.finite,
    toReal_one, not_le] at hopaque
  split
  · next h =>
    rw [Color.isTransparent, decide_eq_true_eq, le_iff hs.finite finite_zero, toReal_zero] at h
    exact Or.inl (Color.composite_right hs' hd' hε (h.antisymm hs.nonneg))
  next hvisible =>
  rw [Color.isTransparent, decide_eq_true_eq, le_iff hs.finite finite_zero, toReal_zero,
    not_le] at hvisible
  extract_lets x y alpha weigh
  have hfinite : Finite alpha := (isNearest_alpha hs hd).isFinite
  have halpha := abs_alpha_sub_le hs hd
  have hvanishing : Finite Color.vanishing := (@isNearest_vanishing lib).isFinite
  have hthreshold : |toReal (Color.vanishing : Double lib) - 1 / 10 ^ 9| ≤ 1 / 10 ^ 9 / 2 ^ 53 :=
    isNearest_vanishing.error_le (by norm_num) (by norm_num)
  obtain ⟨hthreshold0, hthreshold1⟩ := abs_le.1 hthreshold
  split
  · next h =>
    rw [lt_iff hfinite hvanishing] at h
    refine Or.inr ⟨?_, rfl⟩
    have hlow := (abs_le.1 halpha).1
    norm_num at hlow hthreshold1 ⊢
    linarith
  · next h =>
    rw [lt_iff hfinite hvanishing, not_lt] at h
    have hmin : toReal (Number.min alpha 1.0) = min (toReal alpha) 1 := toReal_min_one hfinite
    have hcoverage := coverage_le_one hs.le_one hd.le_one
    refine Or.inl (.of_alpha hs' hd' ?_ ?_ (fun hone => ?_) ⟨?_, ?_, ?_⟩)
    · change |toReal (Number.min alpha 1.0) - _| ≤ _
      rw [hmin, ← min_eq_left hcoverage]
      refine (abs_min_sub_min_le_max _ _ _ _).trans (max_le (halpha.trans (by norm_num)) ?_)
      rwa [sub_self, abs_zero]
    · exact hmin.trans_le (min_le_right _ _)
    · refine hmin.trans (min_eq_right ?_)
      exact one_le_alpha hs hvisible hopaque.1 hd (hone.resolve_left hopaque.1.ne)
    all_goals exact between_weighed acc hs hd rfl (by norm_num at h ⊢; linarith)

end Double

theorem Color.layering : Layering Exact.toReal 0 ∧
    ∀ lib : Binary64.Elementary, lib.Accurate → Layering (@Double.toReal lib) (1 / 2 ^ 52) :=
  ⟨.of_layerOver (by norm_num) (fun alpha _ => Exact.isLayer_withAlpha alpha) Exact.layerOver,
    fun _ acc => .of_layerOver (by norm_num) (fun _ h => Double.clampOr_mem h)
      (Double.layerOver acc)⟩

/-- Over black, white is solid at half its opacity, and at one that is not a number. -/
theorem Color.layering_whiteOverBlack :
    (white : Color Exact).IsLayer ∧ (black : Color Exact).IsLayer ∧
      Exact.toReal (black : Color Exact).alpha = 1 ∧
      Exact.toReal ((white : Color Exact).disabled black 0.5).alpha = 1 ∧
      Binary64.Elementary.rounded.Accurate ∧ (white : Color (Double .rounded)).IsLayer ∧
      (black : Color (Double .rounded)).IsLayer ∧
      Double.toReal (black : Color (Double .rounded)).alpha = 1 ∧
      Double.toReal ((white : Color (Double .rounded)).disabled black Binary64.notANumber).alpha =
        1 := by
  obtain ⟨hexact, hdouble⟩ := Color.layering
  have acc := Binary64.Elementary.accurate_rounded
  have hwhite : (white : Color Exact).IsLayer := Exact.isLayer_solid 255 255 255
  have hblack : (black : Color Exact).IsLayer := Exact.isLayer_solid 0 0 0
  have hone : Exact.toReal (black : Color Exact).alpha = 1 := Exact.toReal_one
  have hwhite' : (white : Color (Double .rounded)).IsLayer := Double.isLayer_solid 255 255 255
  have hblack' : (black : Color (Double .rounded)).IsLayer := Double.isLayer_solid 0 0 0
  have hone' : Double.toReal (black : Color (Double .rounded)).alpha = 1 := Double.toReal_one
  have hlayering := hdouble .rounded acc
  have hdisabled := (hlayering.disabled Binary64.notANumber hwhite' hblack' hone').1
  exact ⟨hwhite, hblack, hone, (hexact.disabled 0.5 hwhite hblack hone).1, acc, hwhite', hblack',
    hone', hdisabled⟩

end ThemeTokens
