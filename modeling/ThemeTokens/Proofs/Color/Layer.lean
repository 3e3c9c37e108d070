import ThemeTokens.Color.Blend
import ThemeTokens.Proofs.Color.Encode

/-!
# Layers

What compositing one colour over another should give, whichever shortcut is taken: the opacity of
both layers together, and channels that mix theirs.
-/
namespace ThemeTokens

/-! ## Channels -/

/-- A channel between two others. -/
def Channel.Between (x a b : UInt8) : Prop := (a ≤ x ∧ x ≤ b) ∨ (b ≤ x ∧ x ≤ a)

theorem Channel.between_left (a b : UInt8) : Between a a b :=
  (UInt8.le_total a b).imp (fun h => ⟨UInt8.le_refl a, h⟩) fun h => ⟨h, UInt8.le_refl a⟩

theorem Channel.between_right (a b : UInt8) : Between b a b :=
  (UInt8.le_total a b).imp (fun h => ⟨h, UInt8.le_refl b⟩) fun h => ⟨UInt8.le_refl b, h⟩

section
open Transfer
variable {a b c : UInt8} {x δ : ℝ} (hδ0 : 0 ≤ δ) (hδ : δ ≤ 3 / 10 ^ 6)
  (hc : |(c.toNat : ℝ) - 255 * encode (max 0 (min 1 x))| ≤ 0.6)
include hδ0 hδ hc

theorem Channel.le_of_light (h : x ≤ light b + δ) : c ≤ b := by
  have hle : max 0 (min 1 x) ≤ light b + δ :=
    max_le (add_nonneg (Double.light_nonneg b) hδ0) ((min_le_right _ _).trans h)
  have hencode := encode_le hδ0 (hδ.trans (by norm_num)) (max_le zero_le_one (min_le_left _ _)) hle
  have hnear := (abs_le.1 hc).2
  have hlt : (c.toNat : ℝ) < b.toNat + 1 := by
    norm_num at hδ hnear
    linarith
  have hlt : c.toNat < b.toNat + 1 := by exact_mod_cast hlt
  exact UInt8.le_iff_toNat_le.2 (Nat.le_of_lt_succ hlt)

theorem Channel.ge_of_light (h : light b - δ ≤ x) : b ≤ c := by
  have hge : light b - δ ≤ max 0 (min 1 x) :=
    le_max_of_le_right (le_min (by linarith [Double.light_le_one b]) h)
  have hencode := le_encode hδ0 (hδ.trans (by norm_num)) (max_le zero_le_one (min_le_left _ _)) hge
  have hnear := (abs_le.1 hc).1
  have hlt : (b.toNat : ℝ) < c.toNat + 1 := by
    norm_num at hδ hnear
    linarith
  have hlt : b.toNat < c.toNat + 1 := by exact_mod_cast hlt
  exact UInt8.le_iff_toNat_le.2 (Nat.le_of_lt_succ hlt)

/-- A byte next to the encoding of light that is between the light of two bytes, or nearly. -/
theorem Channel.between_of_light (h0 : min (light a) (light b) - δ ≤ x)
    (h1 : x ≤ max (light a) (light b) + δ) : Between c a b := by
  rcases le_total (light a) (light b) with hab | hab
  · rw [min_eq_left hab] at h0
    rw [max_eq_right hab] at h1
    exact Or.inl ⟨ge_of_light hδ0 hδ hc h0, le_of_light hδ0 hδ hc h1⟩
  · rw [min_eq_right hab] at h0
    rw [max_eq_left hab] at h1
    exact Or.inr ⟨ge_of_light hδ0 hδ hc h0, le_of_light hδ0 hδ hc h1⟩

end

theorem Channel.min_light_nonneg (a b : UInt8) : 0 ≤ min (Transfer.light a) (Transfer.light b) :=
  le_min (Double.light_nonneg a) (Double.light_nonneg b)

theorem Channel.max_light_le_one (a b : UInt8) : max (Transfer.light a) (Transfer.light b) ≤ 1 :=
  max_le (Double.light_le_one a) (Double.light_le_one b)

/-! ## Opacity -/

/-- The opacity of a layer of opacity `s` over one of opacity `d`. -/
def coverage (s d : ℝ) : ℝ := s + d * (1 - s)

section
variable {s d : ℝ}

theorem max_le_coverage (hs0 : 0 ≤ s) (hs1 : s ≤ 1) (hd0 : 0 ≤ d) (hd1 : d ≤ 1) :
    max s d ≤ coverage s d := by
  have hleft : 0 ≤ d * (1 - s) := mul_nonneg hd0 (sub_nonneg.2 hs1)
  have hright : 0 ≤ s * (1 - d) := mul_nonneg hs0 (sub_nonneg.2 hd1)
  rw [coverage]
  exact max_le (by linarith) (by linarith)

theorem coverage_le_one (hs1 : s ≤ 1) (hd1 : d ≤ 1) : coverage s d ≤ 1 := by
  have := mul_nonneg (sub_nonneg.2 hs1) (sub_nonneg.2 hd1)
  rw [coverage]
  linarith

theorem coverage_eq_one (h : s = 1 ∨ d = 1) : coverage s d = 1 := by
  rw [coverage]
  rcases h with rfl | rfl <;> ring

/-- A weighted mean lies between what it is the mean of, and stays close if its numerator and its
denominator are not exact. -/
theorem mean_mem {lo hi x y v w n a η δ : ℝ} (hx : lo ≤ x ∧ x ≤ hi) (hy : lo ≤ y ∧ y ≤ hi)
    (hlo : -1 ≤ lo) (hhi : hi ≤ 2) (hv : 0 ≤ v) (hw : 0 ≤ w)
    (hn : |n - (x * v + y * w)| ≤ 3 * η) (ha : |a - (v + w)| ≤ η) (hpos : 0 < a)
    (hδ : 5 * η ≤ δ * a) : lo - δ ≤ n / a ∧ n / a ≤ hi + δ := by
  have hscale {z : ℝ} (hz : |z| ≤ 2) : |z * (a - (v + w))| ≤ 2 * η := by
    rw [abs_mul]
    exact mul_le_mul hz ha (abs_nonneg _) zero_le_two
  have hlo' := (abs_le.1 (hscale (z := lo) (abs_le.2 ⟨by linarith, by linarith⟩))).2
  have hhi' := (abs_le.1 (hscale (z := hi) (abs_le.2 ⟨by linarith, by linarith⟩))).1
  obtain ⟨hn0, hn1⟩ := abs_le.1 hn
  have hxlo := mul_le_mul_of_nonneg_right hx.1 hv
  have hxhi := mul_le_mul_of_nonneg_right hx.2 hv
  have hylo := mul_le_mul_of_nonneg_right hy.1 hw
  have hyhi := mul_le_mul_of_nonneg_right hy.2 hw
  rw [le_div_iff₀ hpos, div_le_iff₀ hpos]
  constructor <;> linarith

end

namespace Color
variable {R : Type}

/-- Every channel of `c` lies between those of `a` and `b`. -/
structure Between (c a b : Color R) : Prop where
  red : Channel.Between c.red a.red b.red
  green : Channel.Between c.green a.green b.green
  blue : Channel.Between c.blue a.blue b.blue

theorem between_left (a b : Color R) : a.Between a b :=
  ⟨Channel.between_left _ _, Channel.between_left _ _, Channel.between_left _ _⟩

theorem between_right (a b : Color R) : b.Between a b :=
  ⟨Channel.between_right _ _, Channel.between_right _ _, Channel.between_right _ _⟩

/-- What `s` over `d` looks like, with an alpha that is off by no more than `ε`. -/
structure Composite (value : R → ℝ) (ε : ℝ) (s d c : Color R) : Prop where
  alpha : |value c.alpha - coverage (value s.alpha) (value d.alpha)| ≤ ε
  max_le : max (value s.alpha) (value d.alpha) - ε ≤ value c.alpha
  le_one : value c.alpha ≤ 1
  solid : value s.alpha = 1 ∨ value d.alpha = 1 → value c.alpha = 1
  between : c.Between s d

section
variable {value : R → ℝ} {ε : ℝ} {s d c : Color R}
  (hs : 0 ≤ value s.alpha ∧ value s.alpha ≤ 1) (hd : 0 ≤ value d.alpha ∧ value d.alpha ≤ 1)
include hs hd

theorem Composite.of_alpha
    (halpha : |value c.alpha - coverage (value s.alpha) (value d.alpha)| ≤ ε)
    (hone : value c.alpha ≤ 1) (hsolid : value s.alpha = 1 ∨ value d.alpha = 1 → value c.alpha = 1)
    (hbetween : c.Between s d) : Composite value ε s d c where
  alpha := halpha
  max_le := by
    have := max_le_coverage hs.1 hs.2 hd.1 hd.2
    linarith [(abs_le.1 halpha).1]
  le_one := hone
  solid := hsolid
  between := hbetween

variable (hε : 0 ≤ ε)
include hε

theorem composite_left (h : value s.alpha = 1 ∨ value d.alpha = 0) : Composite value ε s d s := by
  have halpha : coverage (value s.alpha) (value d.alpha) = value s.alpha := by
    rw [coverage]
    rcases h with h | h
    · rw [h]
      ring
    · rw [h]
      ring
  refine .of_alpha hs hd ?_ hs.2 (fun hone => ?_) (between_left s d)
  · rwa [halpha, sub_self, abs_zero]
  · rw [← halpha, coverage_eq_one hone]

theorem composite_right (h : value s.alpha = 0) : Composite value ε s d d := by
  have halpha : coverage (value s.alpha) (value d.alpha) = value d.alpha := by
    rw [coverage, h]
    ring
  refine .of_alpha hs hd ?_ hd.2 (fun hone => ?_) (between_right s d)
  · rwa [halpha, sub_self, abs_zero]
  · rw [← halpha, coverage_eq_one hone]

end

variable [Number R]

/-- An alpha in `[0, 1]`, so that the colour can be a layer. -/
def IsLayer (c : Color R) : Prop := 0.0 ≤ c.alpha ∧ c.alpha ≤ 1.0

/-- The laws of compositing, over an arithmetic that keeps them up to `ε`. -/
structure Layering (value : R → ℝ) (ε : ℝ) : Prop where
  layerOver {s d : Color R} : s.IsLayer → d.IsLayer → Composite value ε s d (s.layerOver d) ∨
    coverage (value s.alpha) (value d.alpha) < 1e-9 + ε ∧ s.layerOver d = transparent
  inactive {foreground background : Color R} : foreground.IsLayer → background.IsLayer →
    value background.alpha = 1 → value (foreground.inactive background).alpha = 1 ∧
      (foreground.inactive background).Between foreground background
  disabled {foreground background : Color R} (opacity : R) : foreground.IsLayer →
    background.IsLayer → value background.alpha = 1 →
      value (foreground.disabled background opacity).alpha = 1 ∧
        (foreground.disabled background opacity).Between foreground background

/-- Content of any opacity over a solid background is a layer too, and does not vanish there. -/
theorem Layering.of_layerOver {value : R → ℝ} {ε : ℝ} (hε : ε ≤ 1 / 2)
    (hlayer : ∀ {c : Color R} (alpha : R), c.IsLayer → (c.withAlpha alpha).IsLayer)
    (hover : ∀ {s d : Color R}, s.IsLayer → d.IsLayer → Composite value ε s d (s.layerOver d) ∨
      coverage (value s.alpha) (value d.alpha) < 1e-9 + ε ∧ s.layerOver d = transparent) :
    Layering value ε := by
  have hsolid {c background : Color R} (alpha : R) (hc : c.IsLayer)
      (hbackground : background.IsLayer) (hone : value background.alpha = 1) :
      value ((c.withAlpha alpha).layerOver background).alpha = 1 ∧
        ((c.withAlpha alpha).layerOver background).Between c background := by
    rcases hover (hlayer alpha hc) hbackground with h | ⟨hvanishes, -⟩
    · exact ⟨h.solid (Or.inr hone), h.between.red, h.between.green, h.between.blue⟩
    · rw [coverage_eq_one (Or.inr hone)] at hvanishes
      norm_num at hvanishes
      linarith
  exact ⟨hover, hsolid 0.7, hsolid⟩

end Color

end ThemeTokens
