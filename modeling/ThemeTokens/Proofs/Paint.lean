import ThemeTokens.Proofs.Binary64.Byte
import ThemeTokens.Proofs.Contrast
import ThemeTokens.Proofs.Finalize
import ThemeTokens.Target.Paint

/-!
# The opacity of paints

Whatever a key of a target is painted with, its alpha is in `[0, 1]` if those of the schema are.
-/
namespace ThemeTokens
open Double
variable {lib : Binary64.Elementary}

namespace Color

/-- An alpha in `[0, 1]`. -/
def HasOpacity (c : Color (Double lib)) : Prop := 0.0 ≤ c.alpha ∧ c.alpha ≤ 1.0

variable {c source destination : Color (Double lib)}

theorem isOpaque_iff (h : c.HasOpacity) : c.isOpaque = true ↔ toReal c.alpha = 1 := by
  have hunit := InUnit.of_mem h.1 h.2
  rw [isOpaque, decide_eq_true_iff, le_iff finite_one hunit.finite, toReal_one]
  exact ⟨hunit.le_one.antisymm, ge_of_eq⟩

theorem hasOpacity_withAlpha (h : c.HasOpacity) (alpha : Double lib) :
    (c.withAlpha alpha).HasOpacity := clampOr_mem h

theorem one_mem : 0.0 ≤ (1.0 : Double lib) ∧ (1.0 : Double lib) ≤ 1.0 := by
  rw [le_iff finite_zero finite_one, le_iff finite_one finite_one, toReal_zero, toReal_one]
  exact ⟨zero_le_one, le_rfl⟩

theorem hasOpacity_ofOklch (p : Oklch (Double lib)) : (ofOklch p).HasOpacity := clampOr_mem one_mem

theorem hasOpacity_towardMiddle (c : Color (Double lib)) (delta : Double lib) :
    (c.towardMiddle delta).HasOpacity := by
  unfold towardMiddle
  split
  · exact hasOpacity_ofOklch _
  · exact hasOpacity_ofOklch _

theorem finite_compositeAlpha {x y : Double lib} (hx : 0.0 ≤ x ∧ x ≤ 1.0) (hy : 0.0 ≤ y ∧ y ≤ 1.0) :
    Finite (Number.mulAdd y (1.0 - x) x) := by
  have hunit {z : Double lib} (hz : 0.0 ≤ z ∧ z ≤ 1.0) : Near 1 0 z (toReal z) := by
    have hfinite := finite_of_mem hz.1 hz.2
    have hlow := (le_iff finite_zero hfinite).1 hz.1
    have hhigh := (le_iff hfinite finite_one).1 hz.2
    rw [toReal_zero] at hlow
    rw [toReal_one] at hhigh
    exact .self hfinite (abs_le.2 ⟨by linarith, hhigh⟩)
  have hrest := (hunit one_mem).sub (hunit hx) (by norm_num)
  exact ((hunit hy).mulAdd hrest (hunit hx) (by norm_num [slip])).finite

theorem hasOpacity_layerOver (hs : source.HasOpacity) (hd : destination.HasOpacity) :
    (source.layerOver destination).HasOpacity := by
  have hzero : Finite (0.0 : Double lib) := finite_zero
  have hone : Finite (1.0 : Double lib) := finite_one
  have hvanishing : Near 1 slip (vanishing : Double lib) 1e-9 :=
    near_fraction (by norm_num) (by norm_num) (by norm_num)
  unfold layerOver
  split
  · exact hs
  split
  · exact hd
  · extract_lets s d alpha weigh
    have hfinite : Finite alpha := finite_compositeAlpha hs hd
    have hge := (hvanishing.ge).trans' (show (0 : ℝ) ≤ 1e-9 - slip by norm_num [slip])
    split
    · refine ⟨(le_iff hzero hzero).2 le_rfl, (le_iff hzero hone).2 ?_⟩
      rw [toReal_zero, toReal_one]
      exact zero_le_one
    · next hvisible =>
      have hle := (le_iff hvanishing.finite hfinite).1
        ((not_lt_iff_le hfinite.isNaN_eq_false hvanishing.finite.isNaN_eq_false).1 hvisible)
      have hlow : 0.0 ≤ alpha := by
        rw [le_iff hzero hfinite, toReal_zero]
        exact hge.trans hle
      change 0.0 ≤ Number.min alpha 1.0 ∧ Number.min alpha 1.0 ≤ 1.0
      unfold Number.min
      split
      · next hlt =>
        rw [lt_iff hfinite hone] at hlt
        exact ⟨hlow, (le_iff hfinite hone).2 hlt.le⟩
      · exact one_mem

theorem hasOpacity_ensure {foreground : Color (Double lib)} (h : foreground.HasOpacity)
    (background : Color (Double lib)) (minimum : Double lib) :
    (Contrast.ensure foreground background minimum).HasOpacity := by
  cases hmeets : Contrast.meets foreground background minimum with
  | true =>
    rw [Contrast.ensure, if_pos hmeets]
    exact h
  | false =>
    rcases Contrast.ensure_spec (P := fun _ => True) (fun _ _ _ _ => trivial) hmeets trivial
      (fun _ _ => trivial) with ⟨-, l, -, hl⟩ | ⟨-, -, hsame | ⟨l, -, hl⟩⟩
    · rw [hl]
      exact hasOpacity_ofOklch _
    · rw [hsame]
      exact h
    · rw [hl]
      exact hasOpacity_ofOklch _

end Color

/-! ## Paints -/

namespace Paint
variable {R : Type}

/-- Whether a paint is a constant. -/
def isFixed : Paint R → Bool
  | .fixed _ => true
  | _ => false

/-- Whether a paint depends on the contrast policy. -/
def isLegible : Paint R → Bool
  | .legible _ _ => true
  | _ => false

/-- The slot that a paint takes as it is. -/
def slot? : Paint R → Option ColorSlot
  | .slot s => some s
  | _ => none

theorem slot?_eq_some {p : Paint R} {s : ColorSlot} : p.slot? = some s ↔ p = .slot s := by
  cases p <;> simp [slot?]

end Paint

/-- Most paints depend on nothing but the tokens. -/
theorem Schema.paint_congr {R : Type} [Number R] {s other : Schema R}
    (htokens : other.tokens = s.tokens) {p : Paint R}
    (h : p.isLegible = false ∨ other.policy = s.policy) : other.paint p = s.paint p := by
  have hcolor (slot : ColorSlot) : other.color slot = s.color slot := by
    rw [color, color, htokens]
  have hscalar (slot : ScalarSlot) : other.scalar slot = s.scalar slot := by
    rw [scalar, scalar, htokens]
  cases p with
  | legible foreground background =>
    have hpolicy := h.resolve_left (Bool.noConfusion ·)
    simp only [paint, hcolor, hpolicy]
  | _ => simp only [paint, hcolor, hscalar]

theorem Schema.hasOpacity_finalize {t : TokenSet (Double lib)}
    (h : ∀ slot, (t.color slot).HasOpacity) (policy : Policy (Double lib)) (label : Option Text)
    (slot : ColorSlot) : ((finalize t policy label).color slot).HasOpacity := by
  change ((EnforcedPair.all.foldl (TokenSet.enforcePair policy.minRatio) t).color slot).HasOpacity
  generalize EnforcedPair.all = pairs
  induction pairs generalizing t with
  | nil => exact h slot
  | cons pair pairs ih =>
    refine ih fun other => ?_
    rw [TokenSet.color_enforcePair]
    split
    · exact Color.hasOpacity_ensure (h _) _ _
    · exact h other

theorem Schema.hasOpacity_paint {s : Schema (Double lib)} (h : ∀ slot, (s.color slot).HasOpacity)
    {p : Paint (Double lib)} (hp : p.isFixed = false) : (s.paint p).HasOpacity := by
  cases p with
  | slot slot => exact h slot
  | fixed color => cases hp
  | alternate slot => exact Color.hasOpacity_towardMiddle _ _
  | hover slot => exact Color.hasOpacity_towardMiddle _ _
  | shift slot delta => exact Color.hasOpacity_ofOklch _
  | inactive foreground background =>
    exact Color.hasOpacity_layerOver (Color.hasOpacity_withAlpha (h foreground) _) (h background)
  | disabled foreground background =>
    exact Color.hasOpacity_layerOver (Color.hasOpacity_withAlpha (h foreground) _) (h background)
  | legible foreground background => exact Color.hasOpacity_ensure (h foreground) _ _
  | translucent slot alpha => exact Color.hasOpacity_withAlpha (h slot) alpha
  | overlay slot alpha => exact Color.hasOpacity_withAlpha (h slot) _

end ThemeTokens
