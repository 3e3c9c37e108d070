import ThemeTokens.Proofs.Composite
import ThemeTokens.Proofs.Contrast.Best

/-!
# Opaque paints

Shades keep the alpha of their slot, and nothing is seen through what lies on an opaque background,
however little of it is there. So most paints are opaque if one slot is.
-/
namespace ThemeTokens
open Double
variable {lib : Binary64.Elementary}

namespace Color
variable {c source destination : Color (Double lib)}

theorem isOpaque_congr {d : Color (Double lib)} (h : d.alpha = c.alpha) :
    d.isOpaque = c.isOpaque := by
  rw [isOpaque, isOpaque, h]

theorem alpha_shiftLightness (h : c.HasOpacity) (delta : Double lib) :
    (c.shiftLightness delta).alpha = c.alpha := clampOr_of_mem 1.0 h.1 h.2

theorem alpha_towardMiddle (h : c.HasOpacity) (delta : Double lib) :
    (c.towardMiddle delta).alpha = c.alpha := by
  unfold towardMiddle
  split
  · exact alpha_shiftLightness h _
  · exact alpha_shiftLightness h _

theorem not_lt_vanishing {x : Double lib} (h : Finite x) (hone : 1 ≤ toReal x) :
    ¬ x < vanishing := by
  have hvanishing := @isNearest_vanishing lib
  have hle : toReal (vanishing : Double lib) ≤ toReal (1.0 : Double lib) :=
    hvanishing.le finite_one (le_trans (by norm_num) (@toReal_one lib).ge)
  rw [lt_iff h hvanishing.isFinite, not_lt]
  exact hle.trans (toReal_one.trans_le hone)

theorem not_isTransparent (h : c.isOpaque = true) (hc : c.HasOpacity) :
    c.isTransparent = false := by
  have hunit := InUnit.of_mem hc.1 hc.2
  refine decide_eq_false fun htransparent => ?_
  rw [le_iff hunit.finite finite_zero, (isOpaque_iff hc).1 h, toReal_zero] at htransparent
  exact absurd htransparent (by norm_num)

theorem isOpaque_layerOver (hs : source.HasOpacity) (hd : destination.HasOpacity)
    (h : destination.isOpaque = true) : (source.layerOver destination).isOpaque = true := by
  have hsource := InUnit.of_mem hs.1 hs.2
  have hdestination := InUnit.of_mem hd.1 hd.2
  have hone : toReal destination.alpha = 1 := (isOpaque_iff hd).1 h
  rw [isOpaque_iff (hasOpacity_layerOver hs hd), layerOver, not_isTransparent h hd, Bool.or_false]
  split
  · next hsolid => exact (isOpaque_iff hs).1 hsolid
  next hsheer =>
  split
  · exact hone
  next hvisible =>
  have hbelow : toReal source.alpha < 1 :=
    hsource.le_one.lt_of_ne fun heq => hsheer ((isOpaque_iff hs).2 heq)
  have habove : 0 < toReal source.alpha := by
    rwa [isTransparent, decide_eq_true_iff, le_iff hsource.finite finite_zero, toReal_zero,
      not_le] at hvisible
  extract_lets s d alpha weigh
  have hfinite : Finite alpha := (isNearest_alpha hsource hdestination).isFinite
  have halpha : 1 ≤ toReal alpha := one_le_alpha hsource habove hbelow hdestination hone
  rw [if_neg (not_lt_vanishing hfinite halpha)]
  exact (toReal_min_one hfinite).trans (min_eq_right halpha)

end Color

/-! ## Paints -/

/-- Whether a paint is opaque as soon as these slots are. -/
def Paint.isOpaqueOn (solid : ColorSlot → Bool) : Paint (Double lib) → Bool
  | .slot s | .alternate s | .hover s | .shift s _ | .legible s _ => solid s
  | .fixed color => color.isOpaque
  | .inactive _ background | .disabled _ background => solid background
  | .translucent _ _ | .overlay _ _ => false

theorem Schema.isOpaque_paint {s : Schema (Double lib)} (h : ∀ slot, (s.color slot).HasOpacity)
    {solid : ColorSlot → Bool} (hsolid : ∀ slot, solid slot = true → (s.color slot).isOpaque = true)
    {p : Paint (Double lib)} (hp : p.isOpaqueOn solid = true) : (s.paint p).isOpaque = true := by
  have hkept {slot : ColorSlot} {c : Color (Double lib)} (hslot : solid slot = true)
      (halpha : c.alpha = (s.color slot).alpha) : c.isOpaque = true :=
    (Color.isOpaque_congr halpha).trans (hsolid slot hslot)
  have hlaid {slot : ColorSlot} {c : Color (Double lib)} (hslot : solid slot = true)
      (hc : c.HasOpacity) : (c.layerOver (s.color slot)).isOpaque = true :=
    Color.isOpaque_layerOver hc (h slot) (hsolid slot hslot)
  cases p with
  | slot slot => exact hsolid slot hp
  | fixed color => exact hp
  | alternate slot => exact hkept hp (Color.alpha_towardMiddle (h slot) _)
  | hover slot => exact hkept hp (Color.alpha_towardMiddle (h slot) _)
  | shift slot delta => exact hkept hp (Color.alpha_shiftLightness (h slot) delta)
  | inactive foreground background =>
    exact hlaid hp (Color.hasOpacity_withAlpha (h foreground) _)
  | disabled foreground background =>
    exact hlaid hp (Color.hasOpacity_withAlpha (h foreground) _)
  | legible foreground background => exact hkept hp (Contrast.alpha_ensure (h foreground) _ _)
  | translucent slot alpha => cases hp
  | overlay slot alpha => cases hp

end ThemeTokens
