import ThemeTokens.Color.Perceptual

/-!
# Contrast

The contrast ratio of WCAG 2.1, and the search that moves a colour's lightness away from its
background until the pair reaches a ratio. The search walks in coarse steps and then halves the
bracket between the last lightness that failed and the first that passed. When no step reaches the
ratio, the answer is the step with the greatest contrast, or the colour itself.
-/
namespace ThemeTokens.Contrast
variable {R : Type} [Number R]

/-- Between 1 and 21, whichever of the two is lighter. Alphas are ignored. -/
def ratio (a b : Color R) : R :=
  let la := a.luminance
  let lb := b.luminance
  if lb ≤ la then (la + 0.05) / (lb + 0.05) else (lb + 0.05) / (la + 0.05)

def meets (foreground background : Color R) (minimum : R) : Bool :=
  decide (minimum ≤ ratio foreground background)

inductive Direction
  | lighten
  | darken
  deriving DecidableEq, Repr

namespace Direction

/-- Away from the background; at equal luminance, toward the pole that contrasts more. -/
def awayFrom (foreground background : Color R) : Direction :=
  if background.luminance < foreground.luminance then .lighten
  else if foreground.luminance < background.luminance then .darken
  else if ratio Color.black background ≤ ratio Color.white background then .lighten
  else .darken

def step : Direction → R
  | .lighten => 0.05
  | .darken => -0.05

/-- Whether the lightness is already that of the pole. -/
def atPole (d : Direction) (lightness : R) : Bool :=
  match d with
  | .lighten => decide (1.0 ≤ lightness)
  | .darken => decide (lightness ≤ 0.0)

end Direction

/-- How the coarse walk ends: at a lightness that passes, with the steps left, or at the pole. -/
inductive Walk (R : Type)
  | reached (steps : Nat) (failing passing : R) (color : Color R)
  | exhausted (best : Color R)

/-- Candidates tried at most, in both phases together. -/
def maxCandidates : Nat := 40

/-- A bracket this narrow is not halved again. -/
def bracketWidth : R := 1e-4

section
variable (candidate : R → Color R) (background : Color R) (minimum : R)

def walk (direction : Direction) : Nat → R → Color R → Walk R
  | 0, _, best => .exhausted best
  | steps + 1, failing, best =>
    let lightness := Number.clamp (failing + direction.step)
    let color := candidate lightness
    if meets color background minimum then .reached steps failing lightness color
    else
      let best := if ratio best background < ratio color background then color else best
      if direction.atPole lightness then .exhausted best
      else walk direction steps lightness best

/-- Narrows the bracket from its failing to its passing end, where `color` is the candidate. -/
def refine : Nat → R → R → Color R → Color R
  | 0, _, _, color => color
  | steps + 1, failing, passing, color =>
    if bracketWidth < Number.abs (passing - failing) then
      let middle := (passing + failing) * 0.5
      let halfway := candidate middle
      if meets halfway background minimum then refine steps failing middle halfway
      else refine steps middle passing color
    else color

end

/-- The foreground, adjusted until it reaches the ratio on the background where that is possible. -/
def ensure (foreground background : Color R) (minimum : R) : Color R :=
  if meets foreground background minimum then foreground
  else
    let perceptual := foreground.toOklch
    let candidate (lightness : R) : Color R :=
      Color.ofOklch (perceptual.withLightness lightness)
    let start := Number.clamp perceptual.lightness
    let direction := Direction.awayFrom foreground background
    match walk candidate background minimum direction maxCandidates start foreground with
    | .exhausted best => best
    | .reached steps failing passing color =>
      refine candidate background minimum steps failing passing color

end ThemeTokens.Contrast
