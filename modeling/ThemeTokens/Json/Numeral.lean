import ThemeTokens.Decimal.Numeral
import ThemeTokens.Number.Basic

/-!
# JSON numbers

A number is written without leading zeros and with digits on both sides of its point. Its value is
made of the leading digits that fit 64 bits, scaled by a power of ten; a number beyond the largest
finite one is an error.
-/
namespace ThemeTokens.Json

/-- The parts of a number as it is written. -/
structure Written where
  negative : Bool
  whole : Text
  fraction : Text
  exponent : Int
  deriving DecidableEq, Repr

/-- The digits before the point, and the rest. -/
def readWhole? (t : Text) : Option (Text × Text) :=
  match Numeral.leadingDigits t with
  | ([], _) => none
  | ('0' :: _ :: _, _) => none
  | digits => some digits

def readFraction? : Text → Option (Text × Text)
  | '.' :: t =>
    match Numeral.leadingDigits t with
    | ([], _) => none
    | digits => some digits
  | t => some ([], t)

def readExponent? : Text → Option (Int × Text)
  | [] => some (0, [])
  | c :: t =>
    if c = 'e' ∨ c = 'E' then
      let (negative, t) := Numeral.readSign t
      match Numeral.leadingDigits t with
      | ([], _) => none
      | (digits, rest) =>
        let magnitude : Int := Numeral.ofDigits digits
        some (if negative then -magnitude else magnitude, rest)
    else some (0, c :: t)

/-- The number after its sign, and the rest. -/
def readUnsigned? (negative : Bool) (t : Text) : Option (Written × Text) := do
  let (whole, t) ← readWhole? t
  let (fraction, t) ← readFraction? t
  let (exponent, t) ← readExponent? t
  return (⟨negative, whole, fraction, exponent⟩, t)

/-- The number that a text starts with, and the rest. -/
def readWritten? : Text → Option (Written × Text)
  | '-' :: t => readUnsigned? true t
  | t => readUnsigned? false t

theorem length_leadingDigits (t : Text) : (Numeral.leadingDigits t).2.length ≤ t.length :=
  Text.length_dropWhile_le _ t

theorem length_readWhole? {t : Text} {r : Text × Text} (h : readWhole? t = some r) :
    r.2.length < t.length := by
  have hsum :
      (Numeral.leadingDigits t).1.length + (Numeral.leadingDigits t).2.length = t.length := by
    simp only [Numeral.leadingDigits, ← List.length_append, List.takeWhile_append_dropWhile]
  unfold readWhole? at h
  split at h
  · simp at h
  · simp at h
  · next hne _ =>
    cases h
    have : (Numeral.leadingDigits t).1 ≠ [] := fun e => hne _ (Prod.ext e rfl)
    have := List.length_pos_iff.2 this
    omega

theorem length_readFraction? {t : Text} {r : Text × Text} (h : readFraction? t = some r) :
    r.2.length ≤ t.length := by
  unfold readFraction? at h
  split at h
  · next u =>
    have := length_leadingDigits u
    split at h
    · simp at h
    · cases h; simp; omega
  · cases h; simp

theorem length_readExponent? {t : Text} {r : Int × Text} (h : readExponent? t = some r) :
    r.2.length ≤ t.length := by
  unfold readExponent? at h
  split at h
  · cases h; simp
  · next c u =>
    split at h
    · have hs : (Numeral.readSign u).2.length ≤ u.length := by
        unfold Numeral.readSign; split <;> simp
      have hd := length_leadingDigits (Numeral.readSign u).2
      dsimp only at h
      split at h
      · simp at h
      · next digits rest _ heq => cases h; rw [heq] at hd; simp at hd ⊢; omega
    · cases h; simp

theorem length_readUnsigned? {negative : Bool} {t rest : Text} {w : Written}
    (h : readUnsigned? negative t = some (w, rest)) : rest.length < t.length := by
  simp only [readUnsigned?, Option.bind_eq_bind, Option.bind_eq_some_iff, Option.pure_def,
    Option.some.injEq, Prod.exists, Prod.mk.injEq] at h
  obtain ⟨whole, u, hw, fraction, v, hf, exponent, x, he, _, rfl⟩ := h
  have h1 := length_readWhole? hw
  have h2 := length_readFraction? hf
  have h3 := length_readExponent? he
  dsimp only at h1 h2 h3
  omega

theorem length_readWritten? {t rest : Text} {w : Written} (h : readWritten? t = some (w, rest)) :
    rest.length < t.length := by
  unfold readWritten? at h
  split at h
  · next t => exact Nat.lt_succ_of_lt (length_readUnsigned? h)
  · exact length_readUnsigned? h

/-- Appends digits while the result fits 64 bits, and counts the digits that are left. -/
def appendDigits : Nat → Text → Nat × Nat
  | n, [] => (n, 0)
  | n, c :: t =>
    let next := 10 * n + (c.toNat - '0'.toNat)
    if next < UInt64.size then appendDigits next t else (n, t.length + 1)

variable {R : Type} [Number R]

def powerOfTen (n : Nat) : R := OfScientific.ofScientific 1 false n

/-- `x * 10 ^ exponent`, in steps that the exponents of doubles can take. -/
def scale? (x : R) (exponent : Int) : Option R :=
  if exponent < -308 then
    if x ≤ 0.0 then some x else scale? (x / powerOfTen 308) (exponent + 308)
  else if exponent < 0 then some (x / powerOfTen exponent.natAbs)
  else if 308 < exponent then
    if x ≤ 0.0 then some x else none
  else
    let product := x * powerOfTen exponent.natAbs
    if Number.isFinite product then some product else none
termination_by (-exponent).toNat

def Written.value? (w : Written) : Option R :=
  let (whole, dropped) := appendDigits 0 w.whole
  let (significand, unused) := appendDigits whole w.fraction
  let exponent := w.exponent + dropped - (w.fraction.length - unused : Nat)
  (scale? (Number.ofNat significand) exponent).map fun x => if w.negative then -x else x

end ThemeTokens.Json
