import Mathlib.Analysis.SpecialFunctions.Pow.Real
import ThemeTokens.Number.Binary64

/-!
# The values of doubles

The real number that a double stands for. Doubles are kept in a canonical form, with a mantissa of
53 bits unless the exponent is the least one, so that comparing exponents and mantissas compares
values. While a result is computed its mantissa has two bits more, which stand for what lies below.
-/
namespace ThemeTokens.Binary64
open Float.Model Float.Model.UnpackedFloat

/-- The number that a double stands for; what is not finite counts as zero. -/
noncomputable def value : UnpackedFloat → ℝ
  | .finite s m e _ => (s.apply m : ℤ) * (2 : ℝ) ^ e
  | _ => 0

noncomputable def floatValue (x : Float) : ℝ := value x.toModel.unpack

def Canonical : UnpackedFloat → Prop
  | .finite _ m e _ => m < 2 ^ 53 ∧ -1074 ≤ e ∧ e ≤ 971 ∧ (2 ^ 52 ≤ m ∨ e = -1074)
  | _ => True

/-- The form of a double whose exponent has no upper bound. -/
def Normal : UnpackedFloat → Prop
  | .finite _ m e _ => m < 2 ^ 53 ∧ -1074 ≤ e ∧ (2 ^ 52 ≤ m ∨ e = -1074)
  | _ => True

/-- Beyond this magnitude nothing is claimed, so that no sum or product overflows. -/
noncomputable def range : ℝ := 2 ^ 1000

/-! ## Packing -/

theorem unpackSign_packComponents {spec : Format} (s : Sign) (e : BitVec spec.exponentBits)
    (m : BitVec spec.mantissaBitsWithoutImplicit) :
    Sign.ofBitVec (unpackSign (packComponents spec s e m)) = s := by
  have h : unpackSign (packComponents spec s e m) = s.toBitVec := by
    apply BitVec.eq_of_getLsbD_eq
    intro i hi
    obtain rfl : i = 0 := by omega
    change (BitVec.cast _ (BitVec.extractLsb _ _ (packComponents spec s e m))).getLsbD 0 = _
    simp [packComponents, BitVec.getLsbD_append, BitVec.getElem_append]
  rw [h]
  cases s <;> rfl

theorem toNat_implicit (m : BitVec 52) : (1#1 ++ m).toNat = 2 ^ 52 + m.toNat := by
  rw [BitVec.toNat_append, ← Nat.shiftLeft_add_eq_or_of_lt m.isLt]
  simp [Nat.shiftLeft_eq]

theorem mantissaBits_binary64 : Format.binary64.mantissaBits = 53 := rfl

theorem finite_congr {s : Sign} {m n : ℕ} {e f : ℤ} {hm : 0 < m} {hn : 0 < n} (h : m = n)
    (he : e = f) : UnpackedFloat.finite s m e hm = .finite s n f hn := by
  subst h he
  rfl

/-- A double with the given bits. -/
def ofComponents (s : Sign) (e : BitVec 11) (m : BitVec 52) : UnpackedFloat :=
  if e = -1#_ then if m = 0#_ then .infinity s else .notANumber
  else if e = 0#_ then
    if h : m = 0#_ then .zero s
    else .finite s m.toNat (-1074) (by simpa [BitVec.toNat_pos, BitVec.pos_iff_ne_zero])
  else .finite s (1#1 ++ m).toNat (e.toNat - 1075) (by rw [toNat_implicit]; omega)

theorem unpack_eq (b : BitVec Format.binary64.numBits) :
    UnpackedFloat.unpack Format.binary64 b =
      ofComponents (Sign.ofBitVec (unpackSign b)) (unpackExponent b) (unpackMantissa b) := by
  unfold UnpackedFloat.unpack ofComponents
  by_cases hinf : unpackExponent b = -1#_
  · exact (if_pos hinf).trans (if_pos hinf).symm
  · refine (if_neg hinf).trans (Eq.trans ?_ (if_neg hinf).symm)
    by_cases hzero : unpackExponent b = 0#_
    · refine (if_pos hzero).trans (Eq.trans ?_ (if_pos hzero).symm)
      by_cases hm : unpackMantissa b = 0#52
      · exact (dif_pos hm).trans (Eq.symm (dif_pos (show _ = 0#52 from hm)))
      · refine (dif_neg hm).trans (Eq.trans (finite_congr rfl ?_)
          (Eq.symm (dif_neg (show ¬ _ = 0#52 from hm))))
        rw [hzero]
        rfl
    · exact (if_neg hzero).trans (if_neg hzero).symm

theorem canonical_ofComponents (s : Sign) (e : BitVec 11) (m : BitVec 52) :
    Canonical (ofComponents s e m) := by
  have hm := m.isLt
  have he := e.isLt
  rw [ofComponents]
  by_cases hinf : e = -1#_
  · rw [if_pos hinf]
    by_cases hzero : m = 0#_
    · rw [if_pos hzero]
      trivial
    · rw [if_neg hzero]
      trivial
  · rw [if_neg hinf]
    by_cases hsub : e = 0#_
    · rw [if_pos hsub]
      by_cases hzero : m = 0#_
      · rw [dif_pos hzero]
        trivial
      · rw [dif_neg hzero]
        exact ⟨by omega, le_rfl, by norm_num, Or.inr rfl⟩
    · have h0 : e.toNat ≠ 0 := fun h => hsub (BitVec.eq_of_toNat_eq h)
      have h1 : e.toNat ≠ 2047 := fun h => hinf (BitVec.eq_of_toNat_eq h)
      have hvalue := toNat_implicit m
      rw [if_neg hsub]
      exact ⟨by omega, by omega, by omega, Or.inl (by omega)⟩

theorem canonical_unpack (x : Float.Model) : Canonical x.unpack := by
  rw [Float.Model.unpack, unpack_eq]
  exact canonical_ofComponents _ _ _

theorem unpack_packComponents (s : Sign) (e : BitVec 11) (m : BitVec 52) :
    UnpackedFloat.unpack Format.binary64 (packComponents Format.binary64 s e m) =
      ofComponents s e m := by
  rw [unpack_eq, unpackSign_packComponents, unpackExponent_packComponents,
    unpackMantissa_packComponents]

theorem pack_finite (s : Sign) {m : ℕ} (e : ℤ) (hm : 0 < m) :
    UnpackedFloat.pack Format.binary64 (.finite s m e hm) =
      if 2 ^ 11 ≤ (e + 1023 + 52).toNat + 1 then packedInfinity Format.binary64 s
      else if m.log2 + 1 = 53 then
        packComponents Format.binary64 s (BitVec.ofNat 11 (e + 1023 + 52).toNat) (BitVec.ofNat 52 m)
      else packComponents Format.binary64 s 0#11 (BitVec.ofNat 52 m) := rfl

theorem unpack_pack {u : UnpackedFloat} (hu : Canonical u) : (Float.Model.pack u).unpack = u := by
  change UnpackedFloat.unpack Format.binary64 (UnpackedFloat.pack Format.binary64 u) = u
  cases u with
  | notANumber => exact unpack_packComponents _ _ _
  | infinity s => exact unpack_packComponents _ _ _
  | zero s => exact unpack_packComponents _ _ _
  | finite s m e hm =>
    obtain ⟨hm53, hlo, hhi, hc⟩ := hu
    have hbias : e + 1023 + 52 = e + 1075 := by ring
    have hlog : m.log2 < 53 := (Nat.log2_lt hm.ne').2 hm53
    have hcap : ¬ 2 ^ 11 ≤ (e + 1075).toNat + 1 := by omega
    rw [pack_finite, hbias, if_neg hcap]
    by_cases hn : 2 ^ 52 ≤ m
    · have hlog' : 52 ≤ m.log2 := (Nat.le_log2 hm.ne').2 hn
      have he : (BitVec.ofNat 11 (e + 1075).toNat).toNat = (e + 1075).toNat := by
        rw [BitVec.toNat_ofNat, Nat.mod_eq_of_lt (by omega)]
      have h0 : BitVec.ofNat 11 (e + 1075).toNat ≠ 0#_ := fun h => by
        have := congrArg BitVec.toNat h
        simp only [he, BitVec.toNat_ofNat, Nat.zero_mod] at this
        omega
      have h1 : BitVec.ofNat 11 (e + 1075).toNat ≠ -1#_ := fun h => by
        have := congrArg BitVec.toNat h
        simp only [he, BitVec.neg_one_eq_allOnes, BitVec.toNat_allOnes] at this
        omega
      have hmant : (1#1 ++ BitVec.ofNat 52 m).toNat = m := by
        rw [toNat_implicit, BitVec.toNat_ofNat]
        omega
      rw [if_pos (by omega), unpack_packComponents, ofComponents, if_neg h1, if_neg h0]
      exact finite_congr hmant (by rw [he]; omega)
    · obtain rfl := hc.resolve_left hn
      have hlog' : m.log2 < 52 := (Nat.log2_lt hm.ne').2 (by omega)
      have hmant : (BitVec.ofNat 52 m).toNat = m := by
        rw [BitVec.toNat_ofNat, Nat.mod_eq_of_lt (by omega)]
      have h0 : BitVec.ofNat 52 m ≠ 0#_ := fun h => by
        have := congrArg BitVec.toNat h
        simp only [hmant, BitVec.toNat_ofNat, Nat.zero_mod] at this
        omega
      rw [if_neg (by omega), unpack_packComponents, ofComponents, if_neg (by decide), if_pos rfl,
        dif_neg h0]
      exact finite_congr hmant rfl

/-! ## Order -/

theorem two_zpow_pos (e : ℤ) : (0 : ℝ) < 2 ^ e := zpow_pos (by norm_num) e

@[simp] theorem value_zero (s : Sign) : value (.zero s) = 0 := rfl

theorem value_positive {m : ℕ} {e : ℤ} (hm : 0 < m) :
    value (.finite .positive m e hm) = m * (2 : ℝ) ^ e := by
  change ((m : ℤ) : ℝ) * (2 : ℝ) ^ e = _
  rw [Int.cast_natCast]

theorem value_negative {m : ℕ} {e : ℤ} (hm : 0 < m) :
    value (.finite .negative m e hm) = -(m * (2 : ℝ) ^ e) := by
  change ((-(m : ℤ) : ℤ) : ℝ) * (2 : ℝ) ^ e = _
  rw [Int.cast_neg, Int.cast_natCast, neg_mul]

theorem magnitude_pos {m : ℕ} (hm : 0 < m) (e : ℤ) : (0 : ℝ) < m * (2 : ℝ) ^ e :=
  mul_pos (by exact_mod_cast hm) (two_zpow_pos e)

/-- Of two canonical magnitudes the one with the larger exponent is larger. -/
theorem magnitude_lt {m n : ℕ} {e f : ℤ} (hm : m < 2 ^ 53) (hn : 2 ^ 52 ≤ n) (hef : e < f) :
    (m : ℝ) * 2 ^ e < n * 2 ^ f := by
  have hm' : (m : ℝ) < 2 ^ 53 := by exact_mod_cast hm
  have hn' : (2 : ℝ) ^ 52 ≤ n := by exact_mod_cast hn
  have hstep : (2 : ℝ) ^ (e + 1) ≤ 2 ^ f := zpow_le_zpow_right₀ (by norm_num) (by omega)
  calc (m : ℝ) * 2 ^ e < 2 ^ 53 * 2 ^ e := mul_lt_mul_of_pos_right hm' (two_zpow_pos e)
    _ = 2 ^ 52 * 2 ^ (e + 1) := by rw [zpow_add_one₀ (by norm_num)]; ring
    _ ≤ n * 2 ^ f := mul_le_mul hn' hstep (two_zpow_pos _).le (by linarith)

/-- The order of exponents, then mantissas, is the order of magnitudes. -/
theorem compare_magnitude {m n : ℕ} {e f : ℤ} {hm : 0 < m} {hn : 0 < n} {s t : Sign}
    (hu : Canonical (.finite s m e hm)) (hv : Canonical (.finite t n f hn)) :
    (compare e f).then (compare m n) = compare ((m : ℝ) * 2 ^ e) (n * 2 ^ f) := by
  obtain ⟨hm53, hme, _, _⟩ := hu
  obtain ⟨hn53, hne, _, _⟩ := hv
  rcases lt_trichotomy e f with h | rfl | h
  · have hn52 : 2 ^ 52 ≤ n := by omega
    rw [compare_lt_iff_lt.2 h, compare_lt_iff_lt.2 (magnitude_lt hm53 hn52 h)]
    rfl
  · rw [compare_eq_iff_eq.2 rfl]
    have he := two_zpow_pos e
    rcases lt_trichotomy m n with h | rfl | h
    · have h' : (m : ℝ) < n := by exact_mod_cast h
      rw [compare_lt_iff_lt.2 h, compare_lt_iff_lt.2 (mul_lt_mul_of_pos_right h' he)]
      rfl
    · rw [compare_eq_iff_eq.2 rfl, compare_eq_iff_eq.2 rfl]
      rfl
    · have h' : (n : ℝ) < m := by exact_mod_cast h
      rw [compare_gt_iff_gt.2 h, compare_gt_iff_gt.2 (mul_lt_mul_of_pos_right h' he)]
      rfl
  · have hm52 : 2 ^ 52 ≤ m := by omega
    rw [compare_gt_iff_gt.2 h, compare_gt_iff_gt.2 (magnitude_lt hn53 hm52 h)]
    rfl

theorem compare_value {u v : UnpackedFloat} (hu : Canonical u) (hv : Canonical v)
    (hfu : u.isFinite) (hfv : v.isFinite) :
    u.compare v = some (compare (value u) (value v)) := by
  rcases u with s | _ | s | ⟨s, m, e, hm⟩
  · cases hfu
  · cases hfu
  · rcases v with t | _ | t | ⟨t, n, f, hn⟩
    · cases hfv
    · cases hfv
    · rw [value_zero, value_zero, compare_eq_iff_eq.2 rfl]
      rfl
    · have := magnitude_pos hn f
      cases t
      · rw [value_negative, value_zero, compare_gt_iff_gt.2 (by linarith)]
        rfl
      · rw [value_positive, value_zero, compare_lt_iff_lt.2 (by linarith)]
        rfl
  · have hpos := magnitude_pos hm e
    rcases v with t | _ | t | ⟨t, n, f, hn⟩
    · cases hfv
    · cases hfv
    · cases s
      · rw [value_negative, value_zero, compare_lt_iff_lt.2 (by linarith)]
        rfl
      · rw [value_positive, value_zero, compare_gt_iff_gt.2 (by linarith)]
        rfl
    · have := magnitude_pos hn f
      have hcompare := compare_magnitude hu hv
      cases s <;> cases t <;> change some _ = _
      · rw [value_negative, value_negative, hcompare]
        rcases lt_trichotomy ((m : ℝ) * 2 ^ e) (n * 2 ^ f) with h | h | h
        · rw [compare_lt_iff_lt.2 h, compare_gt_iff_gt.2 (neg_lt_neg h)]
          rfl
        · rw [h, compare_eq_iff_eq.2 rfl, compare_eq_iff_eq.2 rfl]
          rfl
        · rw [compare_gt_iff_gt.2 h, compare_lt_iff_lt.2 (neg_lt_neg h)]
          rfl
      · rw [value_negative, value_positive, compare_lt_iff_lt.2 (by linarith)]
      · rw [value_negative, value_positive, compare_gt_iff_gt.2 (by linarith)]
      · rw [value_positive, value_positive, hcompare]

theorem lt_iff_unpack (x y : Float) : x < y ↔ x.toModel.unpack.lt y.toModel.unpack = true := by
  change decide (x.toModel < y.toModel) = true ↔ _
  rw [decide_eq_true_iff]
  rfl

theorem le_iff_unpack (x y : Float) : x ≤ y ↔ x.toModel.unpack.le y.toModel.unpack = true := by
  change decide (x.toModel ≤ y.toModel) = true ↔ _
  rw [decide_eq_true_iff]
  rfl

theorem lt_iff {x y : Float} (hx : x.isFinite) (hy : y.isFinite) :
    x < y ↔ floatValue x < floatValue y := by
  have h := compare_value (canonical_unpack x.toModel) (canonical_unpack y.toModel) hx hy
  rw [lt_iff_unpack, UnpackedFloat.lt, h, beq_iff_eq, Option.some_inj, compare_lt_iff_lt]
  rfl

theorem le_iff {x y : Float} (hx : x.isFinite) (hy : y.isFinite) :
    x ≤ y ↔ floatValue x ≤ floatValue y := by
  have h := compare_value (canonical_unpack x.toModel) (canonical_unpack y.toModel) hx hy
  rw [le_iff_unpack, UnpackedFloat.le, h, Option.any_some, Ordering.isLE_iff_ne_gt]
  exact compare_le_iff_le

theorem swap_magnitude (e f : ℤ) (m n : ℕ) :
    ((compare e f).then (compare m n)).swap = (compare f e).then (compare n m) := by
  rw [Ordering.swap_then, Int.compare_swap, Nat.compare_swap]

theorem compare_comm (u v : UnpackedFloat) : (u.compare v).map Ordering.swap = v.compare u := by
  rcases u with (_ | _) | _ | (_ | _) | ⟨_ | _, m, e, hm⟩ <;>
    rcases v with (_ | _) | _ | (_ | _) | ⟨_ | _, n, f, hn⟩ <;>
    first
    | rfl
    | exact congrArg some (swap_magnitude e f m n)
    | exact congrArg (fun o => some o.swap) (swap_magnitude e f m n)

theorem compare_isSome {u v : UnpackedFloat} (hu : u.isNaN = false) (hv : v.isNaN = false) :
    (u.compare v).isSome := by
  rcases u with (_ | _) | _ | (_ | _) | ⟨_ | _, m, e, hm⟩ <;>
    rcases v with (_ | _) | _ | (_ | _) | ⟨_ | _, n, f, hn⟩ <;>
    first | rfl | exact absurd hu (by decide) | exact absurd hv (by decide)

/-- The order of doubles that are numbers is total. -/
theorem not_lt_iff_le {x y : Float} (hx : x.isNaN = false) (hy : y.isNaN = false) :
    ¬ x < y ↔ y ≤ x := by
  have hcomm := compare_comm x.toModel.unpack y.toModel.unpack
  obtain ⟨o, ho⟩ := Option.isSome_iff_exists.1 (compare_isSome hx hy)
  rw [lt_iff_unpack, le_iff_unpack, UnpackedFloat.lt, UnpackedFloat.le, ← hcomm, ho]
  cases o <;> decide

theorem isNaN_eq_false {x : Float} (hx : x.isFinite) : x.isNaN = false := by
  change x.toModel.unpack.isFinite = true at hx
  change x.toModel.unpack.isNaN = false
  cases h : x.toModel.unpack <;> rw [h] at hx <;> first | rfl | cases hx

/-- What lies between finite doubles is finite. -/
theorem isFinite_of_between {x y z : Float} (hx : x.isFinite) (hz : z.isFinite) (hxy : x ≤ y)
    (hyz : y ≤ z) : y.isFinite := by
  rw [le_iff_unpack] at hxy hyz
  change x.toModel.unpack.isFinite = true at hx
  change z.toModel.unpack.isFinite = true at hz
  change y.toModel.unpack.isFinite = true
  generalize x.toModel.unpack = u at hx hxy
  generalize z.toModel.unpack = w at hz hyz
  generalize y.toModel.unpack = v at hxy hyz ⊢
  rcases v with (_ | _) | _ | _ | _
  · rcases u with _ | _ | _ | ⟨_ | _, _⟩ <;> cases hx <;> cases hxy
  · rcases w with _ | _ | _ | ⟨_ | _, _⟩ <;> cases hz <;> cases hyz
  · rcases w with _ | _ | _ | ⟨_ | _, _⟩ <;> cases hz <;> cases hyz
  · rfl
  · rfl

/-- A bound that is not finite bounds whatever the numbers below it bound. -/
theorem le_of_not_isFinite {u v w : UnpackedFloat} (h : ¬ (u.isFinite = true ∧ w.isFinite = true))
    (huv : u.le v = true) (hvw : v.le w = true) : u.le w = true := by
  rcases u with (_ | _) | _ | (_ | _) | ⟨_ | _, _⟩ <;>
    rcases w with (_ | _) | _ | (_ | _) | ⟨_ | _, _⟩ <;>
    first
    | rfl
    | exact absurd ⟨rfl, rfl⟩ h
    | (rcases v with (_ | _) | _ | (_ | _) | ⟨_ | _, _⟩ <;>
        first | exact absurd huv Bool.false_ne_true | exact absurd hvw Bool.false_ne_true)

protected theorem le_trans {x y z : Float} (hxy : x ≤ y) (hyz : y ≤ z) : x ≤ z := by
  by_cases hfinite : x.isFinite = true ∧ z.isFinite = true
  · have hy := isFinite_of_between hfinite.1 hfinite.2 hxy hyz
    rw [le_iff hfinite.1 hy] at hxy
    rw [le_iff hy hfinite.2] at hyz
    exact (le_iff hfinite.1 hfinite.2).2 (hxy.trans hyz)
  · rw [le_iff_unpack] at hxy hyz ⊢
    exact le_of_not_isFinite hfinite hxy hyz

protected theorem le_of_lt {x y : Float} (h : x < y) : x ≤ y := by
  rw [lt_iff_unpack, UnpackedFloat.lt, beq_iff_eq] at h
  rw [le_iff_unpack, UnpackedFloat.le, h]
  rfl

/-! ## Shifted mantissas -/

/-- The bits below the mantissa tell on which side of its half the rest of `x` lies. -/
def Represents (em : ExtendedMantissa) (x : ℝ) : Prop :=
  match em.roundBit, em.stickyBit with
  | false, false => x = em.mantissa
  | false, true => (em.mantissa : ℝ) < x ∧ x < em.mantissa + 1 / 2
  | true, false => x = em.mantissa + 1 / 2
  | true, true => (em.mantissa : ℝ) + 1 / 2 < x ∧ x < em.mantissa + 1

theorem represents_exact (m : ℕ) :
    Represents (ExtendedMantissa.ofMantissaAndAccuracy m .exact) m := rfl

theorem Represents.bounds {em : ExtendedMantissa} {x : ℝ} (h : Represents em x) :
    (em.mantissa : ℝ) ≤ x ∧ x < em.mantissa + 1 := by
  rcases em with ⟨m, _ | _, _ | _⟩ <;> simp only [Represents] at h ⊢ <;>
    constructor <;> linarith

theorem Represents.shiftRightOne {em : ExtendedMantissa} {x : ℝ} (h : Represents em x) :
    Represents em.shiftRightOne (x / 2) := by
  rcases em with ⟨m, r, s⟩
  have hm : ((m % 2 : ℕ) : ℝ) + 2 * ((m / 2 : ℕ) : ℝ) = m := by exact_mod_cast Nat.mod_add_div m 2
  have hone : ((1 : ℕ) != 0) = true := rfl
  rcases Nat.mod_two_eq_zero_or_one m with h2 | h2 <;> rw [h2] at hm <;> cases r <;> cases s <;>
    simp only [Represents, ExtendedMantissa.shiftRightOne, h2, hone] at h ⊢ <;>
    norm_num at hm h ⊢ <;> (try constructor) <;> linarith

theorem Represents.shiftRight {em : ExtendedMantissa} {x : ℝ} (h : Represents em x) (n : ℕ) :
    Represents (em >>> n) (x / 2 ^ n) := by
  change Represents (n.repeat ExtendedMantissa.shiftRightOne em) _
  induction n with
  | zero => simpa [Nat.repeat] using h
  | succ n ih =>
    rw [Nat.repeat, pow_succ, ← div_div]
    exact ih.shiftRightOne

theorem Represents.rounded {em : ExtendedMantissa} {x : ℝ} (h : Represents em x) :
    |(em.roundedMantissa : ℝ) - x| ≤ 1 / 2 := by
  rcases em with ⟨m, r, s⟩
  rw [abs_le]
  cases r <;> cases s <;>
    simp only [Represents, ExtendedMantissa.roundedMantissa, ExtendedMantissa.accuracy,
      Accuracy.roundToNearestEven] at h ⊢
  · constructor <;> linarith
  · constructor <;> linarith
  · have : ((m % 2 : ℕ) : ℝ) ≤ 1 := by exact_mod_cast Nat.le_of_lt_succ (Nat.mod_lt m two_pos)
    push_cast
    constructor <;> linarith [Nat.cast_nonneg (α := ℝ) (m % 2)]
  · push_cast
    constructor <;> linarith

end ThemeTokens.Binary64
