import ThemeTokens.Proofs.Color.Luminance
import ThemeTokens.Proofs.Table
import ThemeTokens.Schema

/-!
# Finalizing

Pairs are enforced one after the other, each by writing its adjusted slot. No pair writes a slot
that it or an earlier pair has read or written, so what every pair establishes still holds of the
finished tokens, and the warnings say exactly what does not.
-/
namespace ThemeTokens

variable {R : Type} [Number R]

/-! ## The order of enforcement -/

namespace EnforcedPair

/-- Whether enforcing `q` after `p` leaves both slots of `p` alone. -/
def Before (p q : EnforcedPair) : Prop := p.adjusted ≠ q.adjusted ∧ p.fixed ≠ q.adjusted

instance (p q : EnforcedPair) : Decidable (p.Before q) := inferInstanceAs (Decidable (_ ∧ _))

/-- The slots that are adjusted, each with the slot against which it has to be read. -/
def table : List EnforcedPair := [
  ⟨.contentPrimary, .surfacesPrimary⟩, ⟨.contentSecondary, .surfacesPrimary⟩,
  ⟨.contentTertiary, .surfacesPrimary⟩, ⟨.contentLink, .surfacesPrimary⟩,
  ⟨.contentLinkVisited, .surfacesPrimary⟩, ⟨.contentInverse, .surfacesInverse⟩,
  ⟨.accentsPrimary, .contentInverse⟩, ⟨.accentsSecondary, .contentInverse⟩,
  ⟨.accentsSuccess, .contentInverse⟩, ⟨.accentsWarning, .contentInverse⟩,
  ⟨.accentsError, .contentInverse⟩]

theorem all_eq_table : all = table := rfl

theorem all_pairwise : all.Pairwise Before := by decide

theorem fixed_ne_adjusted : ∀ p ∈ all, p.fixed ≠ p.adjusted := by decide

end EnforcedPair

namespace TokenSet
open EnforcedPair

theorem color_enforcePair (m : R) (t : TokenSet R) (p : EnforcedPair) (s : ColorSlot) :
    (t.enforcePair m p).color s =
      if s = p.adjusted then Contrast.ensure (t.color p.adjusted) (t.color p.fixed) m
      else t.color s :=
  Table.color_putColor t p.adjusted s _

theorem scalar_foldl_enforcePair (m : R) (pairs : List EnforcedPair) (t : TokenSet R)
    (s : ScalarSlot) : (pairs.foldl (enforcePair m) t).scalar s = t.scalar s := by
  induction pairs generalizing t with
  | nil => rfl
  | cons p pairs ih =>
    rw [List.foldl_cons, ih]
    exact Table.scalar_putColor t p.adjusted s _

theorem color_foldl_enforcePair (m : R) {pairs : List EnforcedPair} (t : TokenSet R)
    {s : ColorSlot} (h : ∀ p ∈ pairs, s ≠ p.adjusted) :
    (pairs.foldl (enforcePair m) t).color s = t.color s := by
  induction pairs generalizing t with
  | nil => rfl
  | cons p pairs ih =>
    rw [List.foldl_cons, ih _ fun q hq => h q (List.mem_cons_of_mem _ hq), color_enforcePair,
      if_neg (h p List.mem_cons_self)]

/-- A pair that is enforced in order holds of the outcome: its adjusted slot was fitted to what its
fixed slot has in the end. -/
theorem color_adjusted (m : R) {pairs : List EnforcedPair} (t : TokenSet R)
    (hpairs : pairs.Pairwise Before) (hfixed : ∀ p ∈ pairs, p.fixed ≠ p.adjusted)
    {p : EnforcedPair} (hp : p ∈ pairs) :
    (pairs.foldl (enforcePair m) t).color p.adjusted =
      Contrast.ensure (t.color p.adjusted) ((pairs.foldl (enforcePair m) t).color p.fixed) m := by
  induction pairs generalizing t with
  | nil => cases hp
  | cons q pairs ih =>
    obtain ⟨hq, hpairs⟩ := List.pairwise_cons.1 hpairs
    rw [List.foldl_cons]
    rcases List.mem_cons.1 hp with rfl | hp
    · rw [color_foldl_enforcePair m _ fun r hr => (hq r hr).1,
        color_foldl_enforcePair m _ fun r hr => (hq r hr).2, color_enforcePair, if_pos rfl,
        color_enforcePair, if_neg (hfixed p List.mem_cons_self)]
    · rw [ih _ hpairs (fun r hr => hfixed r (List.mem_cons_of_mem _ hr)) hp, color_enforcePair,
        if_neg (hq p hp).1.symm]

theorem enforcePair_of_meets {m : R} {t : TokenSet R} {p : EnforcedPair}
    (h : Contrast.meets (t.color p.adjusted) (t.color p.fixed) m) : t.enforcePair m p = t := by
  unfold enforcePair Contrast.ensure
  rw [if_pos h]
  exact Table.putColor_color t p.adjusted

theorem foldl_enforcePair_of_meets {m : R} {pairs : List EnforcedPair} {t : TokenSet R}
    (h : ∀ p ∈ pairs, Contrast.meets (t.color p.adjusted) (t.color p.fixed) m) :
    pairs.foldl (enforcePair m) t = t := by
  induction pairs with
  | nil => rfl
  | cons p pairs ih =>
    rw [List.foldl_cons, enforcePair_of_meets (h p List.mem_cons_self)]
    exact ih fun q hq => h q (List.mem_cons_of_mem _ hq)

end TokenSet

/-! ## Warnings -/

namespace Warning

/-- Whether what was measured is worth reporting. -/
def holds : Warning R → Bool
  | .shortfall _ _ ratio target => decide (ratio < target)
  | .faintAccent _ delta advised => decide (delta < advised)
  | .faintBorder ratio => decide (ratio < TokenSet.minBorderRatio)

/-- The text of a warning up to its first number. -/
def opening : Warning R → Text
  | .shortfall foreground background _ _ =>
    foreground.path ++ " on " ++ background.path ++ " reaches "
  | .faintAccent accent _ _ => accent.path ++ " is within "
  | .faintBorder _ => ColorSlot.path .bordersDefault ++ " is barely visible on "

theorem opening_leads (w : Warning R) : w.opening <+: w.message := by
  cases w
  · simp only [opening, message, List.append_assoc, List.prefix_append_right_inj,
      List.prefix_append]
  · simp only [opening, message, List.append_assoc, List.prefix_append_right_inj,
      List.prefix_append]
  · simp only [opening, message, List.append_assoc, List.prefix_append_right_inj,
      List.prefix_append]

end Warning

/-- How the report of a pair begins. -/
def EnforcedPair.line (p : EnforcedPair) : Text :=
  p.adjusted.path ++ " on " ++ p.fixed.path ++ " reaches "

/-- One of two texts begins with the other. -/
def Text.comparable (s t : Text) : Bool := s.isPrefixOf t || t.isPrefixOf s

theorem Text.comparable_of_prefix {s t u : Text} (hs : s <+: u) (ht : t <+: u) :
    s.comparable t = true := by
  rw [comparable, Bool.or_eq_true, List.isPrefixOf_iff_prefix, List.isPrefixOf_iff_prefix]
  exact List.prefix_or_prefix_of_prefix hs ht

/-- Where both texts have a space after a first word, the first words agree. -/
theorem Text.comparable_cut {a b x y : Text} (ha : ' ' ∉ a) (hb : ' ' ∉ b)
    (h : Text.comparable (a ++ ' ' :: x) (b ++ ' ' :: y) = true) :
    a = b ∧ Text.comparable x y = true := by
  induction a generalizing b with
  | nil =>
    cases b with
    | nil => exact ⟨rfl, by simpa [comparable] using h⟩
    | cons d b =>
      have hd : d ≠ ' ' := fun hd => hb (hd ▸ List.mem_cons_self)
      simp [comparable, hd, hd.symm] at h
  | cons c a ih =>
    obtain ⟨hc, ha⟩ := not_or.1 (mt List.mem_cons.2 ha)
    cases b with
    | nil => simp [comparable, Ne.symm hc, hc] at h
    | cons d b =>
      obtain ⟨_, htail⟩ := not_or.1 (mt List.mem_cons.2 hb)
      by_cases hcd : c = d
      · subst hcd
        obtain ⟨rfl, hxy⟩ := ih ha htail (by simpa [comparable] using h)
        exact ⟨rfl, hxy⟩
      · simp [comparable, hcd, Ne.symm hcd] at h

theorem ColorSlot.space_notMem_path (s : ColorSlot) : ' ' ∉ s.path := by
  cases s <;> decide

theorem ColorSlot.path_injective {s t : ColorSlot} (h : s.path = t.path) : s = t := by
  have hs := Slot.ofCanonical?_path (.color s)
  have ht := Slot.ofCanonical?_path (.color t)
  change Slot.ofCanonical? s.path = _ at hs
  rw [h] at hs
  exact Slot.color.inj (Option.some_inj.1 (hs.symm.trans ht))

namespace Warning

/-- A report that begins like that of a pair is about that pair. -/
theorem eq_shortfall_of_line {w : Warning R} {p : EnforcedPair} (h : p.line <+: w.message) :
    ∃ ratio target, w = .shortfall p.adjusted p.fixed ratio target := by
  have hcomparable := Text.comparable_of_prefix h w.opening_leads
  have hline : p.line = p.adjusted.path ++ ' ' :: ("on " ++ p.fixed.path ++ " reaches ") := by
    simp [EnforcedPair.line]
  rw [hline] at hcomparable
  cases w with
  | shortfall f b ratio target =>
    have hopening : (Warning.shortfall f b ratio target : Warning R).opening =
        f.path ++ ' ' :: ("on " ++ b.path ++ " reaches ") := by simp [opening]
    rw [hopening] at hcomparable
    obtain ⟨hf, hrest⟩ := Text.comparable_cut p.adjusted.space_notMem_path f.space_notMem_path
      hcomparable
    have hrest : Text.comparable (p.fixed.path ++ ' ' :: "reaches ".toList)
        (b.path ++ ' ' :: "reaches ".toList) = true := by simpa [Text.comparable] using hrest
    obtain ⟨hb, _⟩ := Text.comparable_cut p.fixed.space_notMem_path b.space_notMem_path hrest
    exact ⟨ratio, target, by rw [ColorSlot.path_injective hf, ColorSlot.path_injective hb]⟩
  | faintAccent accent delta advised =>
    have hopening : (Warning.faintAccent accent delta advised : Warning R).opening =
        accent.path ++ ' ' :: "is within ".toList := by simp [opening]
    rw [hopening] at hcomparable
    have := (Text.comparable_cut p.adjusted.space_notMem_path accent.space_notMem_path
      hcomparable).2
    simp [Text.comparable] at this
  | faintBorder ratio =>
    have hopening : (Warning.faintBorder ratio : Warning R).opening =
        ColorSlot.path .bordersDefault ++ ' ' :: "is barely visible on ".toList := by
      simp [opening]
    rw [hopening] at hcomparable
    have := (Text.comparable_cut p.adjusted.space_notMem_path
      (ColorSlot.space_notMem_path _) hcomparable).2
    simp [Text.comparable] at this

end Warning

namespace TokenSet

/-- All that is measured on finished tokens, in the order of reports. -/
def measures (p : Policy R) (t : TokenSet R) : List (Warning R) :=
  EnforcedPair.table.map (fun pair => .shortfall pair.adjusted pair.fixed
      (Contrast.ratio (t.color pair.adjusted) (t.color pair.fixed)) p.minRatio) ++
    [.surfacesSecondary, .surfacesTertiary, .surfacesElevated].map (fun surface =>
      .shortfall .contentPrimary surface
        (Contrast.ratio (t.color .contentPrimary) (t.color surface)) p.minRatio) ++
    [.accentsPrimary, .accentsSecondary, .accentsSuccess, .accentsWarning, .accentsError].map
      (fun accent => .faintAccent accent
        (Number.abs ((t.color accent).lightness - (t.color .surfacesPrimary).lightness))
        p.accentLightnessDelta) ++
    [.faintBorder (Contrast.ratio (t.color .bordersDefault) (t.color .surfacesPrimary))]

theorem filterMap_eq_filter_map {α : Type} (measure : α → Warning R)
    (report : α → Option (Warning R)) (l : List α)
    (h : ∀ a, report a = if (measure a).holds then some (measure a) else none) :
    l.filterMap report = (l.map measure).filter Warning.holds := by
  induction l with
  | nil => rfl
  | cons a l ih =>
    rw [List.filterMap_cons, h, List.map_cons, List.filter_cons, ih]
    by_cases ha : (measure a).holds
    · rw [if_pos ha, if_pos ha]
    · rw [if_neg ha, if_neg ha]

theorem warnings_eq (p : Policy R) (t : TokenSet R) :
    t.warnings p = (t.measures p).filter Warning.holds := by
  have hborder : t.faintBorder?.toList = [Warning.faintBorder
      (Contrast.ratio (t.color .bordersDefault) (t.color .surfacesPrimary))].filter
        Warning.holds := by
    rw [faintBorder?, List.filter_cons]
    simp only [Warning.holds, decide_eq_true_eq]
    split <;> rfl
  rw [warnings, measures, ← EnforcedPair.all_eq_table, List.filter_append, List.filter_append,
    List.filter_append, hborder]
  congr 1
  congr 1
  · congr 1
    · refine filterMap_eq_filter_map _ _ _ fun pair => ?_
      simp only [shortfall?, Warning.holds, decide_eq_true_eq]
    · refine filterMap_eq_filter_map _ _ _ fun surface => ?_
      simp only [shortfall?, Warning.holds, decide_eq_true_eq]
  · refine filterMap_eq_filter_map _ _ _ fun accent => ?_
    simp only [faintAccent?, Warning.holds, decide_eq_true_eq]

end TokenSet

theorem ratio_of_mem_measures {p : Policy R} {t : TokenSet R} {f b : ColorSlot} {ratio target : R}
    (h : .shortfall f b ratio target ∈ t.measures p) :
    ratio = Contrast.ratio (t.color f) (t.color b) ∧ target = p.minRatio := by
  simp only [TokenSet.measures, List.mem_append, List.mem_map, Warning.shortfall.injEq,
    reduceCtorEq, and_false, exists_false, or_false, List.mem_singleton] at h
  rcases h with ⟨pair, _, rfl, rfl, rfl, rfl⟩ | ⟨surface, _, rfl, rfl, rfl, rfl⟩
  · exact ⟨rfl, rfl⟩
  · exact ⟨rfl, rfl⟩

/-- The report of a pair is among the warnings exactly when the pair falls short. -/
theorem line_mem_warnings (p : Policy R) (t : TokenSet R) {pair : EnforcedPair}
    (hpair : pair ∈ EnforcedPair.all) :
    (∃ w ∈ t.warnings p, pair.line <+: w.message) ↔
      Contrast.ratio (t.color pair.adjusted) (t.color pair.fixed) < p.minRatio := by
  rw [TokenSet.warnings_eq]
  constructor
  · rintro ⟨w, hw, hline⟩
    obtain ⟨hmem, hholds⟩ := List.mem_filter.1 hw
    obtain ⟨ratio, target, rfl⟩ := Warning.eq_shortfall_of_line hline
    obtain ⟨rfl, rfl⟩ := ratio_of_mem_measures hmem
    exact of_decide_eq_true hholds
  · intro h
    rw [EnforcedPair.all_eq_table] at hpair
    refine ⟨_, List.mem_filter.2 ⟨List.mem_append_left _ (List.mem_append_left _
      (List.mem_append_left _ (List.mem_map_of_mem hpair))), decide_eq_true h⟩, ?_⟩
    exact (Warning.shortfall pair.adjusted pair.fixed
      (Contrast.ratio (t.color pair.adjusted) (t.color pair.fixed)) p.minRatio).opening_leads

/-! ## The finished schema -/

/-- The slots that no pair adjusts. -/
def EnforcedPair.kept : List ColorSlot := [
  .surfacesPrimary, .surfacesSecondary, .surfacesTertiary, .surfacesElevated, .surfacesInverse,
  .accentsPrimaryContainer, .statesFocusRing, .bordersSubtle, .bordersDefault, .bordersStrong]

theorem EnforcedPair.adjusted_notMem_kept : ∀ p ∈ all, p.adjusted ∉ kept := by decide

theorem EnforcedPair.content_mem_all {slot : ColorSlot} (h : slot ∈ Palette.contentOnSurface) :
    ⟨slot, .surfacesPrimary⟩ ∈ all :=
  List.mem_append_left _ (List.mem_append_left _ (List.mem_map.2 ⟨slot, h, rfl⟩))

theorem Schema.finalize_surfacesPrimary (t : TokenSet R) (policy : Policy R)
    (label : Option Text) :
    (finalize t policy label).color .surfacesPrimary = t.color .surfacesPrimary :=
  TokenSet.color_foldl_enforcePair policy.minRatio t (by decide)

theorem Schema.finalize_content (t : TokenSet R) (policy : Policy R) (label : Option Text)
    {slot : ColorSlot} (h : slot ∈ Palette.contentOnSurface) :
    (finalize t policy label).color slot =
      Contrast.ensure (t.color slot) (t.color .surfacesPrimary) policy.minRatio := by
  rw [← finalize_surfacesPrimary t policy label]
  exact TokenSet.color_adjusted policy.minRatio t EnforcedPair.all_pairwise
    EnforcedPair.fixed_ne_adjusted (EnforcedPair.content_mem_all h)

/-- What finalizing tokens under a policy makes of them. -/
structure Schema.Settled (t : TokenSet R) (p : Policy R) (s : Schema R) : Prop where
  kept : ∀ slot ∈ EnforcedPair.kept, s.color slot = t.color slot
  scalars : ∀ slot, s.scalar slot = t.scalar slot
  adjusted : ∀ pair ∈ EnforcedPair.table, s.color pair.adjusted =
    Contrast.ensure (t.color pair.adjusted) (s.color pair.fixed) p.minRatio
  reported : ∀ pair ∈ EnforcedPair.table,
    Xor (p.minRatio ≤ Contrast.ratio (s.color pair.adjusted) (s.color pair.fixed))
      (∃ w ∈ s.warnings, pair.line <+: w.message)
  warnings : s.warnings = (s.tokens.measures p).filter Warning.holds
  /-- Where no pair falls short, finalizing again changes nothing. -/
  stable : (∀ pair ∈ EnforcedPair.table,
      ¬ Contrast.ratio (s.color pair.adjusted) (s.color pair.fixed) < p.minRatio) →
    ∀ label, (finalize s.tokens p label).tokens = s.tokens ∧
      (finalize s.tokens p label).variant = s.variant ∧
      (finalize s.tokens p label).warnings = s.warnings

open Binary64 Double in
theorem Schema.settled_finalize {lib : Elementary} (acc : lib.Accurate)
    (t : TokenSet (Double lib)) (p : Policy (Double lib)) (label : Option Text)
    (hp : Number.isNaN p.minRatio = false) : Settled t p (finalize t p label) where
  kept slot hslot := TokenSet.color_foldl_enforcePair p.minRatio t fun pair hpair h =>
    EnforcedPair.adjusted_notMem_kept pair hpair (h ▸ hslot)
  scalars slot := TokenSet.scalar_foldl_enforcePair p.minRatio EnforcedPair.all t slot
  adjusted pair hpair := by
    rw [← EnforcedPair.all_eq_table] at hpair
    exact TokenSet.color_adjusted p.minRatio t EnforcedPair.all_pairwise
      EnforcedPair.fixed_ne_adjusted hpair
  reported pair hpair := by
    rw [← EnforcedPair.all_eq_table] at hpair
    have hratio := finite_ratio acc ((finalize t p label).color pair.adjusted)
      ((finalize t p label).color pair.fixed)
    rw [← Double.not_lt_iff_le hratio.isNaN_eq_false hp, xor_not_left]
    exact (line_mem_warnings p (finalize t p label).tokens hpair).symm
  warnings := TokenSet.warnings_eq p _
  stable h again := by
    rw [← EnforcedPair.all_eq_table] at h
    have hsame : (finalize t p label).tokens.enforce p.minRatio = (finalize t p label).tokens := by
      refine TokenSet.foldl_enforcePair_of_meets fun pair hpair => ?_
      rw [← Bool.not_eq_false, ← ratio_lt_iff_not_meets acc _ _ hp]
      exact h pair hpair
    unfold finalize at hsame ⊢
    simp only [hsame, true_and]

theorem Schema.settled_black :
    Binary64.Elementary.rounded.Accurate ∧
      Number.isNaN (Policy.standard : Policy (Double .rounded)).minRatio = false ∧
      Settled (Table.ofFn (fun _ => Color.black) Palette.scalar : TokenSet (Double .rounded))
        Policy.standard (finalize (Table.ofFn (fun _ => Color.black) Palette.scalar)
          Policy.standard none) :=
  ⟨Binary64.Elementary.accurate_rounded, rfl,
    settled_finalize Binary64.Elementary.accurate_rounded _ _ none rfl⟩

end ThemeTokens
