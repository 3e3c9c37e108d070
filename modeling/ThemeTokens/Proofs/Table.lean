import ThemeTokens.Token.Set

/-!
# Tables by slots

A table is known by its slots, and filling one slot after the other fills them all.
-/
namespace ThemeTokens

theorem ColorSlot.index_ofIndex : ∀ i, (ofIndex i).index = i := by decide

theorem ScalarSlot.index_ofIndex : ∀ i, (ofIndex i).index = i := by decide

namespace Table
variable {α β : Type} {t u : Table α β}

theorem ext_slots (hc : ∀ s, t.color s = u.color s) (hs : ∀ s, t.scalar s = u.scalar s) :
    t = u := by
  obtain ⟨tc, ts⟩ := t
  obtain ⟨uc, us⟩ := u
  have hcolors : tc = uc := by
    refine Vector.ext fun i hi => ?_
    have := hc (ColorSlot.ofIndex ⟨i, hi⟩)
    simpa [color, ColorSlot.index_ofIndex] using this
  have hscalars : ts = us := by
    refine Vector.ext fun i hi => ?_
    have := hs (ScalarSlot.ofIndex ⟨i, hi⟩)
    simpa [scalar, ScalarSlot.index_ofIndex] using this
  rw [hcolors, hscalars]

/-- The entries of the colours stand in canonical order. -/
theorem toList_colors (t : Table α β) : t.colors.toList = ColorSlot.all.map t.color := by
  refine List.ext_getElem (by simp [ColorSlot.all]) fun i hi _ => ?_
  rw [List.getElem_map]
  change t.colors.toList[i] = t.color (ColorSlot.ofIndex ⟨i, by simpa using hi⟩)
  simp [color, ColorSlot.index_ofIndex]

theorem toList_scalars (t : Table α β) : t.scalars.toList = ScalarSlot.all.map t.scalar := by
  refine List.ext_getElem (by simp [ScalarSlot.all]) fun i hi _ => ?_
  rw [List.getElem_map]
  change t.scalars.toList[i] = t.scalar (ScalarSlot.ofIndex ⟨i, by simpa using hi⟩)
  simp [scalar, ScalarSlot.index_ofIndex]

theorem putColor_color (t : Table α β) (s : ColorSlot) : t.putColor s (t.color s) = t := by
  refine ext_slots (fun slot => ?_) fun slot => scalar_putColor t s slot _
  rw [color_putColor]
  split
  · next h => rw [h]
  · rfl

theorem color_foldl_putColor (f : ColorSlot → α) (slots : List ColorSlot) (t : Table α β)
    (s : ColorSlot) : (slots.foldl (fun t s => t.putColor s (f s)) t).color s =
      if s ∈ slots then f s else t.color s := by
  induction slots generalizing t with
  | nil => rfl
  | cons slot slots ih =>
    rw [List.foldl_cons, ih, color_putColor]
    by_cases hs : s ∈ slots
    · rw [if_pos hs, if_pos (List.mem_cons_of_mem _ hs)]
    · by_cases he : s = slot
      · rw [if_neg hs, if_pos he, if_pos (he ▸ List.mem_cons_self), he]
      · rw [if_neg hs, if_neg he, if_neg (by simp [hs, he])]

theorem scalar_foldl_putScalar (f : ScalarSlot → β) (slots : List ScalarSlot) (t : Table α β)
    (s : ScalarSlot) : (slots.foldl (fun t s => t.putScalar s (f s)) t).scalar s =
      if s ∈ slots then f s else t.scalar s := by
  induction slots generalizing t with
  | nil => rfl
  | cons slot slots ih =>
    rw [List.foldl_cons, ih, scalar_putScalar]
    by_cases hs : s ∈ slots
    · rw [if_pos hs, if_pos (List.mem_cons_of_mem _ hs)]
    · by_cases he : s = slot
      · rw [if_neg hs, if_pos he, if_pos (he ▸ List.mem_cons_self), he]
      · rw [if_neg hs, if_neg he, if_neg (by simp [hs, he])]

theorem color_foldl_putScalar (f : ScalarSlot → β) (slots : List ScalarSlot) (t : Table α β)
    (s : ColorSlot) : (slots.foldl (fun t s => t.putScalar s (f s)) t).color s = t.color s := by
  induction slots generalizing t with
  | nil => rfl
  | cons slot slots ih => rw [List.foldl_cons, ih, color_putScalar]

/-- Filling every slot of any table as `t` has it gives `t`. -/
theorem foldl_put_slots (t u : Table α β) :
    ScalarSlot.all.foldl (fun v s => v.putScalar s (t.scalar s))
      (ColorSlot.all.foldl (fun v s => v.putColor s (t.color s)) u) = t := by
  refine ext_slots (fun s => ?_) fun s => ?_
  · rw [color_foldl_putScalar, color_foldl_putColor, if_pos (ColorSlot.mem_all s)]
  · rw [scalar_foldl_putScalar, if_pos (ScalarSlot.mem_all s)]

end Table

end ThemeTokens
