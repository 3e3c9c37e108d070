import ThemeTokens.Token.Slot

/-!
# Tables of slots

One entry for every colour slot and one for every scalar slot. Reading a slot gives what was last
put there, and putting an entry leaves all other slots alone.
-/
namespace ThemeTokens

structure Table (α β : Type) where
  colors : Vector α 21
  scalars : Vector β 3
  deriving DecidableEq, Repr

namespace Table
variable {α β : Type}

def ofFn (color : ColorSlot → α) (scalar : ScalarSlot → β) : Table α β where
  colors := Vector.ofFn fun i => color (ColorSlot.ofIndex i)
  scalars := Vector.ofFn fun i => scalar (ScalarSlot.ofIndex i)

def color (t : Table α β) (s : ColorSlot) : α := t.colors[s.index]

def scalar (t : Table α β) (s : ScalarSlot) : β := t.scalars[s.index]

def putColor (t : Table α β) (s : ColorSlot) (entry : α) : Table α β :=
  { t with colors := t.colors.set s.index entry }

def putScalar (t : Table α β) (s : ScalarSlot) (entry : β) : Table α β :=
  { t with scalars := t.scalars.set s.index entry }

@[simp] theorem color_ofFn (color : ColorSlot → α) (scalar : ScalarSlot → β) (s : ColorSlot) :
    (ofFn color scalar).color s = color s := by simp [ofFn, Table.color]

@[simp] theorem scalar_ofFn (color : ColorSlot → α) (scalar : ScalarSlot → β) (s : ScalarSlot) :
    (ofFn color scalar).scalar s = scalar s := by simp [ofFn, Table.scalar]

theorem color_putColor (t : Table α β) (s s' : ColorSlot) (entry : α) :
    (t.putColor s entry).color s' = if s' = s then entry else t.color s' := by
  simp only [color, putColor, Fin.getElem_fin, Vector.getElem_set]
  split
  · next h => rw [if_pos (ColorSlot.index_injective (Fin.ext h)).symm]
  · next h => rw [if_neg fun (e : s' = s) => h (e ▸ rfl)]

@[simp] theorem scalar_putColor (t : Table α β) (s : ColorSlot) (s' : ScalarSlot) (entry : α) :
    (t.putColor s entry).scalar s' = t.scalar s' := rfl

theorem scalar_putScalar (t : Table α β) (s s' : ScalarSlot) (entry : β) :
    (t.putScalar s entry).scalar s' = if s' = s then entry else t.scalar s' := by
  simp only [scalar, putScalar, Fin.getElem_fin, Vector.getElem_set]
  split
  · next h => rw [if_pos (ScalarSlot.index_injective (Fin.ext h)).symm]
  · next h => rw [if_neg fun (e : s' = s) => h (e ▸ rfl)]

@[simp] theorem color_putScalar (t : Table α β) (s : ScalarSlot) (s' : ColorSlot) (entry : β) :
    (t.putScalar s entry).color s' = t.color s' := rfl

end Table

end ThemeTokens
