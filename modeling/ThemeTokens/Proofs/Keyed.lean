import Mathlib.Data.Char
import Mathlib.Data.List.Induction
import Mathlib.Data.List.Lex
import Mathlib.Data.List.Nodup
import ThemeTokens.Reference

/-!
# Entries in order

Entries that are inserted one after the other stand in the order of their keys. Nothing is lost but
entries whose keys come again.
-/
namespace ThemeTokens.Keyed
variable {α : Type} {entries : Keyed α} {key : Text} {value : α}

def Sorted (entries : Keyed α) : Prop := entries.Pairwise (·.1 < ·.1)

theorem sorted_iff : Sorted entries ↔ (keys entries).Pairwise (· < ·) := List.pairwise_map.symm

/-! ## Insertion -/

theorem mem_of_mem_insert {entry : Text × α} (h : entry ∈ insert key value entries) :
    entry = (key, value) ∨ entry ∈ entries := by
  induction entries with
  | nil => exact .inl (List.mem_singleton.1 h)
  | cons first rest ih =>
    rw [insert] at h
    split at h
    · exact List.mem_cons.1 h
    · split at h
      · rcases List.mem_cons.1 h with h | h
        · exact .inl h
        · exact .inr (List.mem_cons_of_mem _ h)
      · rcases List.mem_cons.1 h with h | h
        · exact .inr (h ▸ List.mem_cons_self)
        · exact (ih h).imp_right (List.mem_cons_of_mem _)

theorem mem_keys_insert {other : Text} :
    other ∈ keys (insert key value entries) ↔ other = key ∨ other ∈ keys entries := by
  induction entries with
  | nil => simp [insert, keys]
  | cons first rest ih =>
    simp only [keys] at ih ⊢
    rw [insert]
    split
    · simp
    · split
      · next h => simp [h]
      · simp only [List.map_cons, List.mem_cons, ih]
        tauto

theorem Sorted.insert (h : Sorted entries) (key : Text) (value : α) :
    Sorted (entries.insert key value) := by
  induction entries with
  | nil => exact List.pairwise_singleton _ _
  | cons first rest ih =>
    obtain ⟨hfirst, hrest⟩ := List.pairwise_cons.1 h
    rw [Keyed.insert]
    split
    · next hlt =>
      refine List.pairwise_cons.2 ⟨fun entry he => ?_, h⟩
      rcases List.mem_cons.1 he with rfl | he
      · exact hlt
      · exact List.lt_trans hlt (hfirst entry he)
    · next hnot =>
      split
      · next heq => exact List.pairwise_cons.2 ⟨fun entry he => heq ▸ hfirst entry he, hrest⟩
      · next hne =>
        refine List.pairwise_cons.2 ⟨fun entry he => ?_, ih hrest⟩
        rcases mem_of_mem_insert he with rfl | he
        · exact lt_of_le_of_ne (not_lt.1 hnot) (Ne.symm hne)
        · exact hfirst entry he

/-! ## Entries from a list -/

theorem sorted_ofList (l : List (Text × α)) : Sorted (ofList l) := by
  induction l using List.reverseRecOn with
  | nil => exact List.Pairwise.nil
  | append_singleton l entry ih =>
    rw [ofList, List.foldl_append]
    exact Sorted.insert ih entry.1 entry.2

theorem mem_of_mem_ofList {l : List (Text × α)} {entry : Text × α} (h : entry ∈ ofList l) :
    entry ∈ l := by
  induction l using List.reverseRecOn with
  | nil => cases h
  | append_singleton l last ih =>
    rw [ofList, List.foldl_append] at h
    rcases mem_of_mem_insert h with rfl | h
    · exact List.mem_append_right _ (List.mem_singleton.2 rfl)
    · exact List.mem_append_left _ (ih h)

theorem mem_keys_ofList {l : List (Text × α)} : key ∈ keys (ofList l) ↔ key ∈ l.map Prod.fst := by
  induction l using List.reverseRecOn with
  | nil => exact Iff.rfl
  | append_singleton l last ih =>
    rw [ofList, List.foldl_append]
    refine mem_keys_insert.trans ?_
    rw [List.map_append, List.mem_append, or_comm]
    exact or_congr ih List.mem_singleton.symm

/-- Nothing is lost where equal keys have equal values. -/
theorem mem_ofList_of_unique {l : List (Text × α)}
    (hl : ∀ entry ∈ l, ∀ other ∈ l, other.1 = entry.1 → other = entry) {entry : Text × α} :
    entry ∈ ofList l ↔ entry ∈ l := by
  refine ⟨mem_of_mem_ofList, fun h => ?_⟩
  obtain ⟨other, hmem, hkey⟩ :=
    List.mem_map.1 (mem_keys_ofList.2 (List.mem_map_of_mem (f := Prod.fst) h))
  rwa [← hl entry h other (mem_of_mem_ofList hmem) hkey]

theorem mem_ofList {l : List (Text × α)} (hl : (l.map Prod.fst).Nodup) {entry : Text × α} :
    entry ∈ ofList l ↔ entry ∈ l :=
  mem_ofList_of_unique fun _ he _ ho hkey => List.inj_on_of_nodup_map hl ho he hkey

theorem Sorted.nodup (h : Sorted entries) : entries.Nodup := by
  refine List.Pairwise.imp ?_ h
  intro entry other hlt he
  exact List.lt_irrefl _ (he ▸ hlt)

theorem Sorted.eq_of_perm {others : Keyed α} (h : Sorted entries) (hothers : Sorted others)
    (hperm : others.Perm entries) : others = entries :=
  hperm.eq_of_pairwise (fun _ _ _ _ hab hba => absurd hba (List.lt_asymm hab)) hothers h

theorem perm_ofList {l : List (Text × α)} (h : (l.map Prod.fst).Nodup) : (ofList l).Perm l :=
  (List.perm_ext_iff_of_nodup (sorted_ofList l).nodup h.of_map).2 fun _ => mem_ofList h

/-- Entries of different keys may be inserted in any order. -/
theorem ofList_perm {l m : List (Text × α)} (hl : (l.map Prod.fst).Nodup) (h : m.Perm l) :
    ofList m = ofList l := by
  have hm : (m.map Prod.fst).Nodup := (h.map Prod.fst).nodup_iff.2 hl
  exact (sorted_ofList l).eq_of_perm (sorted_ofList m)
    (((perm_ofList hm).trans h).trans (perm_ofList hl).symm)

theorem Sorted.ofList_eq (h : Sorted entries) : ofList entries = entries := by
  refine h.eq_of_perm (sorted_ofList entries) (perm_ofList ?_)
  refine List.Pairwise.imp ?_ (sorted_iff.1 h)
  intro key other hlt he
  exact List.lt_irrefl _ (he ▸ hlt)

/-! ## Looking up -/

theorem mem_of_get? (h : entries.get? key = some value) : (key, value) ∈ entries := by
  induction entries with
  | nil => cases h
  | cons entry rest ih =>
    rw [get?] at h
    split at h
    · next he =>
      cases h
      rw [he]
      exact List.mem_cons_self
    · exact List.mem_cons_of_mem _ (ih h)

theorem get?_eq_none (h : key ∉ keys entries) : entries.get? key = none := by
  cases hget : entries.get? key with
  | none => rfl
  | some value => exact absurd (mem_keys_of_get? hget) h

theorem get?_cons_of_ne {entry : Text × α} (h : key ≠ entry.1) :
    get? key (entry :: entries) = get? key entries :=
  if_neg h

/-- Which keys there are does not depend on their values. -/
theorem contains_congr {β : Type} {others : Keyed β} (h : keys others = keys entries) (key : Text) :
    contains key others = contains key entries := by
  induction entries generalizing others with
  | nil =>
    rw [List.map_eq_nil_iff.1 h]
    rfl
  | cons entry entries ih =>
    obtain ⟨other, rest, rfl, hfirst, hrest⟩ := List.map_eq_cons_iff.1 h
    rw [contains, contains, get?, get?, hfirst]
    split
    · rfl
    · exact ih hrest

theorem get?_ofList_append {before after : List (Text × α)} (h : ∀ entry ∈ after, entry.1 ≠ key) :
    (ofList (before ++ (key, value) :: after)).get? key = some value := by
  induction after using List.reverseRecOn with
  | nil =>
    rw [ofList, List.foldl_append]
    exact (get?_insert key key value _).trans (if_pos rfl)
  | append_singleton after last ih =>
    have hne : key ≠ last.1 := (h last (List.mem_append_right _ List.mem_cons_self)).symm
    rw [← List.cons_append, ← List.append_assoc, ofList, List.foldl_append]
    refine ((get?_insert last.1 key last.2 _).trans (if_neg hne)).trans ?_
    exact ih fun entry he => h entry (List.mem_append_left _ he)

theorem exists_last_entry {l : List (Text × α)} (h : key ∈ l.map Prod.fst) :
    ∃ before value after, l = before ++ (key, value) :: after ∧ ∀ entry ∈ after, entry.1 ≠ key := by
  induction l with
  | nil => cases h
  | cons entry l ih =>
    by_cases hl : key ∈ l.map Prod.fst
    · obtain ⟨before, value, after, rfl, hafter⟩ := ih hl
      exact ⟨entry :: before, value, after, rfl, hafter⟩
    · obtain rfl : key = entry.1 := (List.mem_cons.1 h).resolve_right hl
      exact ⟨[], entry.2, l, rfl, fun other hother he => hl (he ▸ List.mem_map_of_mem hother)⟩

/-- What is looked up is the last entry of the key. -/
theorem get?_ofList {l : List (Text × α)} : (ofList l).get? key = some value ↔
    ∃ before after, l = before ++ (key, value) :: after ∧ ∀ entry ∈ after, entry.1 ≠ key := by
  constructor
  · intro h
    obtain ⟨before, v, after, rfl, hafter⟩ :=
      exists_last_entry (mem_keys_ofList.1 (mem_keys_of_get? h))
    rw [get?_ofList_append hafter] at h
    injection h with h
    exact ⟨before, after, by rw [h], hafter⟩
  · rintro ⟨before, after, rfl, hafter⟩
    exact get?_ofList_append hafter

theorem Sorted.get?_of_mem (h : Sorted entries) (hmem : (key, value) ∈ entries) :
    entries.get? key = some value := by
  induction entries with
  | nil => cases hmem
  | cons entry rest ih =>
    obtain ⟨hfirst, hrest⟩ := List.pairwise_cons.1 h
    rw [get?]
    rcases List.mem_cons.1 hmem with rfl | hmem
    · rw [if_pos rfl]
    · have hne : key ≠ entry.1 := (hfirst _ hmem).ne'
      rw [if_neg hne, ih hrest hmem]

theorem Sorted.eq_of_get? {others : Keyed α} (h : Sorted entries) (hothers : Sorted others)
    (hget : ∀ key, others.get? key = entries.get? key) : others = entries := by
  refine h.eq_of_perm hothers ((List.perm_ext_iff_of_nodup hothers.nodup h.nodup).2 ?_)
  rintro ⟨key, value⟩
  constructor
  · exact fun hmem => mem_of_get? (hget key ▸ hothers.get?_of_mem hmem)
  · exact fun hmem => mem_of_get? (hget key ▸ h.get?_of_mem hmem)

theorem get?_ofList_eq_getLast? (l : List (Text × α)) (key : Text) : (ofList l).get? key =
    ((l.filter fun entry => entry.1 = key).getLast?).map Prod.snd := by
  induction l using List.reverseRecOn with
  | nil => rfl
  | append_singleton l last ih =>
    have hinsert : ofList (l ++ [last]) = insert last.1 last.2 (ofList l) := List.foldl_append
    rw [hinsert, get?_insert, List.filter_append]
    by_cases hkey : key = last.1
    · simp [hkey]
    · have hother : ([last].filter fun entry => entry.1 = key) = [] := by simp [Ne.symm hkey]
      rw [if_neg hkey, hother, List.append_nil, ih]

/-- The order of the entries matters among those of one key only. -/
theorem ofList_congr {l m : List (Text × α)}
    (h : ∀ key, (m.filter fun entry => entry.1 = key) = l.filter fun entry => entry.1 = key) :
    ofList m = ofList l := by
  refine (sorted_ofList l).eq_of_get? (sorted_ofList m) fun key => ?_
  rw [get?_ofList_eq_getLast?, get?_ofList_eq_getLast?, h]

theorem get?_eq_none_iff : entries.get? key = none ↔ key ∉ keys entries := by
  refine ⟨fun h hkey => ?_, get?_eq_none⟩
  induction entries with
  | nil => cases hkey
  | cons entry rest ih =>
    rw [get?] at h
    split at h
    · cases h
    · next hne => exact ih h ((List.mem_cons.1 hkey).resolve_left hne)

/-- Where no key comes twice, an entry is looked up in the list as it is. -/
theorem get?_ofList_of_nodup {l : List (Text × α)} (h : (l.map Prod.fst).Nodup) (key : Text) :
    (ofList l).get? key = get? key l := by
  cases hget : get? key l with
  | some value => exact (sorted_ofList l).get?_of_mem ((mem_ofList h).2 (mem_of_get? hget))
  | none => exact get?_eq_none fun hkey => get?_eq_none_iff.1 hget (mem_keys_ofList.1 hkey)

end ThemeTokens.Keyed
