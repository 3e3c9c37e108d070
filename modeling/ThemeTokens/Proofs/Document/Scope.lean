import Mathlib.Data.List.Pairwise
import ThemeTokens.Document.Scope

/-!
# The scope of a reference

The groups around a path are what is left of it as it is cut at its last point again and again, so
that a search through them goes outward. It ends at the innermost group with a leaf at the target
other than the leaf that refers, and at the root where there is none.
-/
namespace ThemeTokens

namespace Text

theorem cutLast?_eq_none {c : Char} {t : Text} (h : cutLast? c t = none) : c ∉ t := by
  induction t with
  | nil => exact List.not_mem_nil
  | cons d t ih =>
    rw [cutLast?] at h
    split at h
    · cases h
    · next hcut =>
      split at h
      · cases h
      · next hne => exact mt List.mem_cons.1 (not_or.2 ⟨Ne.symm hne, ih hcut⟩)

theorem eq_of_cutLast? {c : Char} {t front rest : Text} (h : cutLast? c t = some (front, rest)) :
    t = front ++ c :: rest ∧ c ∉ rest := by
  induction t generalizing front with
  | nil => cases h
  | cons d t ih =>
    rw [cutLast?] at h
    split at h
    · next cut hcut =>
      cases h
      obtain ⟨htext, hrest⟩ := ih hcut
      exact ⟨congrArg (d :: ·) htext, hrest⟩
    · next hcut =>
      split at h
      · next heq =>
        cases h
        exact ⟨congrArg (· :: _) heq, cutLast?_eq_none hcut⟩
      · cases h

end Text

namespace Document

/-! ## The groups around a path -/

theorem beforePoints_eq_nil {t : Text} (h : '.' ∉ t) : beforePoints t = [] := by
  refine List.eq_nil_iff_forall_not_mem.2 fun group hgroup => ?_
  obtain ⟨rest, rfl⟩ := mem_beforePoints.1 hgroup
  exact h (List.mem_append_right _ List.mem_cons_self)

theorem beforePoints_append {rest : Text} (h : '.' ∉ rest) (group : Text) :
    beforePoints (group ++ '.' :: rest) = beforePoints group ++ [group] := by
  induction group with
  | nil =>
    have hrest := beforePoints_eq_nil h
    simp only [List.nil_append, beforePoints, hrest]
    rfl
  | cons c group ih =>
    rw [List.cons_append, beforePoints, ih, beforePoints, List.map_append, List.append_assoc]
    rfl

theorem enclosing_eq_nil {path : Text} (h : '.' ∉ path) : enclosing path = [] := by
  rw [enclosing, beforePoints_eq_nil h, List.reverse_nil]

/-- The innermost group is what stands before the last point, and the others are around it. -/
theorem enclosing_append {rest : Text} (h : '.' ∉ rest) (group : Text) :
    enclosing (group ++ '.' :: rest) = group :: enclosing group := by
  rw [enclosing, beforePoints_append h, List.reverse_append]
  rfl

theorem pairwise_enclosing (path : Text) :
    (enclosing path).Pairwise fun inner outer => outer.length < inner.length := by
  rw [enclosing, List.pairwise_reverse]
  induction path with
  | nil => exact .nil
  | cons c path ih =>
    have hmap : ((beforePoints path).map (c :: ·)).Pairwise fun a b => a.length < b.length :=
      List.pairwise_map.2 (ih.imp Nat.succ_lt_succ)
    rw [beforePoints]
    split
    · refine List.pairwise_cons.2 ⟨fun group hgroup => ?_, hmap⟩
      obtain ⟨rest, -, rfl⟩ := List.mem_map.1 hgroup
      exact Nat.succ_pos _
    · exact hmap

/-! ## The search -/

/-- The path of a target in a group. -/
def pathIn (group target : Text) : Text := group ++ "." ++ target

theorem length_cutLast? {c : Char} {t : Text} {cut : Text × Text} (h : t.cutLast? c = some cut) :
    cut.1.length < t.length := by
  obtain ⟨rfl, -⟩ := Text.eq_of_cutLast? h
  rw [List.length_append, List.length_cons]
  omega

section
variable (isLeaf : Text → Bool) (path target : Text)

/-- Whether a reference to `target` at `path` is one to the leaf that a group has there. -/
def accepts (group : Text) : Bool := pathIn group target ≠ path && isLeaf (pathIn group target)

/-- A search that leaves the scope for the group around it until the group has a leaf. -/
def searchOutward (scope : Text) : Text :=
  match h : scope.cutLast? '.' with
  | none => target
  | some (group, _) =>
    have : group.length < scope.length := length_cutLast? h
    if accepts isLeaf path target group then pathIn group target
    else searchOutward group
termination_by scope.length

theorem absolutePath_eq_find? : absolutePath isLeaf path target =
    (((enclosing path).find? (accepts isLeaf path target)).map (pathIn · target)).getD target := by
  rw [absolutePath]
  rw [List.find?_map]
  rfl

theorem searchOutward_eq_find? (scope : Text) : searchOutward isLeaf path target scope =
    (((enclosing scope).find? (accepts isLeaf path target)).map (pathIn · target)).getD target := by
  fun_induction searchOutward isLeaf path target scope with
  | case1 scope h =>
    rw [enclosing_eq_nil (Text.cutLast?_eq_none h)]
    rfl
  | case2 scope group rest h _ haccepts =>
    obtain ⟨rfl, hrest⟩ := Text.eq_of_cutLast? h
    rw [enclosing_append hrest, List.find?_cons_of_pos haccepts]
    rfl
  | case3 scope group rest h _ haccepts ih =>
    obtain ⟨rfl, hrest⟩ := Text.eq_of_cutLast? h
    rw [enclosing_append hrest, List.find?_cons_of_neg haccepts, ih]

/-! ## What is found -/

/-- A group around a path with a leaf at the target that is not the path itself. -/
structure Defines (group : Text) : Prop where
  surrounds : ∃ rest, path = group ++ '.' :: rest
  leaf : isLeaf (pathIn group target) = true
  other : pathIn group target ≠ path

/-- The longest of the groups that define a target. -/
structure IsInnermost (group : Text) : Prop extends Defines isLeaf path target group where
  longest : ∀ outer, Defines isLeaf path target outer → outer.length ≤ group.length

variable {isLeaf path target} {group : Text}

theorem defines_iff : Defines isLeaf path target group ↔
    group ∈ enclosing path ∧ accepts isLeaf path target group = true := by
  rw [mem_enclosing, accepts, Bool.and_eq_true, decide_eq_true_eq]
  exact ⟨fun h => ⟨h.surrounds, h.other, h.leaf⟩, fun h => ⟨h.1, h.2.2, h.2.1⟩⟩

theorem isInnermost_of_find?
    (h : (enclosing path).find? (accepts isLeaf path target) = some group) :
    IsInnermost isLeaf path target group := by
  obtain ⟨haccepts, inner, outer, hgroups, hinner⟩ := List.find?_eq_some_iff_append.1 h
  have hmem : group ∈ enclosing path := List.mem_of_find?_eq_some h
  refine ⟨defines_iff.2 ⟨hmem, haccepts⟩, fun other hother => ?_⟩
  obtain ⟨hother, haccepted⟩ := defines_iff.1 hother
  have hpairwise := pairwise_enclosing path
  rw [hgroups] at hother hpairwise
  rcases List.mem_append.1 hother with hother | hother
  · have hnot := hinner other hother
    rw [haccepted] at hnot
    cases hnot
  · rcases List.mem_cons.1 hother with rfl | hother
    · exact Nat.le_refl _
    · have hlt := (List.pairwise_cons.1 (List.pairwise_append.1 hpairwise).2.1).1 other hother
      exact Nat.le_of_lt hlt

variable (isLeaf path target)

theorem absolutePath_cases :
    (∃ group, IsInnermost isLeaf path target group ∧
      absolutePath isLeaf path target = pathIn group target) ∨
    (∀ group, ¬ Defines isLeaf path target group) ∧ absolutePath isLeaf path target = target := by
  rw [absolutePath_eq_find?]
  cases h : (enclosing path).find? (accepts isLeaf path target) with
  | some group => exact .inl ⟨group, isInnermost_of_find? h, rfl⟩
  | none =>
    refine .inr ⟨fun group hgroup => ?_, rfl⟩
    obtain ⟨hmem, haccepts⟩ := defines_iff.1 hgroup
    exact List.find?_eq_none.1 h group hmem haccepts

theorem absolutePath_eq_searchOutward :
    absolutePath isLeaf path target = searchOutward isLeaf path target path := by
  rw [absolutePath_eq_find?, searchOutward_eq_find?]

theorem length_pathIn (group : Text) :
    (pathIn group target).length = group.length + 1 + target.length := by
  rw [pathIn, List.length_append, List.length_append]
  rfl

/-- A search outward ends at the innermost group that defines the target, and at the root where none
does. So a reference leads to its own leaf only if it has that path for a target and no group
defines it, an inner group hides those around it, and any other leaf that it can mean is a leaf that
is found. -/
theorem absolutePath_innermost :
    absolutePath isLeaf path target = searchOutward isLeaf path target path ∧
      ((∃ group, IsInnermost isLeaf path target group ∧
          absolutePath isLeaf path target = pathIn group target) ∨
        (∀ group, ¬ Defines isLeaf path target group) ∧
          absolutePath isLeaf path target = target) ∧
      (absolutePath isLeaf path target = path →
        target = path ∧ ∀ group, ¬ Defines isLeaf path target group) ∧
      (∀ inner outer, Defines isLeaf path target inner → outer.length < inner.length →
        absolutePath isLeaf path target ≠ pathIn outer target) ∧
      ((∃ group, Defines isLeaf path target group) ∨ isLeaf target = true ∧ target ≠ path →
        isLeaf (absolutePath isLeaf path target) = true ∧
          absolutePath isLeaf path target ≠ path) := by
  have hcases := absolutePath_cases isLeaf path target
  refine ⟨absolutePath_eq_searchOutward isLeaf path target, hcases, fun hself => ?_,
    fun inner outer hinner hlength houter => ?_, fun hdefined => ?_⟩
  · rcases hcases with ⟨group, hgroup, hpath⟩ | ⟨hnone, hpath⟩
    · exact absurd (hpath.symm.trans hself) hgroup.other
    · exact ⟨hpath.symm.trans hself, hnone⟩
  · rcases hcases with ⟨group, hgroup, hpath⟩ | ⟨hnone, -⟩
    · have hlongest := hgroup.longest inner hinner
      have hsame := congrArg List.length (hpath.symm.trans houter)
      rw [length_pathIn, length_pathIn] at hsame
      omega
    · exact hnone inner hinner
  · rcases hcases with ⟨group, hgroup, hpath⟩ | ⟨hnone, hpath⟩
    · rw [hpath]
      exact ⟨hgroup.leaf, hgroup.other⟩
    · rw [hpath]
      refine hdefined.resolve_left ?_
      rintro ⟨group, hgroup⟩
      exact hnone group hgroup

end

/-- Leaves at one name in three places, and one that is named like a group around it. -/
def scattered : List Text := ["a.b.x", "a.x", "x", ".a.b.a", "a.b.c"]

/-- The group next to the leaf wins, an empty name is a group as well, and a leaf is not its own
target. -/
theorem absolutePath_innermost_scattered :
    Defines scattered.contains "a.b.c" "x" "a.b" ∧ Defines scattered.contains "a.b.c" "x" "a" ∧
      absolutePath scattered.contains "a.b.c" "x" ≠ pathIn "a" "x" ∧
      scattered.contains (absolutePath scattered.contains "a.b.c" "x") = true ∧
      Defines scattered.contains ".a.b" "a.b.a" [] ∧
      (∃ group, IsInnermost scattered.contains ".a.b" "a.b.a" group) ∧
      absolutePath scattered.contains "a.b.c" "a.b.c" = "a.b.c" ∧
      ∀ group, ¬ Defines scattered.contains "a.b.c" "a.b.c" group := by
  have hinner : Defines scattered.contains "a.b.c" "x" "a.b" := ⟨⟨"c", rfl⟩, by decide, by decide⟩
  have houter : Defines scattered.contains "a.b.c" "x" "a" := ⟨⟨"b.c", rfl⟩, by decide, by decide⟩
  have hempty : Defines scattered.contains ".a.b" "a.b.a" [] := ⟨⟨"a.b", rfl⟩, by decide, by decide⟩
  have hself : absolutePath scattered.contains "a.b.c" "a.b.c" = "a.b.c" := by decide
  obtain ⟨-, -, -, hshadow, hleaf⟩ := absolutePath_innermost scattered.contains "a.b.c" "x"
  obtain ⟨-, hcases, -⟩ := absolutePath_innermost scattered.contains ".a.b" "a.b.a"
  refine ⟨hinner, houter, hshadow _ _ hinner (by decide), (hleaf (.inl ⟨_, hinner⟩)).1, hempty, ?_,
    hself, ((absolutePath_innermost scattered.contains "a.b.c" "a.b.c").2.2.1 hself).2⟩
  rcases hcases with ⟨group, hgroup, -⟩ | ⟨hnone, -⟩
  · exact ⟨group, hgroup⟩
  · exact absurd hempty (hnone [])

end Document

end ThemeTokens
