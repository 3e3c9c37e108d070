import ThemeTokens.Document.Leaf

/-!
# Scopes

A reference is looked up from the inside outward. The innermost enclosing group with a leaf at that
path wins, unless that is the leaf itself; where no group has one, the path is taken from the root.
-/
namespace ThemeTokens.Document

/-- What stands before each point, the shortest first. -/
def beforePoints : Text → List Text
  | [] => []
  | c :: t => (if c = '.' then [[]] else []) ++ (beforePoints t).map (c :: ·)

/-- The groups around a path, the innermost first. -/
def enclosing (path : Text) : List Text := (beforePoints path).reverse

/-- The path that a reference written at `path` means. -/
def absolutePath (isLeaf : Text → Bool) (path target : Text) : Text :=
  let candidates := (enclosing path).map fun group => group ++ "." ++ target
  (candidates.find? fun candidate => candidate ≠ path && isLeaf candidate).getD target

variable {R : Type}

def absoluteValue (isLeaf : Text → Bool) (path : Text) : RawValue (Leaf R) → RawValue (Leaf R)
  | .leaf leaf => .leaf leaf
  | .reference target => .reference (absolutePath isLeaf path target)

/-- The values of the leaves, with every reference leading to a path from the root. -/
def absoluteValues (entries : Keyed (Entry R)) : Keyed (RawValue (Leaf R)) :=
  entries.mapValues fun path entry => absoluteValue entries.contains path entry.value

theorem mem_beforePoints {t group : Text} :
    group ∈ beforePoints t ↔ ∃ rest, t = group ++ '.' :: rest := by
  induction t generalizing group with
  | nil => simp [beforePoints]
  | cons c t ih =>
    cases group with
    | nil =>
      by_cases h : c = '.' <;> simp [beforePoints, h]
    | cons d group =>
      have hif : (d :: group) ∉ (if c = '.' then [([] : Text)] else []) := by
        split <;> simp
      simp only [beforePoints, List.mem_append, hif, false_or, List.mem_map, List.cons.injEq, ih,
        List.cons_append]
      constructor
      · rintro ⟨u, ⟨rest, rfl⟩, rfl, rfl⟩
        exact ⟨rest, rfl, rfl⟩
      · rintro ⟨rest, rfl, rfl⟩
        exact ⟨group, ⟨rest, rfl⟩, rfl, rfl⟩

theorem mem_enclosing {path group : Text} :
    group ∈ enclosing path ↔ ∃ rest, path = group ++ '.' :: rest := by
  rw [enclosing, List.mem_reverse, mem_beforePoints]

end ThemeTokens.Document
