import ThemeTokens.Text.Basic

/-!
# Values by text key

An association list in increasing order of its keys, by code point. Inserting at a key that is
already there replaces its value, so the last insertion wins.
-/
namespace ThemeTokens

abbrev Keyed (α : Type) := List (Text × α)

namespace Keyed
variable {α β : Type}

def insert (key : Text) (value : α) : Keyed α → Keyed α
  | [] => [(key, value)]
  | entry :: rest =>
    if key < entry.1 then (key, value) :: entry :: rest
    else if key = entry.1 then (key, value) :: rest
    else entry :: insert key value rest

def get? (key : Text) : Keyed α → Option α
  | [] => none
  | entry :: rest => if key = entry.1 then some entry.2 else get? key rest

def contains (key : Text) (entries : Keyed α) : Bool := (get? key entries).isSome

def keys (entries : Keyed α) : List Text := entries.map Prod.fst

/-- Later entries of the list win over earlier ones. -/
def ofList (entries : List (Text × α)) : Keyed α :=
  entries.foldl (fun acc entry => insert entry.1 entry.2 acc) []

def mapValues (f : Text → α → β) (entries : Keyed α) : Keyed β :=
  entries.map fun entry => (entry.1, f entry.1 entry.2)

theorem get?_insert (key other : Text) (value : α) (entries : Keyed α) :
    get? other (insert key value entries) =
      if other = key then some value else get? other entries := by
  induction entries with
  | nil => simp [insert, get?]
  | cons entry rest ih =>
    simp only [insert]
    split
    · simp [get?]
    · split
      · next h => subst h; simp only [get?]; split <;> rfl
      · next h =>
        simp only [get?, ih]
        split <;> split <;> simp_all

theorem get?_mapValues (f : Text → α → β) (key : Text) (entries : Keyed α) :
    get? key (mapValues f entries) = (get? key entries).map (f key) := by
  induction entries with
  | nil => rfl
  | cons entry rest ih =>
    simp only [mapValues, List.map_cons, get?] at ih ⊢
    split
    · next h => simp [h]
    · exact ih

end Keyed

end ThemeTokens
