import ThemeTokens.Toml.Basic

/-!
# Assembling tables

A document builds its tables piece by piece. A header opens a table once, and may also open one
that so far was only implied by the headers of tables inside it. A dotted key makes the tables on
its way and may go through those that other dotted keys made. No value is ever assigned twice.
-/
namespace ThemeTokens.Toml

/-- What has made a table so far. -/
inductive Origin
  | header
  /-- The header of a table inside it. -/
  | implied
  | dotted
  deriving DecidableEq, Repr

/-- A member of a table under construction. -/
inductive Item (R : Type)
  | value (value : Toml R)
  | table (origin : Origin) (members : List (Text × Item R))
  /-- An array of tables, of which only the last can still grow. -/
  | tables (earlier : List (List (Text × Item R))) (last : List (Text × Item R))

abbrev Items (R : Type) := Keyed (Item R)

variable {R : Type}

mutual

def Item.toToml : Item R → Toml R
  | .value v => v
  | .table _ members => .table (membersToToml members)
  | .tables earlier last =>
    .array (tablesToToml earlier ++ [.table (membersToToml last)])

def membersToToml : List (Text × Item R) → List (Text × Toml R)
  | [] => []
  | (key, item) :: rest => (key, item.toToml) :: membersToToml rest

def tablesToToml : List (List (Text × Item R)) → List (Toml R)
  | [] => []
  | members :: rest => .table (membersToToml members) :: tablesToToml rest

end

namespace Items

/-- Changes the table at a path from a header. Tables that are missing are implied, and an array of
tables stands for its last one. -/
def within (change : Items R → Option (Items R)) : List Text → Items R → Option (Items R)
  | [], members => change members
  | key :: path, members => do
    let item ← match members.get? key with
      | none => (within change path []).map (Item.table .implied)
      | some (.table origin below) => (within change path below).map (Item.table origin)
      | some (.tables earlier last) => (within change path last).map (Item.tables earlier)
      | some (.value _) => none
    return members.insert key item

/-- Opens a table that no header has opened. -/
def openTable (key : Text) (members : Items R) : Option (Items R) :=
  match members.get? key with
  | none => some (members.insert key (.table .header []))
  | some (.table .implied below) => some (members.insert key (.table .header below))
  | some _ => none

/-- Opens the next table of an array of tables. -/
def openNext (key : Text) (members : Items R) : Option (Items R) :=
  match members.get? key with
  | none => some (members.insert key (.tables [] []))
  | some (.tables earlier last) => some (members.insert key (.tables (earlier ++ [last]) []))
  | some _ => none

/-- Assigns a value that the members do not have yet. -/
def assignNew (value : Toml R) (key : Text) (members : Items R) : Option (Items R) :=
  if members.contains key then none else some (members.insert key (.value value))

/-- Assigns a value at a dotted key, whose last table must be one that a dotted key made. -/
def assign (value : Toml R) : List Text → Items R → Option (Items R)
  | [], _ => none
  | [key], members => assignNew value key members
  | key :: next :: path, members => do
    let item ← match members.get? key with
      | none => (assign value (next :: path) []).map (Item.table .dotted)
      | some (.table .dotted below) =>
        (assign value (next :: path) below).map (Item.table .dotted)
      | some (.table .implied below) =>
        if path = [] then none
        else (assign value (next :: path) below).map (Item.table .implied)
      | some (.tables earlier last) =>
        if path = [] then none
        else (assign value (next :: path) last).map (Item.tables earlier)
      | some (.table .header _) | some (.value _) => none
    return members.insert key item

end Items

end ThemeTokens.Toml
