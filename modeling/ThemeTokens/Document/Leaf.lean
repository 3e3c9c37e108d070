import ThemeTokens.Json.Basic
import ThemeTokens.Reference

/-!
# Leaves

A document is a tree of groups. A leaf is a bare text or number, or an object with a `$value` or
`value`, and stands under the keys that lead to it, joined by points. Keys that begin with a dollar
sign are not part of the tree. The kind of a leaf is its own `$type` or `type`, or that of the
innermost group around it that has one.
-/
namespace ThemeTokens.Document

inductive Leaf (R : Type)
  | text (value : Text)
  | number (value : R)
  deriving DecidableEq, Repr

/-- A leaf as it is written. -/
structure Entry (R : Type) where
  value : RawValue (Leaf R)
  kind : Option Text
  deriving DecidableEq, Repr

def isBrace (c : Char) : Bool := c == '\x7b' || c == '\x7d'

/-- The path between braces, if the text is nothing else. -/
def reference? (t : Text) : Option Text :=
  match t.trim with
  | '\x7b' :: rest =>
    (Text.beforeLast? '\x7d' rest).bind fun inner =>
      if inner.any isBrace then none else some inner.trim
  | _ => none

variable {R : Type}

def rawValue? : Json R → Option (RawValue (Leaf R))
  | .text t =>
    match reference? t with
    | some path => some (.reference path)
    | none => some (.leaf (.text t))
  | .number x => some (.leaf (.number x))
  | _ => none

/-- The member with a dollar sign before its key, or without one. -/
def special? (key : Text) (members : Keyed (Json R)) : Option (Json R) :=
  (members.get? ('$' :: key)).or (members.get? key)

def ownKind? (members : Keyed (Json R)) : Option Text :=
  ((special? "type" members).bind Json.text?).map Text.lower

def memberPath (group key : Text) : Text := if group.isEmpty then key else group ++ "." ++ key

/-- The leaf that a value writes at a path, if it writes one. -/
def entryAt (path : Text) (kind : Option Text) (value : Json R) : List (Text × Entry R) :=
  (rawValue? value).toList.map fun raw => (path, ⟨raw, kind⟩)

mutual

/-- The leaves at a path and below it. -/
def entriesAt (path : Text) (inherited : Option Text) : Json R → List (Text × Entry R)
  | .object members =>
    let kind := (ownKind? members).or inherited
    match special? "value" members with
    | some value => entryAt path kind value
    | none => entriesBelow path kind members
  | value => entryAt path inherited value

def entriesBelow (group : Text) (inherited : Option Text) :
    List (Text × Json R) → List (Text × Entry R)
  | [] => []
  | (key, child) :: rest =>
    (if key.head? = some '$' then [] else entriesAt (memberPath group key) inherited child) ++
      entriesBelow group inherited rest

end

/-- The leaves of a document; of two at one path, the later one counts. -/
def flatten (root : Keyed (Json R)) : Keyed (Entry R) :=
  Keyed.ofList (entriesBelow [] (ownKind? root) root)

end ThemeTokens.Document
