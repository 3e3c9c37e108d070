import ThemeTokens.Keyed

/-!
# References

Entries hold a leaf or refer to another entry. A resolver follows the references from a key to a
leaf and remembers the leaf for every key on the way.
-/
namespace ThemeTokens

inductive RawValue (α : Type)
  | leaf (value : α)
  | reference (target : Text)
  deriving DecidableEq, Repr

inductive ReferenceError
  /-- The entry at `source` refers to a key that no entry has. -/
  | unresolved (reference source : Text)
  /-- Each key of the chain refers to the next, and the last to the first. -/
  | cyclic (chain : List Text)
  deriving DecidableEq, Repr

def ReferenceError.message : ReferenceError → Text
  | .unresolved reference source =>
    "unresolved reference `" ++ reference ++ "` (from `" ++ source ++ "`)"
  | .cyclic chain => "cyclic reference: " ++ Text.join " -> " (chain ++ chain.take 1)

namespace Keyed

theorem mem_keys_of_get? {α : Type} {key : Text} {entries : Keyed α} {value : α}
    (h : get? key entries = some value) : key ∈ keys entries := by
  induction entries with
  | nil => simp [get?] at h
  | cons entry rest ih =>
    simp only [get?] at h
    split at h
    · next e => simp [keys, e]
    · exact List.mem_cons_of_mem _ (ih h)

end Keyed

structure Resolver (α : Type) where
  entries : Keyed (RawValue α)
  memo : Keyed α

namespace Resolver
variable {α : Type}

def ofEntries (entries : Keyed (RawValue α)) : Resolver α := ⟨entries, []⟩

/-- The keys that a chain has not visited. -/
def unvisited (entries : Keyed (RawValue α)) (chain : List Text) : List Text :=
  entries.keys.filter (· ∉ chain)

theorem length_unvisited_lt {entries : Keyed (RawValue α)} {chain : List Text} {target : Text}
    (hk : target ∈ entries.keys) (hc : target ∉ chain) :
    (unvisited entries (chain ++ [target])).length < (unvisited entries chain).length := by
  have hsub : unvisited entries (chain ++ [target]) =
      (unvisited entries chain).filter (· ≠ target) := by
    simp only [unvisited, List.filter_filter]
    congr 1
    funext key
    simp [Bool.and_comm]
  have hmem : target ∈ unvisited entries chain := by simp [unvisited, hk, hc]
  rw [hsub]
  exact List.length_filter_lt_length_iff_exists.2 ⟨target, hmem, by simp⟩

/-- Follows the value at `current`, the last key of the chain, and gives its leaf with the chain
that led there. -/
def follow (entries : Keyed (RawValue α)) (memo : Keyed α) (chain : List Text) (current : Text)
    (value : RawValue α) : Except ReferenceError (α × List Text) :=
  match memo.get? current with
  | some leaf => .ok (leaf, chain)
  | none =>
    match value with
    | .leaf leaf => .ok (leaf, chain)
    | .reference target =>
      if hc : target ∈ chain then .error (.cyclic (chain.dropWhile (· ≠ target)))
      else
        match hk : entries.get? target with
        | none => .error (.unresolved target current)
        | some next =>
          have := length_unvisited_lt (Keyed.mem_keys_of_get? hk) hc
          follow entries memo (chain ++ [target]) target next
termination_by (unvisited entries chain).length

/-- The leaf that a key leads to, and the resolver that remembers it. -/
def resolve (r : Resolver α) (key : Text) : Except ReferenceError α × Resolver α :=
  match r.entries.get? key with
  | none => (.error (.unresolved key key), r)
  | some first =>
    match follow r.entries r.memo [key] key first with
    | .error e => (.error e, r)
    | .ok (leaf, chain) =>
      (.ok leaf, { r with memo := chain.foldl (fun memo k => memo.insert k leaf) r.memo })

end Resolver

end ThemeTokens
