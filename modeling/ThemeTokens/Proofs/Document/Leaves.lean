import ThemeTokens.Proofs.Document.Tree

/-!
# The leaves of any document

What a leaf is can be said without the walk: some groups lead to it, and it has a value that can be
written, under a tag of its own or of a group around it. Where keys have no points, the walk finds
each leaf once, and joined keys tell the leaves apart.
-/
namespace ThemeTokens

theorem Text.join_append_singleton (separator : Text) {pieces : List Text} (h : pieces ≠ [])
    (piece : Text) :
    join separator (pieces ++ [piece]) = join separator pieces ++ separator ++ piece := by
  obtain ⟨first, rest, rfl⟩ := List.exists_cons_of_ne_nil h
  rw [List.cons_append, join_cons, join_cons, List.flatMap_append, List.flatMap_singleton,
    List.append_assoc, List.append_assoc]

namespace Document
variable {R : Type}

/-! ## Leaves without the walk -/

/-- The value of a member with a dollar sign before its key, else of the one without. -/
def Carries (key : Text) (members : Keyed (Json R)) (value : Json R) : Prop :=
  members.get? ('$' :: key) = some value ∨
    members.get? ('$' :: key) = none ∧ members.get? key = some value

/-- The lower case of a text that is given as the type. -/
def Tagged (members : Keyed (Json R)) (tag : Text) : Prop :=
  ∃ t, Carries "type" members (.text t) ∧ tag = t.lower

/-- The first tag there is from the inside outward. -/
inductive Innermost : List (Keyed (Json R)) → Option Text → Prop
  | untagged : Innermost [] none
  | own {members groups tag} (h : Tagged members tag) : Innermost (members :: groups) (some tag)
  | outer {members groups kind} (h : ∀ tag, ¬ Tagged members tag) (hkind : Innermost groups kind) :
    Innermost (members :: groups) kind

/-- A number, a path between braces, or any other text. -/
inductive Written : Json R → RawValue (Leaf R) → Prop
  | number (x : R) : Written (.number x) (.leaf (.number x))
  | reference {t inner : Text} (h : t.trim = ['\x7b'] ++ inner ++ ['\x7d'])
    (hinner : ∀ c ∈ inner, c ≠ '\x7b' ∧ c ≠ '\x7d') : Written (.text t) (.reference inner.trim)
  | text {t : Text} (h : ¬ ∃ inner : Text, t.trim = ['\x7b'] ++ inner ++ ['\x7d'] ∧
      ∀ c ∈ inner, c ≠ '\x7b' ∧ c ≠ '\x7d') : Written (.text t) (.leaf (.text t))

/-- The groups that keys lead through, the innermost first. An object with a value is no group. -/
inductive Encloses (root : Keyed (Json R)) : List (Keyed (Json R)) → List Text → Prop
  | root : Encloses root [root] []
  | group {group groups keys key members} (h : Encloses root (group :: groups) keys)
    (hmem : (key, .object members) ∈ group) (hdollar : key.head? ≠ some '$')
    (hvalue : ∀ value, ¬ Carries "value" members value) :
    Encloses root (members :: group :: groups) (keys ++ [key])

/-- A bare value under the tag of the groups around it, or an object with a value, which may have a
tag of its own. -/
inductive IsLeaf (groups : List (Keyed (Json R))) : Json R → Entry R → Prop
  | bare {json raw kind} (hraw : Written json raw) (hkind : Innermost groups kind) :
    IsLeaf groups json ⟨raw, kind⟩
  | object {members value raw kind} (hvalue : Carries "value" members value)
    (hraw : Written value raw) (hkind : Innermost (members :: groups) kind) :
    IsLeaf groups (.object members) ⟨raw, kind⟩

/-- The leaf that these keys lead to. -/
inductive LeafAt (root : Keyed (Json R)) : List Text → Entry R → Prop
  | member {group groups keys key json entry} (h : Encloses root (group :: groups) keys)
    (hmem : (key, json) ∈ group) (hdollar : key.head? ≠ some '$')
    (hleaf : IsLeaf (group :: groups) json entry) : LeafAt root (keys ++ [key]) entry

mutual

/-- No object has a key twice, and no key is empty or has a point. -/
def WellNamed : Json R → Prop
  | .object members => (members.map Prod.fst).Nodup ∧ WellNamedMembers members
  | _ => True

def WellNamedMembers : List (Text × Json R) → Prop
  | [] => True
  | (key, value) :: members => (key ≠ [] ∧ '.' ∉ key) ∧ WellNamed value ∧ WellNamedMembers members

end

theorem wellNamedMembers_iff {members : List (Text × Json R)} : WellNamedMembers members ↔
    ∀ member ∈ members, (member.1 ≠ [] ∧ '.' ∉ member.1) ∧ WellNamed member.2 := by
  induction members with
  | nil => simp [WellNamedMembers]
  | cons member members ih => simp [WellNamedMembers, ih, and_assoc]

/-! ## What is read from a member -/

theorem special?_eq_some {key : Text} {members : Keyed (Json R)} {value : Json R} :
    special? key members = some value ↔ Carries key members value :=
  Option.or_eq_some_iff

theorem special?_eq_none_iff {key : Text} {members : Keyed (Json R)} :
    special? key members = none ↔ ∀ value, ¬ Carries key members value := by
  simp only [← special?_eq_some, Option.eq_none_iff_forall_not_mem, Option.mem_def]

theorem Carries.unique {key : Text} {members : Keyed (Json R)} {value other : Json R}
    (h : Carries key members value) (hother : Carries key members other) : value = other :=
  Option.some_inj.1 ((special?_eq_some.2 h).symm.trans (special?_eq_some.2 hother))

theorem ownKind?_eq_some {members : Keyed (Json R)} {tag : Text} :
    ownKind? members = some tag ↔ Tagged members tag := by
  rw [ownKind?, Option.map_eq_some_iff]
  refine exists_congr fun t => and_congr ?_ eq_comm
  rw [Option.bind_eq_some_iff]
  constructor
  · rintro ⟨value, hvalue, ht⟩
    cases value with
    | text u =>
      cases ht
      exact special?_eq_some.1 hvalue
    | _ => cases ht
  · exact fun h => ⟨.text t, special?_eq_some.2 h, rfl⟩

theorem findSome?_ownKind? {groups : List (Keyed (Json R))} {kind : Option Text} :
    groups.findSome? ownKind? = kind ↔ Innermost groups kind := by
  constructor
  · rintro rfl
    induction groups with
    | nil => exact .untagged
    | cons members groups ih =>
      rw [List.findSome?_cons]
      split
      · next h => exact .own (ownKind?_eq_some.1 h)
      · next h =>
        refine .outer (fun tag htag => ?_) ih
        rw [ownKind?_eq_some.2 htag] at h
        cases h
  · intro h
    induction h with
    | untagged => rfl
    | own h => rw [List.findSome?_cons, ownKind?_eq_some.2 h]
    | outer h _ ih =>
      have hnone := Option.eq_none_iff_forall_not_mem.2 fun tag ht => h tag (ownKind?_eq_some.1 ht)
      rw [List.findSome?_cons, hnone, ih]

theorem or_findSome?_ownKind? (members : Keyed (Json R)) (groups : List (Keyed (Json R))) :
    (ownKind? members).or (groups.findSome? ownKind?) =
      (members :: groups).findSome? ownKind? := by
  rw [List.findSome?_cons]
  cases ownKind? members <;> rfl

theorem reference?_eq_some {t path : Text} : reference? t = some path ↔
    ∃ inner, t.trim = ['\x7b'] ++ inner ++ ['\x7d'] ∧
      (∀ c ∈ inner, c ≠ '\x7b' ∧ c ≠ '\x7d') ∧ inner.trim = path := by
  have hclean (inner : Text) : inner.any isBrace = false ↔
      ∀ c ∈ inner, c ≠ '\x7b' ∧ c ≠ '\x7d' := by
    simp [isBrace]
  rw [reference?]
  split
  · next rest ht =>
    rw [ht, Option.bind_eq_some_iff]
    refine exists_congr fun inner => and_congr ?_ ?_
    · rw [Text.beforeLast?_eq_some_iff, List.append_assoc, List.singleton_append,
        List.cons_inj_right]
    · rw [← hclean]
      cases inner.any isBrace <;> simp
  · next hother =>
    refine iff_of_false (by simp) ?_
    rintro ⟨inner, ht, -, -⟩
    exact hother (inner ++ ['\x7d']) (by rw [ht, List.append_assoc]; rfl)

theorem rawValue?_eq_some {json : Json R} {raw : RawValue (Leaf R)} :
    rawValue? json = some raw ↔ Written json raw := by
  constructor
  · intro h
    cases json with
    | text t =>
      rw [rawValue?] at h
      split at h
      · next path hpath =>
        cases h
        obtain ⟨inner, ht, hinner, rfl⟩ := reference?_eq_some.1 hpath
        exact .reference ht hinner
      · next hnone =>
        cases h
        refine .text ?_
        rintro ⟨inner, ht, hinner⟩
        rw [reference?_eq_some.2 ⟨inner, ht, hinner, rfl⟩] at hnone
        cases hnone
    | number x =>
      cases h
      exact .number x
    | _ => cases h
  · intro h
    cases h with
    | number x => rfl
    | reference ht hinner => rw [rawValue?, reference?_eq_some.2 ⟨_, ht, hinner, rfl⟩]
    | @text t h =>
      have hnone : reference? t = none := by
        refine Option.eq_none_iff_forall_not_mem.2 fun path hpath => h ?_
        obtain ⟨inner, ht, hinner, -⟩ := reference?_eq_some.1 hpath
        exact ⟨inner, ht, hinner⟩
      rw [rawValue?, hnone]

theorem Written.unique {json : Json R} {raw other : RawValue (Leaf R)} (h : Written json raw)
    (hother : Written json other) : raw = other :=
  Option.some_inj.1 ((rawValue?_eq_some.2 h).symm.trans (rawValue?_eq_some.2 hother))

theorem Innermost.unique {groups : List (Keyed (Json R))} {kind other : Option Text}
    (h : Innermost groups kind) (hother : Innermost groups other) : kind = other :=
  (findSome?_ownKind?.2 h).symm.trans (findSome?_ownKind?.2 hother)

/-- An object is no leaf but through its value. -/
theorem IsLeaf.object_iff {groups : List (Keyed (Json R))} {members : Keyed (Json R)}
    {entry : Entry R} : IsLeaf groups (.object members) entry ↔
      ∃ value, Carries "value" members value ∧ Written value entry.value ∧
        Innermost (members :: groups) entry.kind := by
  constructor
  · intro h
    cases h with
    | bare hraw => cases hraw
    | object hvalue hraw hkind => exact ⟨_, hvalue, hraw, hkind⟩
  · rintro ⟨value, hvalue, hraw, hkind⟩
    exact .object hvalue hraw hkind

theorem IsLeaf.unique {groups : List (Keyed (Json R))} {json : Json R} {entry other : Entry R}
    (h : IsLeaf groups json entry) (hother : IsLeaf groups json other) : entry = other := by
  cases h with
  | bare hraw hkind =>
    cases hother with
    | bare hrawOther hkindOther =>
      rw [hraw.unique hrawOther, hkind.unique hkindOther]
    | object => cases hraw
  | object hvalue hraw hkind =>
    obtain ⟨value, hvalueOther, hrawOther, hkindOther⟩ := object_iff.1 hother
    obtain ⟨raw, kind⟩ := other
    obtain rfl := hvalue.unique hvalueOther
    rw [hraw.unique hrawOther, hkind.unique hkindOther]

theorem mem_entryAt {path : Text} {kind : Option Text} {value : Json R} {leaf : Text × Entry R} :
    leaf ∈ entryAt path kind value ↔ ∃ raw, Written value raw ∧ leaf = (path, ⟨raw, kind⟩) := by
  simp only [entryAt, List.mem_map, Option.mem_toList, rawValue?_eq_some]
  exact exists_congr fun raw => and_congr_right fun _ => eq_comm

theorem IsLeaf.mem_entriesAt {groups : List (Keyed (Json R))} {json : Json R} {entry : Entry R}
    (h : IsLeaf groups json entry) (path : Text) :
    (path, entry) ∈ entriesAt path (groups.findSome? ownKind?) json := by
  cases h with
  | bare hraw hkind =>
    -- the walk takes every value but an object as it is
    rw [findSome?_ownKind?.2 hkind]
    cases hraw with
    | number x => exact mem_entryAt.2 ⟨_, .number x, rfl⟩
    | reference ht hinner => exact mem_entryAt.2 ⟨_, .reference ht hinner, rfl⟩
    | text ht => exact mem_entryAt.2 ⟨_, .text ht, rfl⟩
  | object hvalue hraw hkind =>
    rw [entriesAt, special?_eq_some.2 hvalue, or_findSome?_ownKind?, findSome?_ownKind?.2 hkind]
    exact mem_entryAt.2 ⟨_, hraw, rfl⟩

/-! ## Names -/

variable {root : Keyed (Json R)} {group : Keyed (Json R)} {groups : List (Keyed (Json R))}
  {keys : List Text} {leaf : Text × Entry R}

/-- The names of every group that is reached. -/
theorem Encloses.wellNamed (h : Encloses root (group :: groups) keys)
    (hroot : WellNamed (.object root)) : WellNamed (.object group) := by
  generalize hinner : group :: groups = inner at h
  induction h generalizing group groups with
  | root =>
    cases hinner
    exact hroot
  | group h hmem _ _ ih =>
    cases hinner
    exact (wellNamedMembers_iff.1 (ih rfl).2 _ hmem).2

theorem Encloses.named (h : Encloses root (group :: groups) keys)
    (hroot : WellNamed (.object root)) {key : Text} {json : Json R} (hmem : (key, json) ∈ group) :
    key ≠ [] ∧ '.' ∉ key :=
  (wellNamedMembers_iff.1 (h.wellNamed hroot).2 _ hmem).1

theorem Encloses.keys_named {groups : List (Keyed (Json R))} (h : Encloses root groups keys)
    (hroot : WellNamed (.object root)) : ∀ key ∈ keys, key ≠ [] ∧ '.' ∉ key := by
  induction h with
  | root => exact fun key hkey => absurd hkey List.not_mem_nil
  | group h hmem _ _ ih =>
    intro key hkey
    rcases List.mem_append.1 hkey with hkey | hkey
    · exact ih key hkey
    · obtain rfl := List.mem_singleton.1 hkey
      exact h.named hroot hmem

/-- A member of a group that is reached is the only one of its key. -/
theorem Encloses.member_unique (h : Encloses root (group :: groups) keys)
    (hroot : WellNamed (.object root)) {key : Text} {json other : Json R}
    (hmem : (key, json) ∈ group) (hother : (key, other) ∈ group) : json = other :=
  (Prod.mk.inj (List.inj_on_of_nodup_map (h.wellNamed hroot).1 hmem hother rfl)).2

/-- Keys lead through one list of groups only. -/
theorem Encloses.unique {groups others : List (Keyed (Json R))} (h : Encloses root groups keys)
    (hother : Encloses root others keys) (hroot : WellNamed (.object root)) : groups = others := by
  induction h generalizing others with
  | root =>
    generalize hkeys : ([] : List Text) = keys at hother
    cases hother with
    | root => rfl
    | group => exact absurd hkeys.symm (List.append_ne_nil_of_right_ne_nil _ (List.cons_ne_nil _ _))
  | group h hmem _ _ ih =>
    generalize hkeys : _ ++ [_] = keys at hother
    cases hother with
    | root => exact absurd hkeys (List.append_ne_nil_of_right_ne_nil _ (List.cons_ne_nil _ _))
    | group hother hmemOther =>
      obtain ⟨rfl, hkey⟩ := List.append_inj' hkeys rfl
      cases hkey
      cases ih hother
      cases h.member_unique hroot hmem hmemOther
      rfl

/-- The last key leads to a member of the group that the others lead to. -/
theorem Encloses.of_append_singleton {groups : List (Keyed (Json R))} {key : Text}
    (h : Encloses root groups (keys ++ [key])) : ∃ group outer members,
      Encloses root (group :: outer) keys ∧ (key, .object members) ∈ group ∧
        ∀ value, ¬ Carries "value" members value := by
  generalize hkeys : keys ++ [key] = whole at h
  cases h with
  | root => exact absurd hkeys (List.append_ne_nil_of_right_ne_nil _ (List.cons_ne_nil _ _))
  | group h hmem hdollar hvalue =>
    obtain ⟨rfl, hkey⟩ := List.append_inj' hkeys rfl
    cases hkey
    exact ⟨_, _, _, h, hmem, hvalue⟩

/-- The keys on the way to a group lead to groups. -/
theorem Encloses.of_append {groups : List (Keyed (Json R))} {front back : List Text}
    (h : Encloses root groups (front ++ back)) : ∃ groups, Encloses root groups front := by
  induction back using List.reverseRecOn generalizing groups with
  | nil => exact ⟨groups, List.append_nil front ▸ h⟩
  | append_singleton back last ih =>
    rw [← List.append_assoc] at h
    obtain ⟨_, _, _, houter, -⟩ := h.of_append_singleton
    exact ih houter

theorem LeafAt.unique {entry other : Entry R} (h : LeafAt root keys entry)
    (hother : LeafAt root keys other) (hroot : WellNamed (.object root)) : entry = other := by
  obtain ⟨h, hmem, -, hleaf⟩ := h
  generalize hkeys : _ ++ [_] = keys at hother
  obtain ⟨hother, hmemOther, -, hleafOther⟩ := hother
  obtain ⟨rfl, hkey⟩ := List.append_inj' hkeys rfl
  cases hkey
  cases h.unique hother hroot
  cases h.member_unique hroot hmem hmemOther
  exact hleaf.unique hleafOther

/-- Nothing at or below an object whose value is not written is a leaf. -/
theorem Encloses.not_leafAt_below (h : Encloses root (group :: groups) keys)
    (hroot : WellNamed (.object root)) {key : Text} {members : Keyed (Json R)} {value : Json R}
    (hmem : (key, .object members) ∈ group) (hvalue : Carries "value" members value)
    (hraw : ∀ raw, ¬ Written value raw) (below : List Text) (entry : Entry R) :
    ¬ LeafAt root (keys ++ key :: below) entry := by
  intro hleafAt
  generalize hkeys : keys ++ key :: below = whole at hleafAt
  obtain ⟨hother, hmemOther, -, hleaf⟩ := hleafAt
  rcases List.eq_nil_or_concat below with rfl | ⟨below, last, rfl⟩
  · obtain ⟨rfl, hkey⟩ := List.append_inj' hkeys rfl
    cases hkey
    cases h.unique hother hroot
    cases h.member_unique hroot hmem hmemOther
    obtain ⟨other, hcarries, hwritten, -⟩ := IsLeaf.object_iff.1 hleaf
    exact hraw _ (hvalue.unique hcarries ▸ hwritten)
  · rw [List.concat_eq_append, ← List.cons_append, ← List.append_assoc,
      List.append_cons keys key below] at hkeys
    obtain ⟨rfl, -⟩ := List.append_inj' hkeys rfl
    obtain ⟨_, hgroup⟩ := hother.of_append
    obtain ⟨_, _, _, houter, hmemOuter, hnone⟩ := hgroup.of_append_singleton
    cases h.unique houter hroot
    cases h.member_unique hroot hmem hmemOuter
    exact hnone value hvalue

/-! ## Joined keys -/

theorem LeafAt.keys_named {entry : Entry R} (h : LeafAt root keys entry)
    (hroot : WellNamed (.object root)) : keys ≠ [] ∧ ∀ key ∈ keys, '.' ∉ key := by
  obtain ⟨h, hmem, -, -⟩ := h
  refine ⟨List.append_ne_nil_of_right_ne_nil _ (List.cons_ne_nil _ _), fun key hkey => ?_⟩
  rcases List.mem_append.1 hkey with hkey | hkey
  · exact (h.keys_named hroot key hkey).2
  · obtain rfl := List.mem_singleton.1 hkey
    exact (h.named hroot hmem).2

theorem split_join_point {keys : List Text} (hne : keys ≠ []) (h : ∀ key ∈ keys, '.' ∉ key) :
    Text.split '.' (Text.join "." keys) = keys := by
  obtain ⟨first, rest, rfl⟩ := List.exists_cons_of_ne_nil hne
  obtain ⟨hfirst, hrest⟩ := List.forall_mem_cons.1 h
  exact (Text.split_join List.not_mem_nil hfirst hrest).trans (congrArg _ (List.map_id rest))

/-- Joined keys and a point begin a path only where the keys begin its keys. -/
theorem split_join_point_append {keys : List Text} (hne : keys ≠ []) (h : ∀ key ∈ keys, '.' ∉ key)
    (rest : Text) : Text.split '.' (Text.join "." keys ++ '.' :: rest) =
      keys ++ Text.split '.' rest := by
  induction keys with
  | nil => exact absurd rfl hne
  | cons first keys ih =>
    obtain ⟨hfirst, hkeys⟩ := List.forall_mem_cons.1 h
    cases keys with
    | nil =>
      rw [Text.join, List.intercalate_singleton, Text.split_append hfirst]
      rfl
    | cons next keys =>
      have hpoint : Text.join "." (first :: next :: keys) =
          first ++ '.' :: Text.join "." (next :: keys) := by
        rw [Text.join, List.intercalate_cons_cons, List.append_assoc]
        rfl
      rw [hpoint, List.append_assoc, List.cons_append, Text.split_append hfirst,
        ih (List.cons_ne_nil _ _) hkeys]
      rfl

/-- The path of a member is that of its group with one more key. -/
theorem memberPath_join (h : ∀ key ∈ keys, key ≠ []) (key : Text) :
    memberPath (Text.join "." keys) key = Text.join "." (keys ++ [key]) := by
  cases keys with
  | nil => rw [Text.join, Text.join, List.nil_append, List.intercalate_singleton]; rfl
  | cons first rest =>
    have hne : (Text.join "." (first :: rest)).isEmpty = false := by
      obtain ⟨c, t, hfirst⟩ := List.exists_cons_of_ne_nil (h first List.mem_cons_self)
      rw [Text.join_cons, hfirst]
      rfl
    rw [memberPath, hne, Text.join_append_singleton _ (List.cons_ne_nil _ _)]
    rfl

/-! ## The walk -/

section
variable (hroot : WellNamed (.object root))
include hroot

/-- The walk of a group is part of that of the document. -/
theorem Encloses.entriesBelow_subset (h : Encloses root (group :: groups) keys) :
    entriesBelow (Text.join "." keys) ((group :: groups).findSome? ownKind?) group ⊆
      entriesBelow [] (ownKind? root) root := by
  generalize hinner : group :: groups = inner at h
  induction h generalizing group groups with
  | root =>
    cases hinner
    rw [← or_findSome?_ownKind?, List.findSome?_nil, Option.or_none]
    exact fun _ h => h
  | @group outer outers keys key members h hmem hdollar hvalue ih =>
    cases hinner
    refine List.Subset.trans (fun leaf hleaf => ?_) (ih rfl)
    refine mem_entriesBelow.2 ⟨_, hmem, hdollar, ?_⟩
    rw [memberPath_join fun k hk => (h.keys_named hroot k hk).1, entriesAt,
      special?_eq_none_iff.2 hvalue, or_findSome?_ownKind?]
    exact hleaf

theorem LeafAt.mem_walk {entry : Entry R} (h : LeafAt root keys entry) :
    (Text.join "." keys, entry) ∈ entriesBelow [] (ownKind? root) root := by
  obtain ⟨h, hmem, hdollar, hleaf⟩ := h
  refine h.entriesBelow_subset hroot (mem_entriesBelow.2 ⟨_, hmem, hdollar, ?_⟩)
  rw [memberPath_join fun k hk => (h.keys_named hroot k hk).1]
  exact hleaf.mem_entriesAt _

end

mutual

/-- What the walk finds at a member is a leaf of the document. -/
theorem Encloses.leafAt_of_mem_entriesAt (hroot : WellNamed (.object root)) : ∀ {json : Json R}
    {group : Keyed (Json R)} {groups : List (Keyed (Json R))} {keys : List Text} {key : Text},
    Encloses root (group :: groups) keys → (key, json) ∈ group → key.head? ≠ some '$' →
    leaf ∈ entriesAt (Text.join "." (keys ++ [key])) ((group :: groups).findSome? ownKind?) json →
    ∃ keys, LeafAt root keys leaf.2 ∧ leaf.1 = Text.join "." keys
  | .object members, _, _, keys, key, h, hmem, hdollar, hleaf => by
    rw [entriesAt, or_findSome?_ownKind?] at hleaf
    split at hleaf
    · next value hvalue =>
      obtain ⟨raw, hraw, rfl⟩ := mem_entryAt.1 hleaf
      exact ⟨keys ++ [key], .member h hmem hdollar (.object (special?_eq_some.1 hvalue) hraw
        (findSome?_ownKind?.1 rfl)), rfl⟩
    · next hvalue =>
      exact Encloses.leafAt_of_mem_entriesBelow hroot
        (h.group hmem hdollar (special?_eq_none_iff.1 hvalue)) (fun _ h => h) hleaf
  | .null, _, _, _, _, h, hmem, hdollar, hleaf | .bool _, _, _, _, _, h, hmem, hdollar, hleaf
  | .number _, _, _, _, _, h, hmem, hdollar, hleaf | .text _, _, _, _, _, h, hmem, hdollar, hleaf
  | .array _, _, _, _, _, h, hmem, hdollar, hleaf => by
    obtain ⟨raw, hraw, rfl⟩ := mem_entryAt.1 hleaf
    exact ⟨_, .member h hmem hdollar (.bare hraw (findSome?_ownKind?.1 rfl)), rfl⟩

theorem Encloses.leafAt_of_mem_entriesBelow (hroot : WellNamed (.object root)) :
    ∀ {members : List (Text × Json R)} {group : Keyed (Json R)} {groups : List (Keyed (Json R))}
    {keys : List Text}, Encloses root (group :: groups) keys → members ⊆ group →
    leaf ∈ entriesBelow (Text.join "." keys) ((group :: groups).findSome? ownKind?) members →
    ∃ keys, LeafAt root keys leaf.2 ∧ leaf.1 = Text.join "." keys
  | [], _, _, _, _, _, hleaf => absurd hleaf List.not_mem_nil
  | (key, child) :: members, _, _, keys, h, hsubset, hleaf => by
    obtain ⟨hmem, hsubset⟩ := List.cons_subset.1 hsubset
    rw [entriesBelow, List.mem_append] at hleaf
    rcases hleaf with hleaf | hleaf
    · split at hleaf
      · exact absurd hleaf List.not_mem_nil
      · next hdollar =>
        rw [memberPath_join fun k hk => (h.keys_named hroot k hk).1] at hleaf
        exact Encloses.leafAt_of_mem_entriesAt hroot h hmem hdollar hleaf
    · exact Encloses.leafAt_of_mem_entriesBelow hroot h hsubset hleaf

end

theorem mem_walk_iff (hroot : WellNamed (.object root)) :
    leaf ∈ entriesBelow [] (ownKind? root) root ↔
      ∃ keys, LeafAt root keys leaf.2 ∧ leaf.1 = Text.join "." keys := by
  constructor
  · intro h
    have hkind : ownKind? root = [root].findSome? ownKind? := by
      rw [← or_findSome?_ownKind?, List.findSome?_nil, Option.or_none]
    rw [hkind] at h
    exact Encloses.leafAt_of_mem_entriesBelow hroot .root (fun _ h => h) h
  · rintro ⟨keys, h, hpath⟩
    obtain ⟨path, entry⟩ := leaf
    obtain rfl := hpath
    exact h.mem_walk hroot

/-! ## The leaves of a document -/

/-- Joined keys tell the leaves apart. -/
theorem LeafAt.join_inj (hroot : WellNamed (.object root)) {others : List Text}
    {entry other : Entry R} (h : LeafAt root keys entry) (hother : LeafAt root others other)
    (hjoin : Text.join "." keys = Text.join "." others) : keys = others ∧ entry = other := by
  have hkeys := h.keys_named hroot
  have hothers := hother.keys_named hroot
  have hsplit := congrArg (Text.split '.') hjoin
  rw [split_join_point hkeys.1 hkeys.2, split_join_point hothers.1 hothers.2] at hsplit
  subst hsplit
  exact ⟨rfl, h.unique hother hroot⟩

/-- What the entries of a document have to be: each leaf once, under the path of its keys, and
nothing else. -/
structure Flattens (root : Keyed (Json R)) (entries : Keyed (Entry R)) : Prop where
  paths_nodup : (Keyed.keys entries).Nodup
  mem_iff : ∀ path entry, (path, entry) ∈ entries ↔
    ∃ keys, LeafAt root keys entry ∧ path = Text.join "." keys
  apart : ∀ keys others entry other, LeafAt root keys entry → LeafAt root others other →
    Text.join "." keys = Text.join "." others → keys = others ∧ entry = other
  composite : ∀ group groups keys key members value, Encloses root (group :: groups) keys →
    (key, .object members) ∈ group → Carries "value" members value →
    (∀ raw, ¬ Written value raw) → ∀ leaf ∈ entries, leaf.1 ≠ Text.join "." (keys ++ [key]) ∧
      ¬ Text.join "." (keys ++ [key]) ++ ['.'] <+: leaf.1

theorem flattens_flatten {root : Keyed (Json R)} (hroot : WellNamed (.object root)) :
    Flattens root (flatten root) := by
  have hmem (leaf : Text × Entry R) : leaf ∈ flatten root ↔
      ∃ keys, LeafAt root keys leaf.2 ∧ leaf.1 = Text.join "." keys := by
    refine (Keyed.mem_ofList_of_unique fun entry he other ho hpath => ?_).trans (mem_walk_iff hroot)
    obtain ⟨keys, h, hkeys⟩ := (mem_walk_iff hroot).1 he
    obtain ⟨others, hother, hothers⟩ := (mem_walk_iff hroot).1 ho
    exact Prod.ext hpath (LeafAt.join_inj hroot hother h (hothers ▸ hkeys ▸ hpath)).2
  refine ⟨?_, fun path entry => hmem (path, entry), fun _ _ _ _ => LeafAt.join_inj hroot, ?_⟩
  · exact (Keyed.sorted_iff.1 (Keyed.sorted_ofList _)).imp fun h => h.ne
  · intro group groups keys key members value h hmember hvalue hraw leaf hleaf
    obtain ⟨whole, hwhole, hpath⟩ := (hmem leaf).1 hleaf
    have hnamed : ∀ k ∈ keys ++ [key], '.' ∉ k := by
      intro k hk
      rcases List.mem_append.1 hk with hk | hk
      · exact (h.keys_named hroot k hk).2
      · obtain rfl := List.mem_singleton.1 hk
        exact (h.named hroot hmember).2
    have hne : keys ++ [key] ≠ [] := List.append_ne_nil_of_right_ne_nil _ (List.cons_ne_nil _ _)
    have hsplit : Text.split '.' leaf.1 = whole := by
      rw [hpath, split_join_point (hwhole.keys_named hroot).1 (hwhole.keys_named hroot).2]
    constructor
    · intro heq
      rw [heq, split_join_point hne hnamed] at hsplit
      exact h.not_leafAt_below hroot hmember hvalue hraw [] leaf.2 (hsplit ▸ hwhole)
    · rintro ⟨rest, hrest⟩
      rw [← hrest, List.append_assoc] at hsplit
      have hbelow := (split_join_point_append hne hnamed rest).symm.trans hsplit
      rw [List.append_assoc, List.singleton_append] at hbelow
      exact h.not_leafAt_below hroot hmember hvalue hraw _ leaf.2 (hbelow ▸ hwhole)

/-- A tag that is inherited, a reference with blanks, and a composite value with a member below. -/
def surfacesOverShadow : Keyed (Json Nat) := [
  ("$metadata", .text "surfaces"),
  ("shadow", .object [("blur", .number 4), ("value", .array [.number 1])]),
  ("surfaces", .object [
    ("$type", .text "Color"),
    ("primary", .object [("$value", .text " \x7b paper \x7d ")]),
    ("secondary", .text "\x7bpaper\x7d\x7d")])]

theorem flattens_surfacesOverShadow : WellNamed (.object surfacesOverShadow) ∧
    Flattens surfacesOverShadow [
      ("surfaces.primary", ⟨.reference "paper", some "color"⟩),
      ("surfaces.secondary", ⟨.leaf (.text "\x7bpaper\x7d\x7d"), some "color"⟩)] := by
  have hnamed : WellNamed (.object surfacesOverShadow) := by
    simp [surfacesOverShadow, WellNamed, WellNamedMembers]
  exact ⟨hnamed, flattens_flatten hnamed⟩

end Document

end ThemeTokens
