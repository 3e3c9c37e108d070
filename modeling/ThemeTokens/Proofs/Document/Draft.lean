import ThemeTokens.Proofs.Document.Deciders
import ThemeTokens.Proofs.Document.Tree
import ThemeTokens.Proofs.Draft

/-!
# Drafts written as documents

Every assignment of a draft stands under the category and the name of its slot. Canonical paths
outrank all others, so each leaf decides its own slot, in whatever order groups and members stand.
-/
namespace ThemeTokens

/-! ## Tokens -/

namespace Assignment
open TokenDocument
variable {R : Type}

/-- How the value of an assignment is written. -/
inductive Style
  /-- The value alone. -/
  | bare
  /-- An object with the value. -/
  | wrapped
  /-- An object with the value and its type, in either order. -/
  | typed (valueFirst : Bool)
  deriving DecidableEq, Repr

def name (a : Assignment R) : Text := slotName a.slot

/-- Within a category the name tells the slot. -/
theorem slot_eq_of_name_eq {a b : Assignment R}
    (hcategory : slotCategory a.slot = slotCategory b.slot) (hname : a.name = b.name) :
    a.slot = b.slot := by
  apply path_injective
  have hpath : ∀ slot : Slot, slot.path = (slotCategory slot).name ++ "." ++ slotName slot := by
    rintro (slot | slot) <;> rfl
  rw [hpath, hpath, hcategory]
  exact congrArg _ hname

variable [Number R]

def json : Assignment R → Json R
  | .color _ c => .text c.hexText
  | .scalar _ x => .number x

def leaf : Assignment R → Document.Leaf R
  | .color _ c => .text c.hexText
  | .scalar _ x => .number x

def kind? (a : Assignment R) : Style → Option Text
  | .bare | .wrapped => none
  | .typed _ => some (slotKind a.slot)

def token (a : Assignment R) : Style → Json R
  | .bare => a.json
  | .wrapped => .object [("value", a.json)]
  | .typed true => .object [("value", a.json), ("type", .text (slotKind a.slot))]
  | .typed false => .object [("type", .text (slotKind a.slot)), ("value", a.json)]

/-- The member of a group that holds the value. -/
def member (style : Assignment R → Style) (a : Assignment R) : Text × Json R :=
  (a.name, a.token (style a))

/-- What the document has at the path of the slot. -/
def treeEntry (style : Style) (a : Assignment R) : Document.Entry R := ⟨.leaf a.leaf, a.kind? style⟩

/-- What is read there. -/
def readToken (style : Style) (a : Assignment R) : Document.Token R := ⟨a.leaf, a.kind? style⟩

theorem rawValue?_json (a : Assignment R) : Document.rawValue? a.json = some (.leaf a.leaf) := by
  cases a with
  | color slot c =>
    have href : Document.reference? c.hexText = none := by
      rw [Document.reference?, Text.trim_eq_self c.isBlank_hexText, Color.hexText_eq]
      rfl
    rw [json, leaf, Document.rawValue?, href]
  | scalar slot x => rfl

theorem entriesAt_arranged_token (a : Assignment R) (style : Style) (path : Text) :
    Document.entriesAt path none (Json.arranged (a.token style)) =
      [(path, a.treeEntry style)] := by
  have hentry : Document.entriesAt path none (Json.arranged (a.token style)) =
      Document.entryAt path (a.kind? style) a.json := by
    cases a <;> rcases style with _ | _ | _ | _ <;> rfl
  rw [hentry, Document.entryAt, rawValue?_json]
  rfl

theorem color?_readToken {slot : ColorSlot} {c : Color R} (h : c.printed = c) (style : Style) :
    ((color slot c).readToken style).color? = .ok (some c) := by
  have hkind : ((color slot c).readToken style).hasKind Document.colorKinds = true := by
    cases style <;> rfl
  have hleaf : (Document.Leaf.text c.hexText : Document.Leaf R).color = .ok c := by
    rw [Document.Leaf.color, Color.ofLiteral_hexText, h]
    rfl
  rw [Document.Token.color?, if_pos hkind, readToken, leaf, hleaf]
  rfl

theorem scalar?_readToken {slot : ScalarSlot} {x : R} (h : Number.isFinite x = true)
    (style : Style) : ((scalar slot x).readToken style).scalar? = some x := by
  have hkind : ((scalar slot x).readToken style).hasKind Document.scalarKinds = true := by
    cases style <;> rfl
  rw [Document.Token.scalar?, if_pos hkind, readToken, leaf, Document.Leaf.scalar?, if_pos h]

theorem accepted_token {a : Assignment R} (h : a.Exact) (style : Style) :
    Json.Accepted 2 (a.token style) := by
  have hjson : Json.Accepted 2 a.json ∧ Json.Accepted 3 a.json := by
    cases a with
    | color slot c => exact ⟨trivial, trivial⟩
    | scalar slot x => exact ⟨h.2.1, h.2.1⟩
  rcases style with _ | _ | _ | _
  · exact hjson.1
  · exact ⟨by decide, hjson.2, trivial⟩
  · exact ⟨by decide, trivial, hjson.2, trivial⟩
  · exact ⟨by decide, hjson.2, trivial, trivial⟩

end Assignment

/-! ## Layouts -/

namespace Document
open TokenDocument Assignment
variable {R : Type}

/-- The groups of a document, each with what stands in it. -/
abbrev Layout (R : Type) := List (Category × List (Assignment R))

/-- Every assignment of the draft stands in one group, that of its category. -/
structure IsLayout (d : Draft R) (layout : Layout R) : Prop where
  nodup : (layout.map Prod.fst).Nodup
  category : ∀ g ∈ layout, ∀ a ∈ g.2, slotCategory a.slot = g.1
  assignments : (layout.flatMap Prod.snd).Perm d.assignments

theorem memberPath_name (a : Assignment R) :
    memberPath (memberPath [] (slotCategory a.slot).name) a.name = a.slot.path := by
  have hpath : ∀ slot : Slot,
      memberPath (memberPath [] (slotCategory slot).name) (slotName slot) = slot.path := by
    rintro (slot | slot) <;> cases slot <;> rfl
  exact hpath a.slot

section
variable {d : Draft R} {layout : Layout R}

theorem IsLayout.mem_iff (h : IsLayout d layout) {a : Assignment R} :
    a ∈ d.assignments ↔ ∃ g ∈ layout, a ∈ g.2 := by
  rw [← h.assignments.mem_iff, List.mem_flatMap]

theorem IsLayout.nodup_name (h : IsLayout d layout) {g : Category × List (Assignment R)}
    (hg : g ∈ layout) : (g.2.map Assignment.name).Nodup := by
  have hsub : g.2.Sublist (layout.flatMap Prod.snd) := by
    rw [List.flatMap_def]
    exact List.sublist_flatten_of_mem (List.mem_map_of_mem hg)
  have hslots : g.2.Pairwise fun a b => a.slot ≠ b.slot := by
    have hall := (h.assignments.map Assignment.slot).nodup_iff.2 d.nodup_assignments
    exact List.pairwise_map.1 (hall.sublist (hsub.map _))
  refine List.pairwise_map.2 (hslots.imp_of_mem fun ha hb hne hname => hne ?_)
  exact slot_eq_of_name_eq ((h.category g hg _ ha).trans (h.category g hg _ hb).symm) hname

theorem IsLayout.nodup_category (h : IsLayout d layout) :
    (layout.map fun g => g.1.name).Nodup := by
  have hname : Function.Injective Category.name := by
    intro a b
    cases a <;> cases b <;> decide
  have hmap := h.nodup.map hname
  rwa [List.map_map] at hmap

/-- The layout with a group for every category. -/
def byCategory (d : Draft R) : Layout R :=
  Category.all.map fun category =>
    (category, d.assignments.filter fun a => slotCategory a.slot = category)

theorem isLayout_byCategory (d : Draft R) : IsLayout d (byCategory d) where
  nodup := by
    have hcategories : (byCategory d).map Prod.fst = Category.all := rfl
    rw [hcategories]
    decide
  category g hg a ha := by
    obtain ⟨category, -, rfl⟩ := List.mem_map.1 hg
    simpa using (List.mem_filter.1 ha).2
  assignments := by
    have hnodup : d.assignments.Nodup := d.nodup_assignments.of_map
    have hcategory (category : Category) : category ∈ Category.all := by
      cases category <;> decide
    rw [byCategory, List.flatMap_map, List.perm_ext_iff_of_nodup _ hnodup]
    · intro a
      simp [List.mem_flatMap, hcategory]
    · refine List.nodup_flatMap.2 ⟨fun category _ => hnodup.filter _, ?_⟩
      have hdistinct : Category.all.Pairwise (· ≠ ·) := by decide
      refine hdistinct.imp fun hne a ha hb => hne ?_
      simp only [List.mem_filter, decide_eq_true_eq] at ha hb
      exact ha.2.symm.trans hb.2

end

variable [Number R]

/-- The document with these groups. -/
def draftJson (style : Assignment R → Style) (layout : Layout R) : Json R :=
  .object (layout.map fun g => (g.1.name, .object (g.2.map (member style))))

def draftText (style : Assignment R → Style) (layout : Layout R) : Text :=
  (draftJson style layout).prettyText

/-- The members of a group as they are read. -/
def readMembers (style : Assignment R → Style) (group : List (Assignment R)) : Keyed (Json R) :=
  Keyed.ofList (group.map fun a => (a.name, Json.arranged (a.token (style a))))

/-- The groups of a document as they are read. -/
def readGroups (style : Assignment R → Style) (layout : Layout R) : Keyed (Json R) :=
  Keyed.ofList (layout.map fun g => (g.1.name, .object (readMembers style g.2)))

theorem arranged_draftJson (style : Assignment R → Style) (layout : Layout R) :
    Json.arranged (draftJson style layout) = .object (readGroups style layout) := by
  have harranged (members : List (Text × Json R)) : Json.arrangedMembers members =
      members.map fun m => (m.1, Json.arranged m.2) := by
    induction members with
    | nil => rfl
    | cons m members ih => rw [Json.arrangedMembers, ih, List.map_cons]
  simp [draftJson, Json.arranged, harranged, readGroups, readMembers, Function.comp_def, member]

section
variable {d : Draft R} {layout : Layout R} {style : Assignment R → Style}

theorem root?_draftText (hd : ∀ a ∈ d.assignments, a.Exact) (h : IsLayout d layout) :
    root? (draftText style layout) = some (readGroups style layout) := by
  have haccepted : Json.Accepted 0 (draftJson style layout) := by
    refine ⟨by decide, Json.acceptedMembers_iff.2 fun m hm => ?_⟩
    obtain ⟨g, hg, rfl⟩ := List.mem_map.1 hm
    refine ⟨by decide, Json.acceptedMembers_iff.2 fun m hm => ?_⟩
    obtain ⟨a, ha, rfl⟩ := List.mem_map.1 hm
    exact accepted_token (hd a (h.mem_iff.2 ⟨g, hg, ha⟩)) (style a)
  have hread : Json.read? (Json.prettyText (draftJson style layout) ++ []) =
      some (Json.arranged (draftJson style layout)) :=
    Json.read?_prettyText_eq_arranged haccepted rfl (by simp [Json.Stops])
  rw [List.append_nil, arranged_draftJson] at hread
  rw [root?, draftText, hread]
  rfl

/-! ## Leaves -/

theorem special?_readMembers {key : Text} (hkey : key = "value" ∨ key = "type")
    (group : List (Assignment R)) : special? key (readMembers style group) = none := by
  have hname {k : Text} (h : k ∈ (readMembers style group).keys) : ∃ slot, slotName slot = k := by
    have hmem := Keyed.mem_keys_ofList.1 h
    rw [List.map_map] at hmem
    obtain ⟨a, -, rfl⟩ := List.mem_map.1 hmem
    exact ⟨a.slot, rfl⟩
  refine special?_eq_none (fun h => ?_) fun h => ?_
  · obtain ⟨slot, rfl⟩ := hname h
    have hne := slotName_ne slot
    tauto
  · obtain ⟨slot, hslot⟩ := hname h
    exact (slotName_ne slot).2.2.2.2 (by rw [hslot]; rfl)

theorem mem_entriesAt_readMembers (h : IsLayout d layout) {g : Category × List (Assignment R)}
    (hg : g ∈ layout) {path : Text} {leaf : Text × Entry R} :
    leaf ∈ entriesAt path none (.object (readMembers style g.2)) ↔
      ∃ a ∈ g.2, leaf = (memberPath path a.name, a.treeEntry (style a)) := by
  have hkind : ownKind? (readMembers style g.2) = none := by
    rw [ownKind?, special?_readMembers (.inr rfl)]
    rfl
  have hnames := h.nodup_name hg
  rw [entriesAt, special?_readMembers (.inl rfl), hkind]
  refine mem_entriesBelow.trans ?_
  constructor
  · rintro ⟨m, hm, -, hleaf⟩
    obtain ⟨a, ha, rfl⟩ := List.mem_map.1 (Keyed.mem_of_mem_ofList hm)
    rw [Option.or_none, entriesAt_arranged_token] at hleaf
    exact ⟨a, ha, List.mem_singleton.1 hleaf⟩
  · rintro ⟨a, ha, rfl⟩
    refine ⟨_, (Keyed.mem_ofList ?_).2 (List.mem_map_of_mem ha), (slotName_ne a.slot).2.2.2.2, ?_⟩
    · rwa [List.map_map]
    · rw [Option.or_none, entriesAt_arranged_token]
      exact List.mem_singleton.2 rfl

theorem mem_entriesBelow_readGroups (h : IsLayout d layout) {leaf : Text × Entry R} :
    leaf ∈ entriesBelow [] none (readGroups style layout) ↔
      ∃ a ∈ d.assignments, leaf = (a.slot.path, a.treeEntry (style a)) := by
  refine mem_entriesBelow.trans ?_
  constructor
  · rintro ⟨m, hm, -, hleaf⟩
    obtain ⟨g, hg, rfl⟩ := List.mem_map.1 (Keyed.mem_of_mem_ofList hm)
    obtain ⟨a, ha, rfl⟩ := (mem_entriesAt_readMembers h hg).1 hleaf
    refine ⟨a, h.mem_iff.2 ⟨g, hg, ha⟩, ?_⟩
    rw [← memberPath_name, h.category g hg a ha]
  · rintro ⟨a, ha, rfl⟩
    obtain ⟨g, hg, hag⟩ := h.mem_iff.1 ha
    refine ⟨_, (Keyed.mem_ofList ?_).2 (List.mem_map_of_mem hg), head_category_name g.1,
      (mem_entriesAt_readMembers h hg).2 ⟨a, hag, ?_⟩⟩
    · rw [List.map_map]
      exact h.nodup_category
    · rw [← memberPath_name, h.category g hg a hag]

theorem leaves_draftText (hd : ∀ a ∈ d.assignments, a.Exact) (h : IsLayout d layout) :
    leaves (draftText style layout) =
      Keyed.ofList (entriesBelow [] none (readGroups style layout)) := by
  have hname : ∀ category : Category, category.name ≠ "type" ∧ category.name ≠ "$type" := by
    intro category
    cases category <;> decide
  have hkeys {key : Text} (hkey : key ∈ (readGroups style layout).keys) :
      ∃ category : Category, category.name = key := by
    have hmem := Keyed.mem_keys_ofList.1 hkey
    rw [List.map_map] at hmem
    obtain ⟨g, -, rfl⟩ := List.mem_map.1 hmem
    exact ⟨g.1, rfl⟩
  have hkind : ownKind? (readGroups style layout) = none := by
    rw [ownKind?, special?_eq_none]
    · rfl
    · intro hkey
      obtain ⟨category, hcategory⟩ := hkeys hkey
      exact (hname category).1 hcategory
    · intro hkey
      obtain ⟨category, hcategory⟩ := hkeys hkey
      exact (hname category).2 hcategory
  rw [leaves, root?_draftText hd h, Option.getD_some, flatten, hkind]

/-- The leaves of the document are those of the assignments. -/
theorem mem_leaves_draftText (hd : ∀ a ∈ d.assignments, a.Exact) (h : IsLayout d layout)
    {leaf : Text × Entry R} : leaf ∈ leaves (draftText style layout) ↔
      ∃ a ∈ d.assignments, leaf = (a.slot.path, a.treeEntry (style a)) := by
  rw [leaves_draftText hd h]
  refine (Keyed.mem_ofList_of_unique fun entry he other ho hpath => ?_).trans
    (mem_entriesBelow_readGroups h)
  obtain ⟨a, ha, rfl⟩ := (mem_entriesBelow_readGroups h).1 he
  obtain ⟨b, hb, rfl⟩ := (mem_entriesBelow_readGroups h).1 ho
  rw [Draft.eq_of_slot_eq hb ha (path_injective hpath)]

/-! ## The draft -/

section
variable (hd : ∀ a ∈ d.assignments, a.Exact) (h : IsLayout d layout)
include hd h

theorem wins_readToken {a : Assignment R} (ha : a ∈ d.assignments) :
    Wins (leaves (draftText style layout)) a.slot (a.readToken (style a)) := by
  have hsorted : Keyed.Sorted (leaves (draftText style layout) : Keyed (Entry R)) :=
    sorted_leaves _
  have hmem : (a.slot.path, a.treeEntry (style a)) ∈ leaves (draftText style layout) :=
    (mem_leaves_draftText hd h).2 ⟨a, ha, rfl⟩
  have hget := hsorted.get?_of_mem hmem
  refine ⟨a.slot.path, ⟨.canonical, isLeast_standings.2 ⟨⟨List.mem_map_of_mem hmem,
    slotFor?_path a.slot⟩, fun other hother r hr => ?_⟩⟩, ⟨⟨_, .refl, ?_⟩, ?_⟩⟩
  · obtain ⟨entry, hentry, rfl⟩ := List.mem_map.1 hother
    obtain ⟨b, -, rfl⟩ := (mem_leaves_draftText hd h).1 hentry
    rw [slotFor?_path] at hr
    injection hr with hr
    obtain ⟨hslot, hrank⟩ := Prod.mk.inj hr
    exact .inr ⟨hrank, by rw [hslot]⟩
  · rw [absoluteValues, Keyed.get?_mapValues, hget]
    rfl
  · rw [hget]
    rfl

theorem wins_draftText_iff {slot : Slot} {token : Token R} :
    Wins (leaves (draftText style layout)) slot token ↔
      ∃ a ∈ d.assignments, a.slot = slot ∧ token = a.readToken (style a) := by
  constructor
  · intro hwins
    obtain ⟨path, ⟨rank, hleast⟩, -⟩ := id hwins
    obtain ⟨⟨hpath, hslot⟩, -⟩ := isLeast_standings.1 hleast
    obtain ⟨entry, hentry, rfl⟩ := List.mem_map.1 hpath
    obtain ⟨a, ha, rfl⟩ := (mem_leaves_draftText hd h).1 hentry
    rw [slotFor?_path] at hslot
    injection hslot with hslot
    obtain ⟨rfl, -⟩ := Prod.mk.inj hslot
    exact ⟨a, ha, rfl, hwins.unique (wins_readToken hd h ha)⟩
  · rintro ⟨a, ha, rfl, rfl⟩
    exact wins_readToken hd h ha

theorem wins_color_iff {s : ColorSlot} {token : Token R} :
    Wins (leaves (draftText style layout)) (.color s) token ↔ ∃ c, d.color s = some c ∧
      token = (Assignment.color s c).readToken (style (.color s c)) := by
  rw [wins_draftText_iff hd h]
  constructor
  · rintro ⟨a, ha, hslot, rfl⟩
    cases a with
    | scalar slot x => cases hslot
    | color slot c =>
      cases hslot
      exact ⟨c, Draft.color_mem_assignments.1 ha, rfl⟩
  · rintro ⟨c, hc, rfl⟩
    exact ⟨_, Draft.color_mem_assignments.2 hc, rfl, rfl⟩

theorem wins_scalar_iff {s : ScalarSlot} {token : Token R} :
    Wins (leaves (draftText style layout)) (.scalar s) token ↔ ∃ x, d.scalar s = some x ∧
      token = (Assignment.scalar s x).readToken (style (.scalar s x)) := by
  rw [wins_draftText_iff hd h]
  constructor
  · rintro ⟨a, ha, hslot, rfl⟩
    cases a with
    | color slot c => cases hslot
    | scalar slot x =>
      cases hslot
      exact ⟨x, Draft.scalar_mem_assignments.1 ha, rfl⟩
  · rintro ⟨x, hx, rfl⟩
    exact ⟨_, Draft.scalar_mem_assignments.2 hx, rfl, rfl⟩

theorem fills_draftText : Fills (leaves (draftText style layout)) d := by
  have hcolor {s c} (hc : d.color s = some c) :
      ((Assignment.color s c).readToken (style (.color s c))).color? = .ok (some c) :=
    color?_readToken (hd _ (Draft.color_mem_assignments.2 hc)) _
  have hscalar {s x} (hx : d.scalar s = some x) :
      ((Assignment.scalar s x).readToken (style (.scalar s x))).scalar? = some x :=
    scalar?_readToken (hd _ (Draft.scalar_mem_assignments.2 hx)).2.2 _
  refine ⟨?wellFormed, ?color, ?scalar⟩
  case wellFormed =>
    intro s token literal hwins hm
    obtain ⟨c, hc, rfl⟩ := (wins_color_iff hd h).1 hwins
    cases (hcolor hc).symm.trans (Token.color?_eq_error.2 ⟨literal, hm, rfl⟩)
  case color =>
    intro s c
    constructor
    · intro hc
      exact ⟨_, (wins_color_iff hd h).2 ⟨c, hc, rfl⟩, Token.color?_eq_some.1 (hcolor hc)⟩
    · rintro ⟨token, hwins, hread⟩
      obtain ⟨other, hother, rfl⟩ := (wins_color_iff hd h).1 hwins
      cases (hcolor hother).symm.trans (Token.color?_eq_some.2 hread)
      exact hother
  case scalar =>
    intro s x
    constructor
    · intro hx
      exact ⟨_, (wins_scalar_iff hd h).2 ⟨x, hx, rfl⟩, Token.scalar?_eq_some.1 (hscalar hx)⟩
    · rintro ⟨token, hwins, hread⟩
      obtain ⟨other, hother, rfl⟩ := (wins_scalar_iff hd h).1 hwins
      cases (hscalar hother).symm.trans (Token.scalar?_eq_some.2 hread)
      exact hother

theorem readDraft_draftText (hne : d.isEmpty = false) :
    readDraft (draftText style layout) = .ok d := by
  obtain ⟨a, ha⟩ := List.exists_mem_of_ne_nil _ (Draft.assignments_ne_nil hne)
  have hmem : (a.slot.path, a.treeEntry (style a)) ∈ leaves (draftText style layout) :=
    (mem_leaves_draftText hd h).2 ⟨a, ha, rfl⟩
  refine (DraftOutcome.draft (List.ne_nil_of_mem hmem) ?_ (fills_draftText hd h)).readDraft_eq
  refine resolves_of_leaf (sorted_leaves _) fun entry hentry => ?_
  obtain ⟨b, -, rfl⟩ := (mem_leaves_draftText hd h).1 hentry
  exact ⟨b.leaf, rfl⟩

end

end

end Document

end ThemeTokens
