import ThemeTokens.Document.Reader
import ThemeTokens.Proofs.Color.Hex
import ThemeTokens.Proofs.Json
import ThemeTokens.Target.TokenDocument

/-!
# The tree of a printed schema

Every slot has one leaf, at its own path, and nothing else of the document is a leaf.
-/
namespace ThemeTokens

namespace Document
variable {R : Type}

theorem special?_eq_none {key : Text} {members : Keyed (Json R)} (h : key ∉ members.keys)
    (hdollar : '$' :: key ∉ members.keys) : special? key members = none := by
  rw [special?, Keyed.get?_eq_none h, Keyed.get?_eq_none hdollar]
  rfl

theorem mem_entriesBelow {group : Text} {inherited : Option Text} {members : List (Text × Json R)}
    {leaf : Text × Entry R} : leaf ∈ entriesBelow group inherited members ↔
      ∃ member ∈ members, member.1.head? ≠ some '$' ∧
        leaf ∈ entriesAt (memberPath group member.1) inherited member.2 := by
  induction members with
  | nil => simp [entriesBelow]
  | cons member members ih =>
    rw [entriesBelow, List.mem_append, ih]
    by_cases h : member.1.head? = some '$'
    · simp [h]
    · simp [h]

end Document

namespace TokenDocument
open Document Json
variable {R : Type} [Number R]

/-! ## What is printed for a slot -/

def slotName : Slot → Text
  | .color slot => slot.name
  | .scalar slot => slot.name

def slotCategory : Slot → Category
  | .color slot => slot.category
  | .scalar slot => slot.category

def slotKind : Slot → Text
  | .color _ => "color"
  | .scalar _ => "number"

def slotLeaf (s : Schema R) : Slot → Leaf R
  | .color slot => .text (s.color slot).hexText
  | .scalar slot => .number (s.scalar slot)

def slotValue (s : Schema R) : Slot → Json R
  | .color slot => .text (s.color slot).hexText
  | .scalar slot => .number (s.scalar slot)

def slotToken (s : Schema R) (slot : Slot) : Text × Json R :=
  (slotName slot, token (slotKind slot) (slotValue s slot))

def slotEntry (s : Schema R) (slot : Slot) : Entry R :=
  ⟨.leaf (slotLeaf s slot), some (slotKind slot)⟩

theorem path_injective {a b : Slot} (h : a.path = b.path) : a = b := by
  have ha := Slot.ofCanonical?_path a
  rw [h, Slot.ofCanonical?_path b] at ha
  exact (Option.some_inj.1 ha).symm

/-- A colour text is no reference. -/
theorem rawValue?_slotValue (s : Schema R) (slot : Slot) :
    rawValue? (slotValue s slot) = some (.leaf (slotLeaf s slot)) := by
  cases slot with
  | color slot =>
    have href : reference? (s.color slot).hexText = none := by
      rw [reference?, Text.trim_eq_self (s.color slot).isBlank_hexText, Color.hexText_eq]
      rfl
    rw [slotValue, slotLeaf, rawValue?, href]
  | scalar slot => rfl

/-! ## The groups -/

def groupMembers (s : Schema R) (category : Category) : List (Text × Json R) :=
  (ColorSlot.all.filter (·.category = category)).map (colorToken s) ++
    (ScalarSlot.all.filter (·.category = category)).map (scalarToken s)

/-- The members of a document with the given remarks about its schema. -/
def rootMembers (remarks : Json R) (s : Schema R) : List (Text × Json R) :=
  ("$metadata", remarks) :: Category.all.map fun category => (category.name, group s category)

theorem mem_groupMembers {s : Schema R} {category : Category} {member : Text × Json R} :
    member ∈ groupMembers s category ↔
      ∃ slot, slotCategory slot = category ∧ slotToken s slot = member := by
  simp only [groupMembers, List.mem_append, List.mem_map, List.mem_filter, decide_eq_true_eq]
  constructor
  · rintro (⟨slot, ⟨_, hc⟩, rfl⟩ | ⟨slot, ⟨_, hc⟩, rfl⟩)
    · exact ⟨.color slot, hc, rfl⟩
    · exact ⟨.scalar slot, hc, rfl⟩
  · rintro ⟨slot | slot, hc, rfl⟩
    · exact .inl ⟨slot, ⟨ColorSlot.mem_all slot, hc⟩, rfl⟩
    · exact .inr ⟨slot, ⟨ScalarSlot.mem_all slot, hc⟩, rfl⟩

theorem nodup_groupMembers (s : Schema R) (category : Category) :
    ((groupMembers s category).map Prod.fst).Nodup := by
  have hnames : (groupMembers s category).map Prod.fst =
      (ColorSlot.all.filter (·.category = category)).map ColorSlot.name ++
        (ScalarSlot.all.filter (·.category = category)).map ScalarSlot.name := by
    rw [groupMembers, List.map_append, List.map_map, List.map_map]
    rfl
  rw [hnames]
  cases category <;> decide

theorem nodup_rootMembers (remarks : Json R) (s : Schema R) :
    ((rootMembers remarks s).map Prod.fst).Nodup := by
  have hnames : (rootMembers remarks s).map Prod.fst =
      "$metadata".toList :: Category.all.map Category.name := rfl
  rw [hnames]
  decide

theorem head_category_name (category : Category) : category.name.head? ≠ some '$' := by
  cases category <;> decide

theorem slotName_ne (slot : Slot) :
    slotName slot ≠ "value" ∧ slotName slot ≠ "$value" ∧ slotName slot ≠ "type" ∧
      slotName slot ≠ "$type" ∧ (slotName slot).head? ≠ some '$' := by
  rcases slot with slot | slot <;> cases slot <;> decide

/-! ## Leaves -/

theorem entriesAt_token (path : Text) (inherited : Option Text) (s : Schema R) (slot : Slot) :
    entriesAt path inherited (slotToken s slot).2 = [(path, slotEntry s slot)] := by
  have hentry : entriesAt path inherited (slotToken s slot).2 =
      entryAt path (some (slotKind slot)) (slotValue s slot) := by
    cases slot <;> rfl
  rw [hentry, entryAt, rawValue?_slotValue]
  rfl

theorem mem_entriesAt_group {s : Schema R} {path : Text} {inherited : Option Text}
    {category : Category} {leaf : Text × Entry R} :
    leaf ∈ entriesAt path inherited (group s category) ↔
      ∃ slot, slotCategory slot = category ∧
        leaf = (memberPath path (slotName slot), slotEntry s slot) := by
  have hkeys : ∀ key, key ∈ Keyed.keys (Keyed.ofList (groupMembers s category)) →
      ∃ slot, slotName slot = key := by
    intro key hkey
    obtain ⟨member, hmember, rfl⟩ := List.mem_map.1 (Keyed.mem_keys_ofList.1 hkey)
    obtain ⟨slot, _, rfl⟩ := mem_groupMembers.1 hmember
    exact ⟨slot, rfl⟩
  have hvalue : special? "value" (Keyed.ofList (groupMembers s category)) = none := by
    refine special?_eq_none (fun h => ?_) fun h => ?_
    · obtain ⟨slot, hslot⟩ := hkeys _ h
      exact (slotName_ne slot).1 hslot
    · obtain ⟨slot, hslot⟩ := hkeys _ h
      exact (slotName_ne slot).2.1 hslot
  change leaf ∈ entriesAt path inherited (.object (Keyed.ofList (groupMembers s category))) ↔ _
  rw [entriesAt, hvalue]
  refine mem_entriesBelow.trans ?_
  constructor
  · rintro ⟨member, hmember, _, hleaf⟩
    obtain ⟨slot, hslot, rfl⟩ := mem_groupMembers.1 (Keyed.mem_of_mem_ofList hmember)
    rw [entriesAt_token] at hleaf
    exact ⟨slot, hslot, List.mem_singleton.1 hleaf⟩
  · rintro ⟨slot, hslot, rfl⟩
    refine ⟨slotToken s slot, (Keyed.mem_ofList (nodup_groupMembers s category)).2
      (mem_groupMembers.2 ⟨slot, hslot, rfl⟩), (slotName_ne slot).2.2.2.2, ?_⟩
    rw [entriesAt_token]
    exact List.mem_singleton.2 rfl

theorem mem_entriesBelow_root {remarks : Json R} {s : Schema R} {inherited : Option Text}
    {leaf : Text × Entry R} :
    leaf ∈ entriesBelow [] inherited (Keyed.ofList (rootMembers remarks s)) ↔
      ∃ slot : Slot, leaf = (slot.path, slotEntry s slot) := by
  have hpath : ∀ slot : Slot,
      memberPath (memberPath [] (slotCategory slot).name) (slotName slot) = slot.path := by
    rintro (slot | slot) <;> cases slot <;> rfl
  refine mem_entriesBelow.trans ?_
  constructor
  · rintro ⟨member, hmember, hdollar, hleaf⟩
    rcases List.mem_cons.1 (Keyed.mem_of_mem_ofList hmember) with rfl | hmember
    · exact absurd rfl hdollar
    · obtain ⟨category, _, rfl⟩ := List.mem_map.1 hmember
      obtain ⟨slot, rfl, rfl⟩ := mem_entriesAt_group.1 hleaf
      exact ⟨slot, by rw [hpath]⟩
  · rintro ⟨slot, rfl⟩
    have hcategory : slotCategory slot ∈ Category.all := by
      rcases slot with slot | slot <;> cases slot <;> decide
    refine ⟨((slotCategory slot).name, group s (slotCategory slot)),
      (Keyed.mem_ofList (nodup_rootMembers remarks s)).2 (List.mem_cons_of_mem _
        (List.mem_map_of_mem hcategory)), ?_, mem_entriesAt_group.2 ⟨slot, rfl, ?_⟩⟩
    · exact head_category_name _
    · rw [hpath]

/-- The leaves of a printed schema are those of its slots, whatever is remarked about it. -/
theorem mem_flatten {remarks : Json R} {s : Schema R} {leaf : Text × Entry R} :
    leaf ∈ flatten (Keyed.ofList (rootMembers remarks s)) ↔
      ∃ slot : Slot, leaf = (slot.path, slotEntry s slot) := by
  refine (Keyed.mem_ofList_of_unique fun entry he other ho hpath => ?_).trans mem_entriesBelow_root
  obtain ⟨slot, rfl⟩ := mem_entriesBelow_root.1 he
  obtain ⟨slot, rfl⟩ := mem_entriesBelow_root.1 ho
  rw [path_injective hpath]

/-! ## The printed text -/

theorem readable_object {depth : Nat} {members : List (Text × Json R)}
    (hdepth : depth + 1 < depthLimit) (h : ∀ member ∈ members, Readable (depth + 1) member.2) :
    Readable depth (object members) :=
  ⟨hdepth, Keyed.sorted_ofList members,
    readableMembers_iff.2 fun member hmember => h member (Keyed.mem_of_mem_ofList hmember)⟩

/-- Remarks about a schema with any texts for where it comes from and for its warnings. -/
def remarks (variant : Variant) (provenance : Option Text) (warnings : List Text) : Json R :=
  object [
    ("generator", .text "tincture"),
    ("provenance", (provenance.map Json.text).getD .null),
    ("variant", .text variant.name),
    ("warnings", .array (warnings.map Json.text))]

theorem metadata_eq (s : Schema R) :
    metadata s = remarks s.variant s.provenance (s.warnings.map Warning.message) := by
  rw [metadata, remarks, List.map_map]
  rfl

theorem readable_remarks (variant : Variant) (provenance : Option Text) (warnings : List Text) :
    Readable 1 (remarks variant provenance warnings : Json R) := by
  refine readable_object (by decide) fun member hmember => ?_
  simp only [List.mem_cons, List.not_mem_nil, or_false] at hmember
  rcases hmember with rfl | rfl | rfl | rfl
  · trivial
  · cases provenance <;> trivial
  · trivial
  · refine ⟨by decide, readableItems_iff.2 fun item hitem => ?_⟩
    obtain ⟨warning, _, rfl⟩ := List.mem_map.1 hitem
    trivial

theorem readable_slotToken {s : Schema R} (h : ∀ slot, ReadsBack (s.scalar slot)) (slot : Slot) :
    Readable 2 (slotToken s slot).2 := by
  refine readable_object (by decide) fun member hmember => ?_
  simp only [List.mem_cons, List.not_mem_nil, or_false] at hmember
  rcases hmember with rfl | rfl
  · trivial
  · cases slot with
    | color slot => trivial
    | scalar slot => exact h slot

theorem readable_root {about : Json R} {s : Schema R} (habout : Readable 1 about)
    (h : ∀ slot, ReadsBack (s.scalar slot)) : Readable 0 (object (rootMembers about s)) := by
  refine readable_object (by decide) fun member hmember => ?_
  rcases List.mem_cons.1 hmember with rfl | hmember
  · exact habout
  · obtain ⟨category, _, rfl⟩ := List.mem_map.1 hmember
    change Readable 1 (object (groupMembers s category))
    refine readable_object (by decide) fun member hm => ?_
    obtain ⟨slot, _, rfl⟩ := mem_groupMembers.1 hm
    exact readable_slotToken h slot

/-- The document of a schema, with other texts for where it comes from and for its warnings. -/
def textWith (provenance : Option Text) (warnings : List Text) (s : Schema R) : Text :=
  (object (rootMembers (remarks s.variant provenance warnings) s)).prettyText ++ "\n"

def text (s : Schema R) : Text := (document s).prettyText ++ "\n"

theorem text_eq_textWith (s : Schema R) :
    text s = textWith s.provenance (s.warnings.map Warning.message) s := by
  rw [textWith, ← metadata_eq]
  rfl

theorem root?_textWith {s : Schema R} (h : ∀ slot, ReadsBack (s.scalar slot))
    (provenance : Option Text) (warnings : List Text) : root? (textWith provenance warnings s) =
      some (Keyed.ofList (rootMembers (remarks s.variant provenance warnings) s)) := by
  have hread : Json.read? (textWith provenance warnings s) =
      some (object (rootMembers (remarks s.variant provenance warnings) s)) :=
    read?_prettyText (readable_root (readable_remarks _ _ _) h) rfl
      (stops_cons (c := '\n') (by decide))
  rw [root?, hread]
  rfl

end TokenDocument

end ThemeTokens
