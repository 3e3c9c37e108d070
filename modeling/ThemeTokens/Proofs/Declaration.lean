import ThemeTokens.Proofs.Color.Hex
import ThemeTokens.Proofs.Declaration.Outcome
import ThemeTokens.Proofs.Declaration.Sheet

/-!
# Reading one declaration

A stylesheet that declares one name by a hexadecimal colour gives a draft with that colour in the
slot of the name and nothing else.
-/
namespace ThemeTokens.Declaration

/-! ## Plain values -/

theorem beforeImportant?_eq_none {t : Text} (h : ∀ c ∈ t, c.toLower ≠ '!') :
    beforeImportant? t = none := by
  induction t with
  | nil => rfl
  | cons c t ih =>
    have hhead : Text.lower ((c :: t).take 10) ≠ "!important".toList := by
      intro heq
      exact h c List.mem_cons_self (List.cons.inj heq).1
    rw [beforeImportant?, ih fun d hd => h d (List.mem_cons_of_mem _ hd)]
    exact if_neg hhead

/-- A value that neither is marked as important nor opens like a reference stands for itself. -/
theorem rawValue_eq_leaf (declared : Text → Bool) {t : Text} (htrim : t.trim = t)
    (himportant : ∀ c ∈ t, c.toLower ≠ '!') (hat : t.head? ≠ some '@') (hvar : t.head? ≠ some 'v') :
    rawValue declared t = .leaf t := by
  have hvalue : plainValue t = t := by
    rw [plainValue, htrim, beforeImportant?_eq_none himportant]
  have hopening {first : Char} {rest : Text} (h : t.head? ≠ some first) :
      t.after? (first :: rest) = none := by
    cases t with
    | nil => rfl
    | cons c t => exact if_neg fun he => h (congrArg some he)
  have hname : t.after? "@" = none := hopening hat
  have hbody : variableBody? t = none := by
    have hafter : t.after? "var(" = none := hopening hvar
    rw [variableBody?, hafter]
    rfl
  rw [rawValue]
  split
  · next h =>
    rw [hvalue, hname] at h
    cases h
  · split
    · rw [hvalue]
    · next h =>
      rw [hvalue, hbody] at h
      cases h

section
variable {R : Type} [Number R] (c : Color R)

theorem rawValue_hexText (declared : Text → Bool) :
    rawValue declared c.hexText = .leaf c.hexText := by
  have hhead : c.hexText.head? = some '#' := by
    rw [c.hexText_eq]
    rfl
  refine rawValue_eq_leaf declared (Text.trim_eq_self c.isBlank_hexText)
    (Color.forall_mem_hexText (by decide) (by decide) c) ?_ ?_
  · rw [hhead]
    decide
  · rw [hhead]
    decide

/-! ## The draft -/

/-- The source that declares a name by the hexadecimal text of a colour. -/
def colorSource (name : Text) (c : Color R) : Text := name ++ ": " ++ c.hexText ++ ";"

def colorStatement {name : Text} (h : IsName name) : Written where
  form := .property
  name := name
  value := ' ' :: c.hexText
  isName := h
  inside := by
    refine List.forall_mem_cons.2 ⟨rfl, ?_⟩
    exact Color.forall_mem_hexText (p := fun d => isValueEnd d = false) rfl (by decide) c
  filled := ⟨'#', by rw [c.hexText_eq]; exact .tail _ (.head _), by decide⟩
  uncommented := by
    intro hin
    have hslash : '/' ∈ ' ' :: c.hexText := hin.subset List.mem_cons_self
    have hne : ∀ d ∈ ' ' :: c.hexText, d ≠ '/' := by
      refine List.forall_mem_cons.2 ⟨by decide, ?_⟩
      exact Color.forall_mem_hexText (p := fun d => d ≠ '/') (by decide) (by decide) c
    exact hne '/' hslash rfl

theorem scan_colorSource {name : Text} (h : IsName name) :
    scan (colorSource name c) = [(normalizeName name, c.hexText)] := by
  have hcolon : ": ".toList = [':', ' '] := rfl
  have hsheet : colorSource name c = sheetText [.statement (colorStatement c h)] := by
    rw [colorSource, hcolon, List.append_assoc name, sheetText, List.flatMap_singleton]
    rfl
  have hentry : (colorStatement c h).entry = (normalizeName name, c.hexText) :=
    Prod.ext (colorStatement c h).normalizeName_name.symm
      ((Text.trim_cons (by decide)).trans (Text.trim_eq_self c.isBlank_hexText))
  rw [hsheet, scan_sheetText]
  exact congrArg (fun entry => Keyed.ofList [entry]) hentry

/-! ## The only slot -/

variable {c} {key leaf : Text}

/-- A name of which the only entry is the leaf settles every slot that goes by it. -/
theorem settles_single {suits : Text → Prop} (hleaf : suits leaf) {names : List Text}
    (h : key ∈ names) : Settles [(key, .leaf leaf)] suits names key leaf where
  tried := by
    obtain ⟨before, after, hnames, hbefore⟩ := List.eq_append_cons_of_mem h
    refine ⟨before, after, hnames, fun n hn => .inl ?_⟩
    have hne : n ≠ key := fun he => hbefore (he ▸ hn)
    rw [Keyed.get?, if_neg hne, Keyed.get?]
  leadsTo := ⟨key, .refl, if_pos rfl⟩
  suits := hleaf

theorem unset_single {suits : Text → Prop} {names : List Text} (h : key ∉ names) :
    ∀ name ∈ names, PassedOver [(key, .leaf leaf)] suits name := by
  intro name hname
  have hne : name ≠ key := fun he => h (he ▸ hname)
  exact .inl (by rw [Keyed.get?, if_neg hne, Keyed.get?])

/-- The only name of a source sets the slots that go by it. -/
theorem readDraft_colorSource {name : Text} {slot : ColorSlot} (hname : IsName name)
    (hsolid : c.printed = c)
    (hslot : ∀ s, normalizeName name ∈ colorNames s ↔ s = slot)
    (hscalar : ∀ s : ScalarSlot, normalizeName name ∉ scalarNames s) :
    readDraft (colorSource name c) = .ok (Draft.empty.setColor slot c) := by
  have hscan := scan_colorSource c hname
  have hread : Color.ofLiteral c.hexText = .ok c := (Color.ofLiteral_hexText c).trans
    (congrArg Except.ok hsolid)
  have hentries : entries (scan (colorSource name c)) =
      [(normalizeName name, .leaf c.hexText)] := by
    rw [hscan, entries, Keyed.mapValues, List.map_cons, rawValue_hexText, List.map_nil]
  refine (readDraft_eq_ok_iff (by rw [hscan]; exact List.cons_ne_nil _ _)).2 ?_
  rw [hentries]
  refine ⟨fun s => ?_, fun s => ?_⟩
  · rw [Draft.setColor, Table.color_putColor]
    by_cases hs : s = slot
    · rw [if_pos hs]
      exact .settled (settles_single c.looksLikeLiteral_hexText ((hslot s).2 hs)) hread
    · rw [if_neg hs, Draft.empty, Table.color_ofFn]
      exact .unset (unset_single (mt (hslot s).1 hs))
  · rw [Draft.setColor, Table.scalar_putColor, Draft.empty, Table.scalar_ofFn]
    exact .unset (unset_single (hscalar s))

end

end ThemeTokens.Declaration
