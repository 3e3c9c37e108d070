import ThemeTokens.Declaration.Value
import ThemeTokens.Proofs.Text

/-!
# Fallbacks

A `var()` in the fallback of another is read where the name before it is not declared, so that of
names in one another the first declared one counts. However a text is written, every fallback is
shorter than the value it stands in, and a reading comes to an end.
-/
namespace ThemeTokens

namespace Text

/-- A piece of a text in which a character does not occur stands before or after the character. -/
theorem isInfix_of_not_mem {w a b : Text} {c : Char} (hc : c ∉ w) (h : w <:+: a ++ c :: b) :
    w <:+: a ∨ w <:+: b := by
  obtain ⟨before, after, h⟩ := h
  rw [List.append_assoc] at h
  rcases List.append_eq_append_iff.1 h with ⟨front, rfl, hfront⟩ | ⟨front, rfl, hfront⟩
  · rcases List.append_eq_append_iff.1 hfront with ⟨more, rfl, -⟩ | ⟨more, rfl, hmore⟩
    · exact .inl ⟨before, more, by simp⟩
    · cases more with
      | nil => exact .inl ⟨before, [], by simp⟩
      | cons d more =>
        obtain ⟨rfl, -⟩ := List.cons.inj hmore
        exact absurd (List.mem_append_right front List.mem_cons_self) hc
  · cases front with
    | nil =>
      cases w with
      | nil => exact .inl (List.nil_infix)
      | cons d w =>
        obtain ⟨rfl, -⟩ := List.cons.inj hfront
        exact absurd List.mem_cons_self hc
    | cons d front =>
      obtain ⟨rfl, rfl⟩ := List.cons.inj hfront
      exact .inr ⟨front, after, by simp⟩

end Text

namespace Declaration

/-! ## Marks -/

/-- A text with `!important` in it, in any case. -/
def IsMarked (t : Text) : Prop := "!important".toList <:+: t.lower

instance (t : Text) : Decidable (IsMarked t) :=
  inferInstanceAs (Decidable ("!important".toList <:+: t.lower))

section
variable {a b : Text} {c : Char} (hc : c.toLower ∉ "!important".toList)
include hc

/-- A mark does not reach over a character that it does not have. -/
theorem IsMarked.of_append_cons (h : IsMarked (a ++ c :: b)) : IsMarked a ∨ IsMarked b := by
  have hlower : Text.lower (a ++ c :: b) = Text.lower a ++ c.toLower :: Text.lower b :=
    List.map_append
  rw [IsMarked, hlower] at h
  exact Text.isInfix_of_not_mem hc h

theorem IsMarked.of_cons (h : IsMarked (c :: b)) : IsMarked b :=
  (IsMarked.of_append_cons (a := []) hc h).resolve_left (by decide)

end

theorem beforeImportant?_eq_none_iff {t : Text} : beforeImportant? t = none ↔ ¬ IsMarked t := by
  induction t with
  | nil => exact iff_of_true rfl fun h => absurd (List.infix_nil.1 h) (by decide)
  | cons c t ih =>
    have hlower : Text.lower ((c :: t).take 10) = (Text.lower (c :: t)).take 10 := List.map_take
    have hprefix : "!important".toList <+: Text.lower (c :: t) ↔
        Text.lower ((c :: t).take 10) = "!important" := by
      rw [List.prefix_iff_eq_take, hlower, eq_comm]
      rfl
    rw [IsMarked, Text.lower, List.map_cons, List.infix_cons_iff, ← List.map_cons, ← Text.lower,
      ← Text.lower, ← IsMarked, hprefix, not_or, ← ih, beforeImportant?]
    cases beforeImportant? t with
    | none => simp only [ite_eq_right_iff, reduceCtorEq, imp_false, and_true]
    | some before => simp only [reduceCtorEq, and_false]

theorem plainValue_of_not_marked {t : Text} (h : ¬ IsMarked t.trim) : plainValue t = t.trim := by
  rw [plainValue, beforeImportant?_eq_none_iff.2 h]

/-! ## Readings -/

/-- A `var()` around a body. -/
def variableText (body : Text) : Text := "var(" ++ body ++ ")"

theorem variableBody?_eq_some_iff {t body : Text} :
    variableBody? t = some body ↔ t = variableText body := by
  rw [variableBody?, Option.bind_eq_some_iff]
  simp only [Text.after?_eq_some_iff, Text.beforeLast?_eq_some_iff]
  constructor
  · rintro ⟨rest, rfl, rfl⟩
    rfl
  · rintro rfl
    exact ⟨body ++ [')'], rfl, rfl⟩

/-- How a text is read, and how many fallbacks are read on the way. -/
inductive ReadsAs (declared : Text → Bool) : ℕ → Text → RawValue Text → Prop
  | leaf {t : Text} (hat : (plainValue t).head? ≠ some '@')
      (hvariable : ∀ body, plainValue t ≠ variableText body) :
      ReadsAs declared 0 t (.leaf (plainValue t))
  | name {t name : Text} (h : plainValue t = '@' :: name) :
      ReadsAs declared 0 t (.reference (normalizeName name))
  | alone {t name : Text} (h : plainValue t = variableText name) (hcomma : ',' ∉ name) :
      ReadsAs declared 0 t (.reference (normalizeName name))
  | declared {t name fallback : Text} (h : plainValue t = variableText (name ++ ',' :: fallback))
      (hcomma : ',' ∉ name) (hname : declared (normalizeName name) = true) :
      ReadsAs declared 0 t (.reference (normalizeName name))
  | fallback {t name fallback : Text} {n : ℕ} {raw : RawValue Text}
      (h : plainValue t = variableText (name ++ ',' :: fallback)) (hcomma : ',' ∉ name)
      (hname : declared (normalizeName name) = false) (hraw : ReadsAs declared n fallback raw) :
      ReadsAs declared (n + 1) t raw

section
variable {declared : Text → Bool} {t u : Text} {n : ℕ} {raw : RawValue Text}

theorem rawValue_eq (declared : Text → Bool) (t : Text) : rawValue declared t =
    match (plainValue t).after? "@" with
    | some name => .reference (normalizeName name)
    | none => match variableBody? (plainValue t) with
      | none => .leaf (plainValue t)
      | some body => match body.cutFirst? ',' with
        | none => .reference (normalizeName body)
        | some (name, fallback) =>
          if declared (normalizeName name) then .reference (normalizeName name)
          else rawValue declared fallback := by
  fun_cases rawValue declared t with
  | case1 _ _ name hat => rw [show (plainValue t).after? "@" = some name from hat]
  | case2 _ _ hat hbody =>
    rw [show (plainValue t).after? "@" = none from hat,
      show variableBody? (plainValue t) = none from hbody]
  | case3 _ _ hat body hbody _ hcut =>
    rw [show (plainValue t).after? "@" = none from hat,
      show variableBody? (plainValue t) = some body from hbody]
    dsimp only
    rw [hcut]
  | case4 _ _ hat body hbody _ name fallback hcut _ hname =>
    rw [show (plainValue t).after? "@" = none from hat,
      show variableBody? (plainValue t) = some body from hbody]
    dsimp only
    rw [hcut]
    exact (if_pos hname).symm
  | case5 _ _ hat body hbody _ name fallback hcut _ hname =>
    rw [show (plainValue t).after? "@" = none from hat,
      show variableBody? (plainValue t) = some body from hbody]
    dsimp only
    rw [hcut]
    exact (if_neg hname).symm

/-- Every text is read. -/
theorem exists_readsAs (declared : Text → Bool) (t : Text) :
    ∃ n, ReadsAs declared n t (rawValue declared t) := by
  fun_induction rawValue declared t with
  | case1 t value _ name hat =>
    have hvalue : plainValue t = '@' :: name := Text.after?_eq_some_iff.1 hat
    exact ⟨0, .name hvalue⟩
  | case2 t value _ hat hbody =>
    refine ⟨0, .leaf (fun hhead => ?_) fun body hvalue => ?_⟩
    · obtain ⟨name, hname⟩ := List.head?_eq_some_iff.1 hhead
      rw [Text.after?_eq_some_iff.2 hname] at hat
      cases hat
    · rw [variableBody?_eq_some_iff.2 hvalue] at hbody
      cases hbody
  | case3 t value _ hat body hbody _ hcut =>
    exact ⟨0, .alone (variableBody?_eq_some_iff.1 hbody) (Text.cutFirst?_eq_none_iff.1 hcut)⟩
  | case4 t value _ hat body hbody _ name fallback hcut _ hname =>
    obtain ⟨rfl, hcomma⟩ := Text.cutFirst?_eq_some_iff.1 hcut
    exact ⟨0, .declared (variableBody?_eq_some_iff.1 hbody) hcomma hname⟩
  | case5 t value _ hat body hbody _ name fallback hcut _ hname ih =>
    obtain ⟨rfl, hcomma⟩ := Text.cutFirst?_eq_some_iff.1 hcut
    obtain ⟨n, hraw⟩ := ih
    exact ⟨n + 1, .fallback (variableBody?_eq_some_iff.1 hbody) hcomma (Bool.eq_false_iff.2 hname)
      hraw⟩

theorem ReadsAs.rawValue_eq (h : ReadsAs declared n t raw) : rawValue declared t = raw := by
  have hat {body : Text} : Text.after? (variableText body) "@" = none := rfl
  have hbody {body : Text} : variableBody? (variableText body) = some body :=
    variableBody?_eq_some_iff.2 rfl
  induction h with
  | leaf hhead hvariable =>
    have hat : Text.after? (plainValue _) "@" = none :=
      Option.eq_none_iff_forall_ne_some.2 fun name hname =>
        hhead (congrArg List.head? (Text.after?_eq_some_iff.1 hname))
    have hbody : variableBody? (plainValue _) = none :=
      Option.eq_none_iff_forall_ne_some.2 fun body hbody =>
        hvariable body (variableBody?_eq_some_iff.1 hbody)
    rw [Declaration.rawValue_eq, hat, hbody]
  | @name t name h =>
    have hname : Text.after? ('@' :: name) "@" = some name := Text.after?_eq_some_iff.2 rfl
    rw [Declaration.rawValue_eq, h, hname]
  | alone h hcomma =>
    rw [Declaration.rawValue_eq, h, hat, hbody]
    dsimp only
    rw [Text.cutFirst?_eq_none_iff.2 hcomma]
  | declared h hcomma hname =>
    rw [Declaration.rawValue_eq, h, hat, hbody]
    dsimp only
    rw [Text.cutFirst?_append hcomma]
    exact if_pos hname
  | fallback h hcomma hname _ ih =>
    rw [Declaration.rawValue_eq, h, hat, hbody]
    dsimp only
    rw [Text.cutFirst?_append hcomma]
    exact (if_neg (Bool.eq_false_iff.1 hname)).trans ih

theorem length_le_of_readsAs (h : ReadsAs declared n t raw) : 6 * n ≤ t.length := by
  induction h with
  | leaf | name | alone | declared => exact Nat.zero_le _
  | @fallback t name fallback n raw h _ _ _ ih =>
    -- a fallback lacks the four characters of the opening, the comma and the parenthesis
    have hlength := length_plainValue_le t
    rw [h, variableText] at hlength
    simp only [List.length_append, List.length_cons, String.length_toList] at hlength
    change 4 + _ + 1 ≤ _ at hlength
    omega

/-- What is read depends on the value without the blanks around it. -/
theorem ReadsAs.congr (h : ReadsAs declared n t raw) (htu : plainValue u = plainValue t) :
    ReadsAs declared n u raw := by
  cases h with
  | leaf hat hvariable =>
    rw [← htu] at hat hvariable ⊢
    exact .leaf hat hvariable
  | name h => exact .name (htu.trans h)
  | alone h hcomma => exact .alone (htu.trans h) hcomma
  | declared h hcomma hname => exact .declared (htu.trans h) hcomma hname
  | fallback h hcomma hname hraw => exact .fallback (htu.trans h) hcomma hname hraw

/-! ## Names in one another -/

/-- A name that can stand before a fallback. -/
structure IsWritable (name : Text) : Prop where
  comma : ',' ∉ name
  unmarked : ¬ IsMarked name

/-- One `var()` in the fallback of another, with a value in the last of them. -/
def nested (names : List Text) (value : Text) : Text :=
  names.foldr (fun name fallback => "var(--" ++ name ++ ", " ++ fallback ++ ")") value

/-- The key that a name in them refers to. -/
def variableKey (name : Text) : Text := normalizeName ("--" ++ name)

theorem nested_cons (name : Text) (names : List Text) (value : Text) :
    nested (name :: names) value =
      variableText (("--" ++ name) ++ ',' :: ' ' :: nested names value) := by
  simp [nested, variableText]

theorem not_isMarked_nested {names : List Text} {value : Text} (hnames : ∀ n ∈ names, IsWritable n)
    (hvalue : ¬ IsMarked value) : ¬ IsMarked (nested names value) := by
  induction names with
  | nil => exact hvalue
  | cons name names ih =>
    obtain ⟨hname, hnames⟩ := List.forall_mem_cons.1 hnames
    have htext : nested (name :: names) value =
        "var".toList ++ '(' :: '-' :: '-' ::
          (name ++ ',' :: ' ' :: (nested names value ++ [')'])) := by
      simp [nested]
    intro h
    rw [htext] at h
    have hinside := (h.of_append_cons (by decide)).resolve_left (by decide)
    rcases ((hinside.of_cons (by decide)).of_cons (by decide)).of_append_cons (by decide)
      with h | h
    · exact hname.unmarked h
    · rcases (h.of_cons (by decide)).of_append_cons (by decide) with h | h
      · exact ih hnames h
      · exact absurd h (by decide)

theorem trim_variableText (body : Text) : (variableText body).trim = variableText body := by
  refine Text.trim_eq_self_of_ends (fun c hc => ?_) fun c hc => ?_
  · cases hc
    decide
  · rw [variableText, List.getLast?_append] at hc
    cases hc
    decide

/-- Dashes before a name make no difference to it. -/
theorem variableKey_eq {name : Text} (h : ∀ c, name.head? = some c → isBlank c = false) :
    variableKey name = normalizeName name := by
  obtain ⟨front, tail, rfl, htail, hfront⟩ := Text.exists_end isBlank name
  have hlast : ∀ c, ("--".toList ++ front).getLast? = some c → isBlank c = false := by
    intro c hc
    rw [List.getLast?_append] at hc
    cases hlast : front.getLast? with
    | none =>
      rw [hlast] at hc
      cases hc
      decide
    | some d =>
      rw [hlast] at hc
      cases hc
      exact hfront c hlast
  have hdashes : Text.trim ("--".toList ++ (front ++ tail)) = "--".toList ++ front := by
    rw [Text.trim, Text.trimStart, Text.dropWhile_eq_self, Text.trimEnd, ← List.append_assoc,
      Text.dropEndWhile_append htail hlast]
    intro c hc
    cases hc
    decide
  have hname : (front ++ tail).trim = front := by
    rw [Text.trim, Text.trimStart, Text.dropWhile_eq_self h, Text.trimEnd,
      Text.dropEndWhile_append htail hfront]
  rw [variableKey, normalizeName, normalizeName, hdashes, hname]
  rfl

theorem plainValue_nested {name : Text} {names : List Text} {value : Text}
    (hnames : ∀ n ∈ name :: names, IsWritable n) (hvalue : ¬ IsMarked value) :
    plainValue (nested (name :: names) value) = nested (name :: names) value := by
  have htrim : (nested (name :: names) value).trim = nested (name :: names) value := by
    rw [nested_cons, trim_variableText]
  rw [plainValue_of_not_marked (htrim.symm ▸ not_isMarked_nested hnames hvalue), htrim]

theorem rawValue_nested (declared : Text → Bool) {names : List Text} {value : Text}
    (hnames : ∀ n ∈ names, IsWritable n) (hvalue : ¬ IsMarked value) :
    rawValue declared (nested names value) =
      match names.find? fun name => declared (variableKey name) with
      | some name => .reference (variableKey name)
      | none => rawValue declared value := by
  induction names with
  | nil => rfl
  | cons name names ih =>
    have hplain := plainValue_nested hnames hvalue
    rw [nested_cons] at hplain
    obtain ⟨hname, hnames⟩ := List.forall_mem_cons.1 hnames
    have hcomma : ',' ∉ "--".toList ++ name := List.not_mem_append (by decide) hname.comma
    rw [nested_cons]
    cases hdeclared : declared (variableKey name) with
    | true =>
      rw [(ReadsAs.declared hplain hcomma hdeclared).rawValue_eq]
      simp only [List.find?_cons, hdeclared]
      rfl
    | false =>
      obtain ⟨n, hraw⟩ := exists_readsAs declared (nested names value)
      have hblank : plainValue (' ' :: nested names value) = plainValue (nested names value) := by
        rw [plainValue, plainValue, Text.trim_cons (by decide)]
      rw [(ReadsAs.fallback hplain hcomma hdeclared (hraw.congr hblank)).rawValue_eq, ih hnames]
      simp only [List.find?_cons, hdeclared]

/-- Of names in one another the first declared one is meant, and the value where none is. Every text
has one reading, and a reading is no longer than the text has room for. -/
theorem fallbacks_settled (declared : Text → Bool) :
    (∀ names value, (∀ name ∈ names, IsWritable name) → ¬ IsMarked value →
      rawValue declared (nested names value) =
        match names.find? fun name => declared (variableKey name) with
        | some name => .reference (variableKey name)
        | none => rawValue declared value) ∧
      (∀ name : Text, (∀ c, name.head? = some c → isBlank c = false) →
        variableKey name = normalizeName name) ∧
      ∀ t, (∃ n, ReadsAs declared n t (rawValue declared t)) ∧
        ∀ n raw, ReadsAs declared n t raw → raw = rawValue declared t ∧ 6 * n ≤ t.length :=
  ⟨fun _ _ => rawValue_nested declared, fun _ => variableKey_eq, fun t =>
    ⟨exists_readsAs declared t, fun _ _ h => ⟨h.rawValue_eq.symm, length_le_of_readsAs h⟩⟩⟩

def layers : List Text := ["a", "Win-BG", " c"]

/-- A value with a comma and parentheses of its own. -/
def lastLayer : Text := "var(--D, f(1, 2))"

/-- The second name is declared, or none of them. -/
theorem fallbacks_settled_layers :
    (∀ name ∈ layers, IsWritable name) ∧ ¬ IsMarked lastLayer ∧
      rawValue (· = "win_bg".toList) (nested layers lastLayer) = .reference "win_bg" ∧
      rawValue (fun _ => false) (nested layers lastLayer) =
        rawValue (fun _ => false) lastLayer := by
  have hlayers : ∀ name ∈ layers, ',' ∉ name ∧ ¬ IsMarked name :=
    List.all_iff_forall_prop.1 (by decide +kernel)
  have hnames : ∀ name ∈ layers, IsWritable name :=
    fun name hname => ⟨(hlayers name hname).1, (hlayers name hname).2⟩
  have hvalue : ¬ IsMarked lastLayer := by decide +kernel
  refine ⟨hnames, hvalue, ?_, ?_⟩
  · have hfind : (layers.find? fun name => decide (variableKey name = "win_bg".toList)) =
        some "Win-BG".toList := by decide
    rw [(fallbacks_settled _).1 layers lastLayer hnames hvalue, hfind]
    have hkey : variableKey "Win-BG" = "win_bg" := by decide
    exact congrArg RawValue.reference hkey
  · rw [(fallbacks_settled _).1 layers lastLayer hnames hvalue]
    rfl

end

end Declaration

end ThemeTokens
