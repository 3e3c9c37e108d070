import ThemeTokens.Json.Parser
import ThemeTokens.Json.Printer
import ThemeTokens.Proofs.Keyed

/-!
# JSON round trip

A value is printed as a run of tokens with blanks between them, and the automaton puts the tokens
together again, with the members of every object in order. Numbers are read back as far as their own
texts are.
-/
namespace ThemeTokens.Json
variable {R : Type}

/-! ## Tokens of a value -/

mutual

def tokensOf : Json R → List (Token R)
  | .null => [.null]
  | .bool b => [.bool b]
  | .number x => [.number x]
  | .text t => [.text t]
  | .array [] => [.openArray, .closeArray]
  | .array (item :: items) => .openArray :: (tokensOf item ++ tokensOfItems items ++ [.closeArray])
  | .object [] => [.openObject, .closeObject]
  | .object ((key, value) :: members) =>
    .openObject :: .text key :: .colon ::
      (tokensOf value ++ tokensOfMembers members ++ [.closeObject])

/-- The items after the first. -/
def tokensOfItems : List (Json R) → List (Token R)
  | [] => []
  | item :: items => .comma :: (tokensOf item ++ tokensOfItems items)

/-- The members after the first. -/
def tokensOfMembers : List (Text × Json R) → List (Token R)
  | [] => []
  | (key, value) :: members =>
    .comma :: .text key :: .colon :: (tokensOf value ++ tokensOfMembers members)

end

/-! ## Steps of the automaton -/

namespace State

theorem step_comma_items (items : List (Json R)) (stack : List (Frame R))
    (tokens : List (Token R)) : (.comma :: tokens).foldlM step (.afterItem items stack) =
      tokens.foldlM step (.needValue (.items items :: stack)) := rfl

theorem step_member (members : Keyed (Json R)) (key : Text) (stack : List (Frame R))
    (tokens : List (Token R)) :
    (.comma :: .text key :: .colon :: tokens).foldlM step (.afterMember members stack) =
      tokens.foldlM step (.needValue (.member members key :: stack)) := rfl

theorem step_openArray {stack : List (Frame R)} (h : stack.length + 1 < depthLimit)
    (tokens : List (Token R)) : (.openArray :: tokens).foldlM step (.needValue stack) =
      tokens.foldlM step (.arrayStart stack) := by
  simp [step, valueStep, h]

theorem step_openObject {stack : List (Frame R)} (h : stack.length + 1 < depthLimit)
    (tokens : List (Token R)) : (.openObject :: tokens).foldlM step (.needValue stack) =
      tokens.foldlM step (.objectStart stack) := by
  simp [step, valueStep, h]

/-- At the start of an array a value is read as after a comma. -/
theorem step_arrayStart (value : Json R) (stack : List (Frame R)) (tokens : List (Token R)) :
    (tokensOf value ++ tokens).foldlM step (.arrayStart stack) =
      (tokensOf value ++ tokens).foldlM step (.needValue (.items [] :: stack)) := by
  rcases value with _ | _ | _ | _ | ⟨_ | _⟩ | ⟨_ | _⟩ <;> rfl

/-- Whatever is complete in the end is an array or an object. -/
def Enclosed : State R → Prop
  | .needValue stack => stack ≠ []
  | .done (.array _) | .done (.object _) => True
  | .done _ => False
  | _ => True

theorem enclosed_feed (value : Json R) {stack : List (Frame R)} (h : stack ≠ []) :
    Enclosed (feed value stack) := by
  rcases stack with _ | ⟨_ | _, stack⟩
  · exact absurd rfl h
  · trivial
  · trivial

theorem enclosed_feed_array (items : List (Json R)) (stack : List (Frame R)) :
    Enclosed (feed (.array items) stack) := by
  rcases stack with _ | ⟨_ | _, stack⟩ <;> trivial

theorem enclosed_feed_object (members : Keyed (Json R)) (stack : List (Frame R)) :
    Enclosed (feed (.object members) stack) := by
  rcases stack with _ | ⟨_ | _, stack⟩ <;> trivial

theorem Enclosed.valueStep {stack : List (Frame R)} (h : stack ≠ []) {token : Token R}
    {s : State R} (hs : valueStep stack token = some s) : Enclosed s := by
  unfold State.valueStep at hs
  split at hs
  · split at hs <;> cases hs
    trivial
  · split at hs <;> cases hs
    trivial
  · cases hs
    exact enclosed_feed _ h
  · cases hs
    exact enclosed_feed _ h
  · cases hs
    exact enclosed_feed _ h
  · cases hs
    exact enclosed_feed _ h
  · cases hs

theorem Enclosed.step {s s' : State R} (h : Enclosed s) {token : Token R}
    (hs : s.step token = some s') : Enclosed s' := by
  unfold State.step at hs
  split at hs
  · exact Enclosed.valueStep h hs
  · cases hs
    exact enclosed_feed_array _ _
  · exact Enclosed.valueStep (List.cons_ne_nil _ _) hs
  · cases hs
    exact enclosed_feed_object _ _
  · cases hs
    trivial
  · cases hs
    trivial
  · cases hs
    exact List.cons_ne_nil _ _
  · cases hs
    exact List.cons_ne_nil _ _
  · cases hs
    exact enclosed_feed_array _ _
  · cases hs
    trivial
  · cases hs
    exact enclosed_feed_object _ _
  · cases hs

theorem Enclosed.run {s s' : State R} (h : Enclosed s) {tokens : List (Token R)}
    (hs : tokens.foldlM State.step s = some s') : Enclosed s' := by
  induction tokens generalizing s with
  | nil =>
    cases hs
    exact h
  | cons token tokens ih =>
    rw [List.foldlM_cons] at hs
    obtain ⟨next, hnext, hrest⟩ := Option.bind_eq_some_iff.1 hs
    exact ih (h.step hnext) hrest

/-- A value that ends the text is the only one. -/
theorem run_done {value : Json R} {s : State R} {tokens : List (Token R)}
    (hs : tokens.foldlM State.step (.done value) = some s) : tokens = [] ∧ s = .done value := by
  cases tokens with
  | nil =>
    cases hs
    exact ⟨rfl, rfl⟩
  | cons token tokens => cases hs

/-- Only a lone number is read as a number. -/
theorem tokens_of_run_number {tokens : List (Token R)} {x : R}
    (h : tokens.foldlM State.step (.needValue []) = some (.done (.number x))) :
    tokens = [.number x] := by
  rcases tokens with _ | ⟨token, tokens⟩
  · cases h
  · rw [List.foldlM_cons] at h
    obtain ⟨next, hnext, hrest⟩ := Option.bind_eq_some_iff.1 h
    cases token with
    | number y =>
      cases hnext
      obtain ⟨rfl, hvalue⟩ := run_done hrest
      cases hvalue
      rfl
    | openArray =>
      cases hnext
      exact (Enclosed.run (s := .arrayStart []) trivial hrest).elim
    | openObject =>
      cases hnext
      exact (Enclosed.run (s := .objectStart []) trivial hrest).elim
    | null | bool | text =>
      cases hnext
      cases (run_done hrest).2
    | _ => cases hnext

end State

variable [Number R]

/-- The text of a number is read as the number. -/
def ReadsBack (x : R) : Prop := read? (prettyText (.number x)) = some (.number x)

theorem ReadsBack.tokens? {x : R} (h : ReadsBack x) :
    tokens? (numberText x) = some [.number x] := by
  rw [ReadsBack, read?] at h
  obtain ⟨tokens, htokens, hrun⟩ := Option.bind_eq_some_iff.1 h
  obtain ⟨state, hstate, hresult⟩ := Option.bind_eq_some_iff.1 hrun
  rcases state with _ | _ | _ | _ | _ | _ | _ | value
  case done =>
    cases hresult
    rw [State.tokens_of_run_number hstate] at htokens
    exact htokens
  all_goals cases hresult

mutual

/-- Values inside so many open containers that the reader accepts as the printer writes them. -/
def Readable (depth : Nat) : Json R → Prop
  | .number x => ReadsBack x
  | .array items => depth + 1 < depthLimit ∧ ReadableItems (depth + 1) items
  | .object members =>
    depth + 1 < depthLimit ∧ Keyed.Sorted members ∧ ReadableMembers (depth + 1) members
  | _ => True

def ReadableItems (depth : Nat) : List (Json R) → Prop
  | [] => True
  | item :: items => Readable depth item ∧ ReadableItems depth items

def ReadableMembers (depth : Nat) : List (Text × Json R) → Prop
  | [] => True
  | (_, value) :: members => Readable depth value ∧ ReadableMembers depth members

end

mutual

/-- Values inside so many open containers that the reader accepts, in whatever order the members of
their objects stand. -/
def Accepted (depth : Nat) : Json R → Prop
  | .number x => ReadsBack x
  | .array items => depth + 1 < depthLimit ∧ AcceptedItems (depth + 1) items
  | .object members => depth + 1 < depthLimit ∧ AcceptedMembers (depth + 1) members
  | _ => True

def AcceptedItems (depth : Nat) : List (Json R) → Prop
  | [] => True
  | item :: items => Accepted depth item ∧ AcceptedItems depth items

def AcceptedMembers (depth : Nat) : List (Text × Json R) → Prop
  | [] => True
  | (_, value) :: members => Accepted depth value ∧ AcceptedMembers depth members

end

theorem readableItems_iff {depth : Nat} {items : List (Json R)} :
    ReadableItems depth items ↔ ∀ item ∈ items, Readable depth item := by
  induction items with
  | nil => simp [ReadableItems]
  | cons item items ih => simp [ReadableItems, ih]

theorem readableMembers_iff {depth : Nat} {members : List (Text × Json R)} :
    ReadableMembers depth members ↔ ∀ member ∈ members, Readable depth member.2 := by
  induction members with
  | nil => simp [ReadableMembers]
  | cons member members ih => simp [ReadableMembers, ih]

theorem acceptedMembers_iff {depth : Nat} {members : List (Text × Json R)} :
    AcceptedMembers depth members ↔ ∀ member ∈ members, Accepted depth member.2 := by
  induction members with
  | nil => simp [AcceptedMembers]
  | cons member members ih => simp [AcceptedMembers, ih]

/-! ## Members in order -/

mutual

/-- The value with the members of every object in order. -/
def arranged : Json R → Json R
  | .array items => .array (arrangedItems items)
  | .object members => .object (Keyed.ofList (arrangedMembers members))
  | value => value

def arrangedItems : List (Json R) → List (Json R)
  | [] => []
  | item :: items => arranged item :: arrangedItems items

def arrangedMembers : List (Text × Json R) → List (Text × Json R)
  | [] => []
  | (key, value) :: members => (key, arranged value) :: arrangedMembers members

end

mutual

theorem Readable.accepted : ∀ {value : Json R} {depth : Nat}, Readable depth value →
    Accepted depth value
  | .null, _, _ | .bool _, _, _ | .text _, _, _ => trivial
  | .number _, _, h => h
  | .array _, _, h => ⟨h.1, ReadableItems.accepted h.2⟩
  | .object _, _, h => ⟨h.1, ReadableMembers.accepted h.2.2⟩

theorem ReadableItems.accepted : ∀ {items : List (Json R)} {depth : Nat},
    ReadableItems depth items → AcceptedItems depth items
  | [], _, _ => trivial
  | _ :: _, _, h => ⟨Readable.accepted h.1, ReadableItems.accepted h.2⟩

theorem ReadableMembers.accepted : ∀ {members : List (Text × Json R)} {depth : Nat},
    ReadableMembers depth members → AcceptedMembers depth members
  | [], _, _ => trivial
  | (_, _) :: _, _, h => ⟨Readable.accepted h.1, ReadableMembers.accepted h.2⟩

end

mutual

/-- What is readable stands in order already. -/
theorem Readable.arranged_eq : ∀ {value : Json R} {depth : Nat}, Readable depth value →
    arranged value = value
  | .null, _, _ | .bool _, _, _ | .text _, _, _ | .number _, _, _ => rfl
  | .array _, _, h => by rw [arranged, ReadableItems.arranged_eq h.2]
  | .object _, _, h => by
    rw [arranged, ReadableMembers.arranged_eq h.2.2, h.2.1.ofList_eq]

theorem ReadableItems.arranged_eq : ∀ {items : List (Json R)} {depth : Nat},
    ReadableItems depth items → arrangedItems items = items
  | [], _, _ => rfl
  | _ :: _, _, h => by
    rw [arrangedItems, Readable.arranged_eq h.1, ReadableItems.arranged_eq h.2]

theorem ReadableMembers.arranged_eq : ∀ {members : List (Text × Json R)} {depth : Nat},
    ReadableMembers depth members → arrangedMembers members = members
  | [], _, _ => rfl
  | (_, _) :: _, _, h => by
    rw [arrangedMembers, Readable.arranged_eq h.1, ReadableMembers.arranged_eq h.2]

end

/-! ## The token scanner -/

theorem tokens?_of_all_blank {t : Text} (h : t.dropWhile isBlank = []) :
    tokens? (R := R) t = some [] := by
  rw [tokens?]
  split
  · rfl
  · next h' =>
    rw [h] at h'
    cases h'

/-- The scanner takes the first token after blanks and goes on with the rest. -/
theorem tokens?_of_dropWhile {t u : Text} {c : Char} (h : t.dropWhile isBlank = c :: u) :
    tokens? (R := R) t = (token? (c :: u)).bind fun (token, rest) =>
      (tokens? rest).map (token :: ·) := by
  rw [tokens?]
  split
  · next h' =>
    rw [h] at h'
    cases h'
  · next h' =>
    rw [h] at h'
    obtain ⟨rfl, rfl⟩ := List.cons.inj h'
    split
    · next hnone => rw [hnone]; rfl
    · next hsome => simp only [hsome, Option.bind_some]

theorem tokens?_nil : tokens? (R := R) [] = some [] := tokens?_of_all_blank rfl

theorem tokens?_blank {c : Char} (hc : isBlank c = true) (t : Text) :
    tokens? (R := R) (c :: t) = tokens? t := by
  have hdrop : (c :: t).dropWhile isBlank = t.dropWhile isBlank := List.dropWhile_cons_of_pos hc
  cases h : t.dropWhile isBlank with
  | nil => rw [tokens?_of_all_blank h, tokens?_of_all_blank (hdrop.trans h)]
  | cons d u => rw [tokens?_of_dropWhile h, tokens?_of_dropWhile (hdrop.trans h)]

theorem tokens?_blanks {t : Text} (ht : t.all isBlank = true) (rest : Text) :
    tokens? (R := R) (t ++ rest) = tokens? rest := by
  induction t with
  | nil => rfl
  | cons c t ih =>
    rw [List.all_cons, Bool.and_eq_true] at ht
    rw [List.cons_append, tokens?_blank ht.1, ih ht.2]

theorem tokens?_token {c : Char} {t rest : Text} {token : Token R} (hc : isBlank c = false)
    (h : token? (c :: t) = some (token, rest)) :
    tokens? (c :: t) = (tokens? rest).map (token :: ·) := by
  rw [tokens?_of_dropWhile (List.dropWhile_cons_of_neg (by simp [hc])), h]
  rfl

/-! ## Quoted texts -/

theorem hexUnit?_control : ∀ n < 32,
    hexUnit? '0' '0' (Nat.digitChar (n / 16)) (Nat.digitChar (n % 16)) = some n := by
  decide

theorem joinPieces?_unit {n : Nat} (hhigh : isHighSurrogate n = false)
    (hlow : isLowSurrogate n = false) (pieces : List Piece) :
    joinPieces? (.unit n :: pieces) = (joinPieces? pieces).map (Char.ofNat n :: ·) := by
  rcases pieces with _ | ⟨_ | _, pieces⟩ <;> simp [joinPieces?, hhigh, hlow]

/-- A character is written as one piece, which stands for it alone. -/
theorem pieces?_escape (c : Char) (t : Text) :
    ∃ piece, pieces? (escape c ++ t) = prepend (some piece) (pieces? t) ∧
      ∀ pieces, joinPieces? (piece :: pieces) = (joinPieces? pieces).map (c :: ·) := by
  unfold escape
  split
  · exact ⟨.char '"', rfl, fun _ => rfl⟩
  · exact ⟨.char '\\', rfl, fun _ => rfl⟩
  · exact ⟨.char '\x08', rfl, fun _ => rfl⟩
  · exact ⟨.char '\x0c', rfl, fun _ => rfl⟩
  · exact ⟨.char '\n', rfl, fun _ => rfl⟩
  · exact ⟨.char '\x0d', rfl, fun _ => rfl⟩
  · exact ⟨.char '\t', rfl, fun _ => rfl⟩
  · next _ hquote hbackslash _ _ _ _ _ =>
    split
    · next hc =>
      refine ⟨.unit c.toNat, ?_, fun pieces => ?_⟩
      · change pieces? ('\\' :: 'u' :: '0' :: '0' :: _ :: _ :: t) = _
        rw [pieces?, hexUnit?_control c.toNat hc]
        rfl
      · have hhigh : isHighSurrogate c.toNat = false := by
          simp [isHighSurrogate]
          omega
        have hlow : isLowSurrogate c.toNat = false := by
          simp [isLowSurrogate]
          omega
        rw [joinPieces?_unit hhigh hlow, Char.ofNat_toNat]
    · next hc =>
      refine ⟨.char c, ?_, fun _ => rfl⟩
      rw [List.singleton_append, pieces?]
      · rw [if_neg hc]
      · exact hquote
      · exact fun _ _ _ _ _ h _ => hbackslash h
      · exact fun _ _ h _ => hbackslash h

theorem quoted?_escape (t rest : Text) :
    quoted? (t.flatMap escape ++ '"' :: rest) = some (t, rest) := by
  suffices h : ∃ pieces, pieces? (t.flatMap escape ++ '"' :: rest) = some (pieces, rest) ∧
      joinPieces? pieces = some t by
    obtain ⟨pieces, hp, hj⟩ := h
    rw [quoted?, hp]
    simp [hj]
  induction t with
  | nil => exact ⟨[], by rw [List.flatMap_nil, List.nil_append, pieces?], rfl⟩
  | cons c t ih =>
    obtain ⟨pieces, hp, hj⟩ := ih
    obtain ⟨piece, hpiece, hjoin⟩ := pieces?_escape c (t.flatMap escape ++ '"' :: rest)
    refine ⟨piece :: pieces, ?_, by rw [hjoin, hj]; rfl⟩
    rw [List.flatMap_cons, List.append_assoc, hpiece, hp]
    rfl

theorem tokens?_quote (t rest : Text) :
    tokens? (R := R) (quote t ++ rest) = (tokens? rest).map (.text t :: ·) := by
  have htext : quote t ++ rest = '"' :: (t.flatMap escape ++ '"' :: rest) := by
    simp [quote]
  rw [htext]
  refine tokens?_token rfl ?_
  rw [token?, quoted?_escape]
  rfl

/-! ## Numbers in context -/

/-- A text that no number goes on with. -/
def Stops (t : Text) : Prop :=
  ∀ c ∈ t.head?, c.isDigit = false ∧ c ≠ '.' ∧ c ≠ 'e' ∧ c ≠ 'E'

theorem leadingDigits_append (t : Text) {more : Text} (hmore : Stops more) :
    Numeral.leadingDigits (t ++ more) =
      ((Numeral.leadingDigits t).1, (Numeral.leadingDigits t).2 ++ more) := by
  induction t with
  | nil =>
    cases more with
    | nil => rfl
    | cons c more =>
      have hc := (hmore c rfl).1
      simp [Numeral.leadingDigits, hc]
  | cons c t ih =>
    simp only [Numeral.leadingDigits, Prod.mk.injEq] at ih
    by_cases hc : c.isDigit
    · simp [Numeral.leadingDigits, hc, ih]
    · simp [Numeral.leadingDigits, hc]

theorem readWhole?_append {t whole rest more : Text} (h : readWhole? t = some (whole, rest))
    (hmore : Stops more) : readWhole? (t ++ more) = some (whole, rest ++ more) := by
  unfold readWhole? at h ⊢
  rw [leadingDigits_append t hmore]
  generalize Numeral.leadingDigits t = lead at h ⊢
  rcases lead with ⟨_ | ⟨d, _ | ⟨d', digits⟩⟩, after⟩
  · cases h
  · simp at h ⊢
    obtain ⟨rfl, rfl⟩ := h
    exact ⟨rfl, rfl⟩
  · by_cases hd : d = '0'
    · subst hd
      cases h
    · simp [hd] at h ⊢
      obtain ⟨rfl, rfl⟩ := h
      exact ⟨rfl, rfl⟩

theorem readFraction?_append {t fraction rest more : Text}
    (h : readFraction? t = some (fraction, rest)) (hmore : Stops more) :
    readFraction? (t ++ more) = some (fraction, rest ++ more) := by
  unfold readFraction? at h
  split at h
  · next u =>
    rw [List.cons_append, readFraction?, leadingDigits_append u hmore]
    generalize Numeral.leadingDigits u = lead at h ⊢
    rcases lead with ⟨_ | ⟨d, digits⟩, after⟩
    · cases h
    · cases h
      rfl
  · next hpoint =>
    cases h
    have hpoint' : ∀ u, t ++ more = '.' :: u → False := by
      intro u hu
      cases t with
      | nil =>
        cases more with
        | nil => cases hu
        | cons c more => exact (hmore c rfl).2.1 (List.cons.inj hu).1
      | cons c t => exact hpoint t (by rw [(List.cons.inj hu).1])
    rw [readFraction?]
    exact hpoint'

theorem readSign_append (c : Char) (t more : Text) : Numeral.readSign (c :: t ++ more) =
    ((Numeral.readSign (c :: t)).1, (Numeral.readSign (c :: t)).2 ++ more) := by
  by_cases hminus : c = '-'
  · subst hminus
    rfl
  · by_cases hplus : c = '+'
    · subst hplus
      rfl
    · simp [Numeral.readSign, hminus, hplus]

theorem readExponent?_append {t rest more : Text} {exponent : Int}
    (h : readExponent? t = some (exponent, rest)) (hmore : Stops more) :
    readExponent? (t ++ more) = some (exponent, rest ++ more) := by
  cases t with
  | nil =>
    cases h
    cases more with
    | nil => rfl
    | cons c more =>
      have hc := (hmore c rfl).2.2
      rw [List.nil_append, readExponent?, if_neg (not_or.2 hc)]
  | cons c t =>
    rw [readExponent?] at h
    rw [List.cons_append, readExponent?]
    split at h
    · next hc =>
      rw [if_pos hc]
      cases t with
      | nil => simp [Numeral.readSign, Numeral.leadingDigits] at h
      | cons d t =>
        rw [readSign_append]
        dsimp only at h ⊢
        rw [leadingDigits_append _ hmore]
        generalize Numeral.leadingDigits (Numeral.readSign (d :: t)).2 = lead at h ⊢
        rcases lead with ⟨_ | ⟨d', digits⟩, after⟩
        · cases h
        · cases h
          rfl
    · next hc =>
      cases h
      rw [if_neg hc]
      rfl

theorem readUnsigned?_append {negative : Bool} {t rest more : Text} {w : Written}
    (h : readUnsigned? negative t = some (w, rest)) (hmore : Stops more) :
    readUnsigned? negative (t ++ more) = some (w, rest ++ more) := by
  simp only [readUnsigned?, Option.bind_eq_bind, Option.bind_eq_some_iff, Option.pure_def,
    Option.some.injEq, Prod.exists, Prod.mk.injEq] at h
  obtain ⟨whole, u, hwhole, fraction, v, hfraction, exponent, r, hexponent, rfl, rfl⟩ := h
  simp [readUnsigned?, readWhole?_append hwhole hmore, readFraction?_append hfraction hmore,
    readExponent?_append hexponent hmore]

theorem readWritten?_append {t rest more : Text} {w : Written}
    (h : readWritten? t = some (w, rest)) (hmore : Stops more) :
    readWritten? (t ++ more) = some (w, rest ++ more) := by
  cases t with
  | nil => cases h
  | cons c t =>
    by_cases hc : c = '-'
    · subst hc
      exact readUnsigned?_append (t := t) h hmore
    · have hunsigned : ∀ u, readWritten? (c :: u) = readUnsigned? false (c :: u) := by
        intro u
        simp [readWritten?, hc]
      rw [hunsigned] at h
      rw [List.cons_append, hunsigned]
      exact readUnsigned?_append h hmore

theorem head_of_readWritten? {c : Char} {t : Text} {r : Written × Text}
    (h : readWritten? (c :: t) = some r) : c = '-' ∨ c.isDigit = true := by
  by_cases hc : c = '-' ∨ c.isDigit = true
  · exact hc
  · rw [not_or, Bool.not_eq_true] at hc
    have hnone : readWritten? (c :: t) = none := by
      simp [readWritten?, readUnsigned?, readWhole?, Numeral.leadingDigits, hc.1, hc.2]
    rw [hnone] at h
    cases h

/-- A number token comes from the last branch of the scanner, and its text may be followed by
anything that no number goes on with. -/
theorem token?_number_append {c : Char} {t rest more : Text} {x : R}
    (h : token? (c :: t) = some (.number x, rest)) (hmore : Stops more) :
    token? (c :: (t ++ more)) = some (.number x, rest ++ more) := by
  unfold token? at h
  split at h
  case h_11 =>
    simp only [Option.bind_eq_bind, Option.bind_eq_some_iff, Option.pure_def,
      Option.some.injEq, Prod.exists, Prod.mk.injEq, Token.number.injEq] at h
    obtain ⟨w, r, hw, v, hv, rfl, rfl⟩ := h
    have hc := head_of_readWritten? hw
    have hw' := readWritten?_append hw hmore
    rw [List.cons_append] at hw'
    unfold token?
    split
    case h_11 => simp [hw', hv]
    all_goals
      rename_i heq
      rw [(List.cons.inj heq).1] at hc
      exact absurd hc (by decide)
  case h_7 =>
    obtain ⟨q, _, hq⟩ := Option.map_eq_some_iff.1 h
    cases hq
  all_goals cases h

theorem all_blank_of_tokens? {t : Text} (h : tokens? (R := R) t = some []) :
    t.all isBlank = true := by
  rcases hdrop : t.dropWhile isBlank with _ | ⟨c, u⟩
  · rw [← List.takeWhile_append_dropWhile (p := isBlank) (l := t), hdrop, List.append_nil]
    exact List.all_takeWhile
  · rw [tokens?_of_dropWhile hdrop] at h
    obtain ⟨token, _, htoken⟩ := Option.bind_eq_some_iff.1 h
    obtain ⟨tokens, _, htokens⟩ := Option.map_eq_some_iff.1 htoken
    cases htokens

theorem tokens?_number {t more : Text} {x : R} (h : tokens? t = some [.number x])
    (hmore : Stops more) : tokens? (t ++ more) = (tokens? more).map (.number x :: ·) := by
  rcases hdrop : t.dropWhile isBlank with _ | ⟨c, u⟩
  · rw [tokens?_of_all_blank hdrop] at h
    cases h
  · rw [tokens?_of_dropWhile hdrop] at h
    obtain ⟨⟨token, rest⟩, htoken, hrest⟩ := Option.bind_eq_some_iff.1 h
    obtain ⟨tokens, htokens, hcons⟩ := Option.map_eq_some_iff.1 hrest
    obtain ⟨rfl, rfl⟩ := List.cons.inj hcons
    have hdrop' : (t ++ more).dropWhile isBlank = c :: (u ++ more) := by
      rw [List.dropWhile_append, hdrop]
      rfl
    rw [tokens?_of_dropWhile hdrop', token?_number_append htoken hmore, Option.bind_some]
    dsimp only
    rw [tokens?_blanks (all_blank_of_tokens? htokens)]

/-! ## Texts of values -/

theorem stops_cons {c : Char} {t : Text}
    (h : c.isDigit = false ∧ c ≠ '.' ∧ c ≠ 'e' ∧ c ≠ 'E') : Stops (c :: t) := by
  intro d hd
  cases hd
  exact h

theorem stops_lineEnd (depth : Nat) (t : Text) : Stops (lineEnd depth ++ t) :=
  stops_cons (c := '\n') (by decide)

theorem stops_itemsAt (depth : Nat) (items : List (Json R)) {rest : Text} (hrest : Stops rest) :
    Stops (itemsAt depth items ++ rest) := by
  cases items with
  | nil => exact hrest
  | cons item items => exact stops_cons (c := ',') (by decide)

theorem stops_membersAt (depth : Nat) (members : List (Text × Json R)) {rest : Text}
    (hrest : Stops rest) : Stops (membersAt depth members ++ rest) := by
  cases members with
  | nil => exact hrest
  | cons member members => exact stops_cons (c := ',') (by decide)

theorem tokens?_lineEnd (depth : Nat) (t : Text) :
    tokens? (R := R) (lineEnd depth ++ t) = tokens? t := by
  refine tokens?_blanks ?_ t
  rw [List.all_eq_true]
  intro c hc
  rcases List.mem_append.1 hc with hc | hc
  · obtain rfl := List.mem_singleton.1 hc
    rfl
  · obtain rfl := List.eq_of_mem_replicate hc
    rfl

theorem tokens?_openArray (t : Text) :
    tokens? (R := R) ('[' :: t) = (tokens? t).map (.openArray :: ·) :=
  tokens?_token rfl rfl

theorem tokens?_closeArray (t : Text) :
    tokens? (R := R) (']' :: t) = (tokens? t).map (.closeArray :: ·) :=
  tokens?_token rfl rfl

theorem tokens?_openObject (t : Text) :
    tokens? (R := R) ('\x7b' :: t) = (tokens? t).map (.openObject :: ·) :=
  tokens?_token rfl rfl

theorem tokens?_closeObject (t : Text) :
    tokens? (R := R) ('\x7d' :: t) = (tokens? t).map (.closeObject :: ·) :=
  tokens?_token rfl rfl

theorem tokens?_comma (t : Text) :
    tokens? (R := R) (',' :: t) = (tokens? t).map (.comma :: ·) :=
  tokens?_token rfl rfl

theorem tokens?_colon (t : Text) :
    tokens? (R := R) (':' :: ' ' :: t) = (tokens? t).map (.colon :: ·) := by
  rw [tokens?_token rfl rfl, tokens?_blank rfl]

mutual

theorem tokens?_textAt : ∀ (value : Json R) (depth : Nat) (rest : Text), Accepted depth value →
    Stops rest → tokens? (textAt depth value ++ rest) = (tokens? rest).map (tokensOf value ++ ·)
  | .null, _, _, _, _ => tokens?_token rfl rfl
  | .bool true, _, _, _, _ => tokens?_token rfl rfl
  | .bool false, _, _, _, _ => tokens?_token rfl rfl
  | .number _, _, _, h, hrest => tokens?_number (ReadsBack.tokens? h) hrest
  | .text t, _, rest, _, _ => tokens?_quote t rest
  | .array [], _, rest, _, _ => by
    change tokens? ('[' :: ']' :: rest) = _
    rw [tokens?_openArray, tokens?_closeArray, Option.map_map]
    rfl
  | .array (item :: items), depth, rest, h, _ => by
    have hclose : Stops (lineEnd depth ++ ']' :: rest) := stops_lineEnd depth _
    have htext : textAt depth (.array (item :: items)) ++ rest =
        '[' :: (lineEnd (depth + 1) ++ (textAt (depth + 1) item ++
          (itemsAt (depth + 1) items ++ (lineEnd depth ++ ']' :: rest)))) := by
      simp [textAt]
    rw [htext, tokens?_openArray, tokens?_lineEnd,
      tokens?_textAt item _ _ h.2.1 (stops_itemsAt _ items hclose),
      tokens?_itemsAt items _ _ h.2.2 hclose, tokens?_lineEnd, tokens?_closeArray]
    simp only [Option.map_map]
    congr 1
    funext tokens
    simp [tokensOf]
  | .object [], _, rest, _, _ => by
    change tokens? ('\x7b' :: '\x7d' :: rest) = _
    rw [tokens?_openObject, tokens?_closeObject, Option.map_map]
    rfl
  | .object ((key, value) :: members), depth, rest, h, _ => by
    have hclose : Stops (lineEnd depth ++ '\x7d' :: rest) := stops_lineEnd depth _
    have htext : textAt depth (.object ((key, value) :: members)) ++ rest =
        '\x7b' :: (lineEnd (depth + 1) ++ (quote key ++ ':' :: ' ' :: (textAt (depth + 1) value ++
          (membersAt (depth + 1) members ++ (lineEnd depth ++ '\x7d' :: rest))))) := by
      simp [textAt]
    rw [htext, tokens?_openObject, tokens?_lineEnd, tokens?_quote, tokens?_colon,
      tokens?_textAt value _ _ h.2.1 (stops_membersAt _ members hclose),
      tokens?_membersAt members _ _ h.2.2 hclose, tokens?_lineEnd, tokens?_closeObject]
    simp only [Option.map_map]
    congr 1
    funext tokens
    simp [tokensOf]

theorem tokens?_itemsAt : ∀ (items : List (Json R)) (depth : Nat) (rest : Text),
    AcceptedItems depth items → Stops rest →
      tokens? (itemsAt depth items ++ rest) = (tokens? rest).map (tokensOfItems items ++ ·)
  | [], _, rest, _, _ => by simp [itemsAt, tokensOfItems]
  | item :: items, depth, rest, h, hrest => by
    have htext : itemsAt depth (item :: items) ++ rest =
        ',' :: (lineEnd depth ++ (textAt depth item ++ (itemsAt depth items ++ rest))) := by
      simp [itemsAt]
    rw [htext, tokens?_comma, tokens?_lineEnd,
      tokens?_textAt item _ _ h.1 (stops_itemsAt _ items hrest),
      tokens?_itemsAt items _ _ h.2 hrest]
    simp only [Option.map_map]
    congr 1
    funext tokens
    simp [tokensOfItems]

theorem tokens?_membersAt : ∀ (members : List (Text × Json R)) (depth : Nat) (rest : Text),
    AcceptedMembers depth members → Stops rest →
      tokens? (membersAt depth members ++ rest) = (tokens? rest).map (tokensOfMembers members ++ ·)
  | [], _, rest, _, _ => by simp [membersAt, tokensOfMembers]
  | (key, value) :: members, depth, rest, h, hrest => by
    have htext : membersAt depth ((key, value) :: members) ++ rest =
        ',' :: (lineEnd depth ++ (quote key ++ ':' :: ' ' :: (textAt depth value ++
          (membersAt depth members ++ rest)))) := by
      simp [membersAt]
    rw [htext, tokens?_comma, tokens?_lineEnd, tokens?_quote, tokens?_colon,
      tokens?_textAt value _ _ h.1 (stops_membersAt _ members hrest),
      tokens?_membersAt members _ _ h.2 hrest]
    simp only [Option.map_map]
    congr 1
    funext tokens
    simp [tokensOfMembers]

end

/-! ## The automaton on a value -/

mutual

/-- Reading the tokens of a value feeds it, arranged, to the containers that are open. -/
theorem foldlM_tokensOf : ∀ (value : Json R) (stack : List (Frame R)) (tokens : List (Token R)),
    Accepted stack.length value →
      (tokensOf value ++ tokens).foldlM State.step (.needValue stack) =
        tokens.foldlM State.step (State.feed (arranged value) stack)
  | .null, _, _, _ => rfl
  | .bool _, _, _, _ => rfl
  | .number _, _, _, _ => rfl
  | .text _, _, _, _ => rfl
  | .array [], stack, tokens, h => State.step_openArray h.1 (.closeArray :: tokens)
  | .array (item :: items), stack, tokens, h => by
    rw [tokensOf, List.cons_append, State.step_openArray h.1, List.append_assoc,
      List.append_assoc, State.step_arrayStart,
      foldlM_tokensOf item (.items [] :: stack) _ h.2.1, State.feed,
      foldlM_tokensOfItems items _ _ _ h.2.2]
    have hitems : ((arrangedItems items).reverse ++ [arranged item]).reverse =
        arrangedItems (item :: items) := by simp [arrangedItems]
    rw [arranged, ← hitems]
    rfl
  | .object [], stack, tokens, h => State.step_openObject h.1 (.closeObject :: tokens)
  | .object ((key, value) :: members), stack, tokens, h => by
    rw [tokensOf, List.cons_append, State.step_openObject h.1, List.cons_append, List.cons_append]
    change (tokensOf value ++ tokensOfMembers members ++ [Token.closeObject] ++ tokens).foldlM
      State.step (.needValue (.member [] key :: stack)) = _
    rw [List.append_assoc, List.append_assoc,
      foldlM_tokensOf value (.member [] key :: stack) _ h.2.1, State.feed,
      foldlM_tokensOfMembers members _ _ _ h.2.2]
    rfl

theorem foldlM_tokensOfItems : ∀ (items before : List (Json R)) (stack : List (Frame R))
    (tokens : List (Token R)), AcceptedItems (stack.length + 1) items →
      (tokensOfItems items ++ tokens).foldlM State.step (.afterItem before stack) =
        tokens.foldlM State.step (.afterItem ((arrangedItems items).reverse ++ before) stack)
  | [], _, _, _, _ => rfl
  | item :: items, before, stack, tokens, h => by
    rw [tokensOfItems, List.cons_append, State.step_comma_items, List.append_assoc,
      foldlM_tokensOf item (.items before :: stack) _ h.1, State.feed,
      foldlM_tokensOfItems items _ _ _ h.2]
    simp [arrangedItems]

/-- Each member is inserted among those before it. -/
theorem foldlM_tokensOfMembers : ∀ (members : List (Text × Json R)) (before : Keyed (Json R))
    (stack : List (Frame R)) (tokens : List (Token R)),
      AcceptedMembers (stack.length + 1) members →
        (tokensOfMembers members ++ tokens).foldlM State.step (.afterMember before stack) =
          tokens.foldlM State.step (.afterMember ((arrangedMembers members).foldl
            (fun acc entry => acc.insert entry.1 entry.2) before) stack)
  | [], before, _, _, _ => by simp [tokensOfMembers, arrangedMembers]
  | (key, value) :: members, before, stack, tokens, h => by
    rw [tokensOfMembers, List.cons_append, List.cons_append, List.cons_append, State.step_member,
      List.append_assoc, foldlM_tokensOf value (.member before key :: stack) _ h.1, State.feed,
      foldlM_tokensOfMembers members _ _ _ h.2]
    rfl

end

/-- A printed value is read with the members of its objects in order, whatever blanks follow it. -/
theorem read?_prettyText_eq_arranged {value : Json R} (h : Accepted 0 value) {blanks : Text}
    (hblank : blanks.all isBlank = true) (hstops : Stops blanks) :
    read? (prettyText value ++ blanks) = some (arranged value) := by
  have htokens : tokens? (R := R) blanks = some [] := by
    have hb := tokens?_blanks (R := R) hblank []
    rwa [List.append_nil, tokens?_nil] at hb
  have hrun := foldlM_tokensOf value [] [] h
  rw [List.append_nil] at hrun
  rw [read?, prettyText, tokens?_textAt value 0 blanks h hstops, htokens]
  simp [hrun, State.feed, State.result?]

/-- A printed value is read back, whatever blanks follow it. -/
theorem read?_prettyText {value : Json R} (h : Readable 0 value) {blanks : Text}
    (hblank : blanks.all isBlank = true) (hstops : Stops blanks) :
    read? (prettyText value ++ blanks) = some value := by
  rw [read?_prettyText_eq_arranged h.accepted hblank hstops, h.arranged_eq]

end ThemeTokens.Json
