import Mathlib.Data.List.Infix
import ThemeTokens.Declaration.Statement

/-!
# Comments and what is left without them

Stripping replaces the comments of a text from the left, each up to its first close, by one blank.
Nothing that is left is a comment: what stood on either side of one is kept apart by the blank, and
an opening without a close stays what it is. So a text can be stripped piece by piece, wherever no
opening is pending.
-/
namespace ThemeTokens

/-- Two characters in a row, at the head of a text or further on. -/
theorem Text.pair_infix_cons {a b c : Char} {t : Text} :
    [a, b] <:+: c :: t ↔ c = a ∧ t.head? = some b ∨ [a, b] <:+: t := by
  rw [List.infix_cons_iff, List.cons_prefix_cons, eq_comm (a := a)]
  cases t with
  | nil => simp
  | cons d t => simp [eq_comm (a := b)]

namespace Declaration

/-! ## Closes -/

theorem afterClose?_append {body : Text} (h : ¬ ['*', '/'] <:+: body) (rest : Text) :
    afterClose? (body ++ '*' :: '/' :: rest) = some rest := by
  induction body with
  | nil => rfl
  | cons c body ih =>
    obtain ⟨hhead, hbody⟩ := not_or.1 (mt Text.pair_infix_cons.2 h)
    rw [List.cons_append, afterClose?, ih hbody]
    rintro u rfl hu
    cases body with
    | nil => cases hu
    | cons d body =>
      injection hu with hd
      exact hhead ⟨rfl, congrArg some hd⟩

/-- The close that is found is the first one. -/
theorem exists_body_of_afterClose? {t rest : Text} (h : afterClose? t = some rest) :
    ∃ body, t = body ++ '*' :: '/' :: rest ∧ ¬ ['*', '/'] <:+: body := by
  fun_induction afterClose? t with
  | case1 => cases h
  | case2 t =>
    cases h
    exact ⟨[], rfl, by decide⟩
  | case3 c t hopen ih =>
    obtain ⟨body, rfl, hbody⟩ := ih h
    refine ⟨c :: body, rfl, fun hin => ?_⟩
    rcases Text.pair_infix_cons.1 hin with ⟨rfl, hhead⟩ | hin
    · obtain ⟨u, rfl⟩ := List.head?_eq_some_iff.1 hhead
      exact hopen _ rfl rfl
    · exact hbody hin

theorem not_close_of_afterClose? {t : Text} (h : afterClose? t = none) :
    ¬ ['*', '/'] <:+: t := by
  fun_induction afterClose? t with
  | case1 => decide
  | case2 => cases h
  | case3 c t hopen ih =>
    rw [Text.pair_infix_cons]
    rintro (⟨rfl, hhead⟩ | hin)
    · obtain ⟨u, rfl⟩ := List.head?_eq_some_iff.1 hhead
      exact hopen u rfl rfl
    · exact ih h hin

/-! ## Stripping -/

theorem stripComments_cons {c : Char} {t : Text} (h : c = '/' → ∀ u, t ≠ '*' :: u) :
    stripComments (c :: t) = c :: stripComments t := by
  rw [stripComments]
  rintro u rfl rfl
  exact h rfl u rfl

theorem stripComments_append {t : Text} (h : '/' ∉ t) (rest : Text) :
    stripComments (t ++ rest) = t ++ stripComments rest := by
  induction t with
  | nil => rfl
  | cons c t ih =>
    obtain ⟨hc, ht⟩ := not_or.1 (mt List.mem_cons.2 h)
    rw [List.cons_append, stripComments_cons fun he => absurd he.symm hc, ih ht]
    rfl

/-- A text without an opening, up to a character that cannot complete one. -/
theorem stripComments_semicolon {t : Text} (h : ¬ ['/', '*'] <:+: t) (rest : Text) :
    stripComments (t ++ ';' :: rest) = t ++ ';' :: stripComments rest := by
  induction t with
  | nil => exact stripComments_cons fun he => absurd he (by decide)
  | cons c t ih =>
    obtain ⟨hhead, ht⟩ := not_or.1 (mt Text.pair_infix_cons.2 h)
    rw [List.cons_append, stripComments_cons, ih ht]
    · rfl
    · rintro rfl u hu
      cases t with
      | nil => cases hu
      | cons d t =>
        injection hu with hd
        exact hhead ⟨rfl, congrArg some hd⟩

/-- A complete comment ends at its first close, whatever it says. -/
theorem stripComments_comment {body : Text} (h : ¬ ['*', '/'] <:+: body) (rest : Text) :
    stripComments ('/' :: '*' :: (body ++ '*' :: '/' :: rest)) = ' ' :: stripComments rest := by
  rw [stripComments]
  split
  · next after hafter =>
    rw [afterClose?_append h rest] at hafter
    cases hafter
    rfl
  · next hnone =>
    rw [afterClose?_append h rest] at hnone
    cases hnone

/-! ## Texts with a comment -/

/-- A text with a comment between `front` and `rest`. -/
def withComment (front body rest : Text) : Text :=
  front ++ '/' :: '*' :: (body ++ '*' :: '/' :: rest)

def HasComment (t : Text) : Prop := ∃ front body rest, t = withComment front body rest

theorem HasComment.closes {t : Text} (h : HasComment t) : ['*', '/'] <:+: t := by
  obtain ⟨front, body, rest, rfl⟩ := h
  exact ⟨front ++ '/' :: '*' :: body, rest, by simp [withComment]⟩

theorem not_hasComment_nil : ¬ HasComment [] := by
  rintro ⟨front, body, rest, h⟩
  exact List.append_ne_nil_of_right_ne_nil front (List.cons_ne_nil _ _) h.symm

theorem hasComment_cons {c : Char} {t : Text} : HasComment (c :: t) ↔
    (c = '/' ∧ ∃ u, t = '*' :: u ∧ ['*', '/'] <:+: u) ∨ HasComment t := by
  constructor
  · rintro ⟨front, body, rest, h⟩
    cases front with
    | nil =>
      obtain ⟨rfl, rfl⟩ := List.cons.inj h
      exact .inl ⟨rfl, _, rfl, body, rest, by simp⟩
    | cons d front =>
      obtain ⟨rfl, rfl⟩ := List.cons.inj h
      exact .inr ⟨front, body, rest, rfl⟩
  · rintro (⟨rfl, _, rfl, body, rest, rfl⟩ | ⟨front, body, rest, rfl⟩)
    · exact ⟨[], body, rest, by simp [withComment]⟩
    · exact ⟨c :: front, body, rest, rfl⟩

/-- Only an opening can make a comment of a text that had none. -/
theorem hasComment_cons_of_not_opening {c : Char} {t : Text} (h : c = '/' → ∀ u, t ≠ '*' :: u) :
    HasComment (c :: t) ↔ HasComment t := by
  rw [hasComment_cons]
  refine or_iff_right ?_
  rintro ⟨hc, u, hu, -⟩
  exact h hc u hu

/-- An opening that is never closed is ordinary text, and so is all that follows. -/
theorem not_hasComment_of_open {t : Text} (h : ¬ ['*', '/'] <:+: t) :
    ¬ HasComment ('/' :: '*' :: t) := by
  rw [hasComment_cons, hasComment_cons_of_not_opening fun he => absurd he (by decide)]
  rintro (⟨-, u, hu, hclose⟩ | hin)
  · exact h ((List.cons.inj hu).2 ▸ hclose)
  · exact h hin.closes

/-- Stripping brings no star to the front. -/
theorem head_of_stripComments {t u : Text} (h : stripComments t = '*' :: u) :
    ∃ v, t = '*' :: v := by
  unfold stripComments at h
  split at h
  · cases h
  · split at h
    · injection h with hc
      exact absurd hc (by decide)
    · injection h with hc
      exact absurd hc (by decide)
  · next c v _ =>
    injection h with hc
    exact ⟨v, congrArg (· :: v) hc⟩

theorem not_hasComment_stripComments (t : Text) : ¬ HasComment (stripComments t) := by
  fun_induction stripComments t with
  | case1 => exact not_hasComment_nil
  | case2 t rest h hlength ih =>
    rwa [hasComment_cons_of_not_opening fun he => absurd he (by decide)]
  | case3 t h => exact not_hasComment_of_open (not_close_of_afterClose? h)
  | case4 c t hopen ih =>
    rwa [hasComment_cons_of_not_opening]
    rintro rfl u hu
    obtain ⟨v, rfl⟩ := head_of_stripComments hu
    exact hopen v rfl rfl

theorem stripComments_eq_self {t : Text} (h : ¬ HasComment t) : stripComments t = t := by
  fun_induction stripComments t with
  | case1 => rfl
  | case2 t rest hrest _ _ =>
    obtain ⟨body, rfl, -⟩ := exists_body_of_afterClose? hrest
    exact absurd ⟨[], body, rest, rfl⟩ h
  | case3 => rfl
  | case4 c t hopen ih => rw [ih (mt (fun ht => hasComment_cons.2 (.inr ht)) h)]

/-! ## Piece by piece -/

/-- Where the text before leaves no opening behind, what follows is stripped on its own. -/
theorem stripComments_append_of_closed {p q : Text} (hp : ¬ ['/', '*'] <:+: stripComments p)
    (hq : q.head? ≠ some '*') : stripComments (p ++ q) = stripComments p ++ stripComments q := by
  fun_induction stripComments p with
  | case1 => rfl
  | case2 t rest hrest _ ih =>
    obtain ⟨body, rfl, hbody⟩ := exists_body_of_afterClose? hrest
    obtain ⟨-, hp⟩ := not_or.1 (mt Text.pair_infix_cons.2 hp)
    have htext : '/' :: '*' :: (body ++ '*' :: '/' :: rest) ++ q =
        '/' :: '*' :: (body ++ '*' :: '/' :: (rest ++ q)) := by simp
    rw [htext, stripComments_comment hbody, ih hp]
    rfl
  | case3 t h => exact absurd (List.prefix_append ['/', '*'] t).isInfix hp
  | case4 c t hopen ih =>
    obtain ⟨-, hp⟩ := not_or.1 (mt Text.pair_infix_cons.2 hp)
    rw [List.cons_append, stripComments_cons, ih hp]
    · rfl
    · rintro rfl u hu
      cases t with
      | nil => exact hq (congrArg List.head? hu)
      | cons d t =>
        injection hu with hd
        exact hopen t rfl (hd ▸ rfl)

/-! ## The first comment -/

/-- The comment that opens first, up to the close that comes first. -/
structure IsFirstComment (t front body rest : Text) : Prop where
  text : t = withComment front body rest
  leftmost : ∀ front' body' rest', t = withComment front' body' rest' →
    front.length ≤ front'.length
  shortest : ∀ body' rest', t = withComment front body' rest' → body.length ≤ body'.length

/-- What is left when one first comment after the other is replaced by a blank. -/
inductive Strips : Text → Text → Prop
  | plain {t : Text} (h : ¬ HasComment t) : Strips t t
  | comment {t front body rest u : Text} (h : IsFirstComment t front body rest)
      (hrest : Strips rest u) : Strips t (front ++ ' ' :: u)

theorem IsFirstComment.unique {t front body rest front' body' rest' : Text}
    (h : IsFirstComment t front body rest) (h' : IsFirstComment t front' body' rest') :
    front = front' ∧ body = body' ∧ rest = rest' := by
  have hfront : front.length = front'.length :=
    (h.leftmost _ _ _ h'.text).antisymm (h'.leftmost _ _ _ h.text)
  have htext := h.text.symm.trans h'.text
  obtain ⟨rfl, htail⟩ := List.append_inj htext hfront
  have hbody : body.length = body'.length :=
    (h.shortest _ _ h'.text).antisymm (h'.shortest _ _ h.text)
  simp only [List.cons.injEq, true_and] at htail
  obtain ⟨rfl, hrest⟩ := List.append_inj htail hbody
  simp only [List.cons.injEq, true_and] at hrest
  exact ⟨rfl, rfl, hrest⟩

theorem Strips.unique {t u v : Text} (hu : Strips t u) (hv : Strips t v) : u = v := by
  induction hu generalizing v with
  | plain h =>
    cases hv with
    | plain => rfl
    | comment h' => exact absurd ⟨_, _, _, h'.text⟩ h
  | comment h _ ih =>
    cases hv with
    | plain hnone => exact absurd ⟨_, _, _, h.text⟩ hnone
    | comment h' hrest' =>
      obtain ⟨rfl, rfl, rfl⟩ := h.unique h'
      rw [ih hrest']

theorem isFirstComment_nil {body : Text} (h : ¬ ['*', '/'] <:+: body) (rest : Text) :
    IsFirstComment (withComment [] body rest) [] body rest where
  text := rfl
  leftmost _ _ _ _ := Nat.zero_le _
  shortest body' rest' htext := by
    simp only [withComment, List.nil_append, List.cons.injEq, true_and] at htext
    rcases List.append_eq_append_iff.1 htext with ⟨more, rfl, -⟩ | ⟨more, rfl, hmore⟩
    · rw [List.length_append]
      exact Nat.le_add_right _ _
    · -- a close that came earlier would stand within the body
      match more, hmore with
      | [], _ => rw [List.append_nil]
      | [_], hmore => cases hmore
      | c :: d :: more, hmore =>
        simp only [List.cons_append, List.cons.injEq] at hmore
        obtain ⟨rfl, rfl, -⟩ := hmore
        exact absurd ⟨body', more, by simp⟩ h

theorem IsFirstComment.cons {c : Char} {t front body rest : Text}
    (hopen : c = '/' → ∀ u, t ≠ '*' :: u) (h : IsFirstComment t front body rest) :
    IsFirstComment (c :: t) (c :: front) body rest where
  text := congrArg (c :: ·) h.text
  leftmost front' body' rest' htext := by
    cases front' with
    | nil =>
      obtain ⟨rfl, htail⟩ := List.cons.inj htext
      exact absurd htail (hopen rfl _)
    | cons d front' =>
      exact Nat.succ_le_succ (h.leftmost front' body' rest' (List.cons.inj htext).2)
  shortest body' rest' htext := h.shortest body' rest' (List.cons.inj htext).2

theorem strips_stripComments (t : Text) : Strips t (stripComments t) := by
  fun_induction stripComments t with
  | case1 => exact .plain not_hasComment_nil
  | case2 t rest hrest _ ih =>
    obtain ⟨body, rfl, hbody⟩ := exists_body_of_afterClose? hrest
    exact .comment (isFirstComment_nil hbody rest) ih
  | case3 t h => exact .plain (not_hasComment_of_open (not_close_of_afterClose? h))
  | case4 c t hopen ih =>
    have hopen' : c = '/' → ∀ u, t ≠ '*' :: u := fun hc u hu => hopen u hc hu
    generalize stripComments t = u at ih
    cases ih with
    | plain h => exact .plain (mt (hasComment_cons_of_not_opening hopen').1 h)
    | comment h hrest => exact .comment (h.cons hopen') hrest

theorem strips_iff {t u : Text} : Strips t u ↔ stripComments t = u :=
  ⟨fun h => (strips_stripComments t).unique h, fun h => h ▸ strips_stripComments t⟩

/-- Stripping replaces each first comment from the left and leaves none, so that it changes nothing
when it is done again. A comment after a text that leaves no opening behind is worth one blank
between what is stripped on either side. -/
theorem comments_stripped :
    (∀ t u, Strips t u ↔ stripComments t = u) ∧
      (∀ t, ¬ HasComment (stripComments t)) ∧
      (∀ t, stripComments (stripComments t) = stripComments t) ∧
      ∀ p body q, ¬ ['/', '*'] <:+: stripComments p → ¬ ['*', '/'] <:+: body →
        stripComments (withComment p body q) = stripComments p ++ ' ' :: stripComments q := by
  refine ⟨fun t u => strips_iff, not_hasComment_stripComments,
    fun t => stripComments_eq_self (not_hasComment_stripComments t), fun p body q hp hbody => ?_⟩
  have hopening : ('/' :: '*' :: (body ++ '*' :: '/' :: q)).head? ≠ some '*' :=
    fun h => absurd (Option.some.inj h) (by decide)
  rw [withComment, stripComments_append_of_closed hp hopening, stripComments_comment hbody]

/-- A slash on either side of the delimiters, and an opening that is not closed. -/
theorem comments_stripped_overlapping :
    ¬ ['/', '*'] <:+: stripComments "/**/a/".toList ∧ ¬ ['*', '/'] <:+: "/ /* *".toList ∧
      stripComments (withComment "/**/a/" "/ /* *" "/*/ b") =
        stripComments "/**/a/" ++ ' ' :: stripComments "/*/ b" := by
  have hp : ¬ ['/', '*'] <:+: stripComments "/**/a/".toList := by decide +kernel
  have hbody : ¬ ['*', '/'] <:+: "/ /* *".toList := by decide
  exact ⟨hp, hbody, comments_stripped.2.2.2 _ _ _ hp hbody⟩

end Declaration

end ThemeTokens
