import Mathlib.Data.List.Chain
import ThemeTokens.Reference

/-!
# What a key leads to

Following references from a key is a walk in a graph where every key has at most one successor.
It ends at a leaf, at a key that has no entry, or it comes back to a key it has visited. A resolver
reports exactly this, whatever it remembers from earlier calls.
-/
namespace ThemeTokens
open Relation
variable {α : Type} {entries : Keyed (RawValue α)}

namespace Keyed

/-! ## The walk -/

/-- The entry at a key refers to a target, which need not have an entry. -/
def Refers (entries : Keyed (RawValue α)) (key target : Text) : Prop :=
  entries.get? key = some (.reference target)

def Reaches (entries : Keyed (RawValue α)) : Text → Text → Prop := ReflTransGen (Refers entries)

def LeadsTo (entries : Keyed (RawValue α)) (key : Text) (leaf : α) : Prop :=
  ∃ last, Reaches entries key last ∧ entries.get? last = some (.leaf leaf)

/-- The walk ends at `source`, which refers to a key without an entry. A key that has no entry
itself stands for both. -/
def Dangles (entries : Keyed (RawValue α)) (key reference source : Text) : Prop :=
  (entries.get? key = none ∧ reference = key ∧ source = key) ∨
    (Reaches entries key source ∧ Refers entries source reference ∧ entries.get? reference = none)

/-- The walk comes to a key that leads back to itself. -/
def Revisits (entries : Keyed (RawValue α)) (key : Text) : Prop :=
  ∃ k, Reaches entries key k ∧ TransGen (Refers entries) k k

/-- The first keys of the walk in order, each of them visited once. -/
structure Visits (entries : Keyed (RawValue α)) (key : Text) (path : List Text) : Prop where
  head : path.head? = some key
  linked : path.IsChain (Refers entries)
  distinct : path.Nodup

/-- The walk visits the keys of `tail` and then those of a cycle, of which the last refers back to
`first`. So `first` is the first key that the walk visits again. -/
def FirstCycle (entries : Keyed (RawValue α)) (key first : Text) (others : List Text) : Prop :=
  ∃ tail last, Visits entries key (tail ++ first :: others) ∧
    (first :: others).getLast? = some last ∧ Refers entries last first

theorem refers_unique {key s t : Text} (hs : Refers entries key s) (ht : Refers entries key t) :
    s = t := by
  have h : some (RawValue.reference (α := α) s) = some (.reference t) := hs.symm.trans ht
  injection h with h
  injection h

theorem refers_rightUnique : Relator.RightUnique (Refers entries) := fun _ _ _ => refers_unique

/-- A walk ends at a key that refers to nothing. -/
def Ends (entries : Keyed (RawValue α)) (key last : Text) : Prop :=
  Reaches entries key last ∧ ∀ t, ¬ Refers entries last t

theorem not_refers_of_leaf {key t : Text} {leaf : α} (h : entries.get? key = some (.leaf leaf)) :
    ¬ Refers entries key t := by
  simp [Refers, h]

theorem not_refers_of_none {key t : Text} (h : entries.get? key = none) :
    ¬ Refers entries key t := by
  simp [Refers, h]

theorem Reaches.eq_of_not_refers {key k : Text} (h : Reaches entries key k)
    (hn : ∀ t, ¬ Refers entries key t) : k = key := by
  rcases ReflTransGen.cases_head h with rfl | ⟨t, ht, _⟩
  · rfl
  · exact absurd ht (hn t)

/-- Of two keys on one walk, one leads to the other. -/
theorem Reaches.total {key k l : Text} (hk : Reaches entries key k) (hl : Reaches entries key l) :
    Reaches entries k l ∨ Reaches entries l k :=
  ReflTransGen.total_of_right_unique refers_rightUnique hk hl

theorem Ends.unique {key k l : Text} (hk : Ends entries key k) (hl : Ends entries key l) :
    k = l := by
  rcases hk.1.total hl.1 with h | h
  · exact (h.eq_of_not_refers hk.2).symm
  · exact h.eq_of_not_refers hl.2

/-- Whatever is reached from a cycle lies on a cycle. -/
theorem Reaches.returns {k l : Text} (h : Reaches entries k l)
    (hk : TransGen (Refers entries) k k) : TransGen (Refers entries) l l := by
  induction h with
  | refl => exact hk
  | @tail b c _ hbc ih =>
    obtain ⟨d, hbd, hdb⟩ := TransGen.head'_iff.1 ih
    rw [refers_unique hbd hbc] at hdb
    exact TransGen.tail' hdb hbc

theorem Revisits.not_ends {key last : Text} (hr : Revisits entries key) :
    ¬ Ends entries key last := by
  intro he
  obtain ⟨k, hk, hkk⟩ := hr
  have hll : TransGen (Refers entries) last last := by
    rcases hk.total he.1 with h | h
    · exact h.returns hkk
    · rwa [h.eq_of_not_refers he.2] at hkk
  obtain ⟨t, ht, _⟩ := TransGen.head'_iff.1 hll
  exact he.2 t ht

theorem LeadsTo.of_reaches {key k : Text} {leaf : α} (hk : Reaches entries key k)
    (h : LeadsTo entries k leaf) : LeadsTo entries key leaf := by
  obtain ⟨last, hr, hl⟩ := h
  exact ⟨last, hk.trans hr, hl⟩

theorem LeadsTo.ends {key : Text} {leaf : α} (h : LeadsTo entries key leaf) :
    ∃ last, Ends entries key last ∧ entries.get? last = some (.leaf leaf) := by
  obtain ⟨last, hr, hl⟩ := h
  exact ⟨last, ⟨hr, fun _ => not_refers_of_leaf hl⟩, hl⟩

theorem Dangles.ends {key reference source : Text} (h : Dangles entries key reference source) :
    Ends entries key reference ∧ entries.get? reference = none := by
  rcases h with ⟨hn, rfl, rfl⟩ | ⟨hr, ht, hn⟩
  · exact ⟨⟨.refl, fun _ => not_refers_of_none hn⟩, hn⟩
  · exact ⟨⟨hr.tail ht, fun _ => not_refers_of_none hn⟩, hn⟩

theorem LeadsTo.unique {key : Text} {a b : α} (ha : LeadsTo entries key a)
    (hb : LeadsTo entries key b) : a = b := by
  obtain ⟨k, hk, hka⟩ := ha.ends
  obtain ⟨l, hl, hlb⟩ := hb.ends
  rw [hk.unique hl, hlb] at hka
  injection hka with h
  injection h with h
  exact h.symm

theorem LeadsTo.not_dangles {key reference source : Text} {leaf : α}
    (hl : LeadsTo entries key leaf) : ¬ Dangles entries key reference source := by
  intro hd
  obtain ⟨last, he, hlast⟩ := hl.ends
  rw [he.unique hd.ends.1, hd.ends.2] at hlast
  cases hlast

theorem Dangles.unique {key r s r' s' : Text} (h : Dangles entries key r s)
    (h' : Dangles entries key r' s') : r = r' ∧ s = s' := by
  obtain rfl := h.ends.1.unique h'.ends.1
  refine ⟨rfl, ?_⟩
  -- A source that has an entry cannot be reached from the key after it, which has none.
  have reached {a b : Text} (ha : Refers entries a r) (hb : Refers entries b r)
      (hn : entries.get? r = none) (hab : Reaches entries a b) : b = a := by
    rcases ReflTransGen.cases_head hab with rfl | ⟨t, hat, htb⟩
    · rfl
    · obtain rfl := refers_unique hat ha
      obtain rfl : b = t := Reaches.eq_of_not_refers htb fun _ => not_refers_of_none hn
      exact absurd hb (not_refers_of_none hn)
  rcases h with ⟨hn, rfl, rfl⟩ | ⟨hs, ht, hn⟩ <;> rcases h' with ⟨hn', h1, rfl⟩ | ⟨hs', ht', hn'⟩
  · rfl
  · obtain rfl := hs'.eq_of_not_refers fun _ => not_refers_of_none hn
    exact absurd ht' (not_refers_of_none hn)
  · obtain rfl := hs.eq_of_not_refers fun _ => not_refers_of_none hn'
    exact absurd ht (not_refers_of_none hn')
  · rcases hs.total hs' with h | h
    · exact (reached ht ht' hn h).symm
    · exact reached ht' ht hn h

/-! ## The keys that a walk visits -/

theorem reaches_of_isChain {a b : Text} {path : List Text} (hl : path.IsChain (Refers entries))
    (ha : path.head? = some a) (hb : path.getLast? = some b) : Reaches entries a b := by
  cases path with
  | nil => simp at ha
  | cons c path =>
    obtain rfl : c = a := by simpa using ha
    apply List.relationReflTransGen_of_exists_isChain_cons path hl
    simpa [List.getLast?_eq_some_getLast] using hb

theorem Visits.reaches {key k : Text} {path : List Text} (h : Visits entries key path)
    (hk : k ∈ path) : Reaches entries key k := by
  obtain ⟨p, q, rfl⟩ := List.append_of_mem hk
  have hp : (p ++ [k] ++ q).IsChain (Refers entries) := by simpa using h.linked
  have hh := h.head
  refine reaches_of_isChain hp.left_of_append ?_ (by simp)
  cases p with
  | nil => simpa using hh
  | cons a p => simpa using hh

theorem Visits.reaches_last {key k last : Text} {path : List Text} (h : Visits entries key path)
    (hlast : path.getLast? = some last) (hk : k ∈ path) : Reaches entries k last := by
  obtain ⟨p, q, rfl⟩ := List.append_of_mem hk
  refine reaches_of_isChain h.linked.right_of_append rfl ?_
  simpa [List.getLast?_append] using hlast

theorem Visits.start {key : Text} : Visits entries key [key] := ⟨rfl, .singleton _, by simp⟩

theorem Visits.step {key last next : Text} {path : List Text} (h : Visits entries key path)
    (hlast : path.getLast? = some last) (hr : Refers entries last next) (hn : next ∉ path) :
    Visits entries key (path ++ [next]) := by
  refine ⟨?_, ?_, ?_⟩
  · rw [List.head?_append, h.head]
    rfl
  · refine h.linked.append (.singleton _) ?_
    simp only [hlast, Option.mem_def, List.head?_cons, Option.some.injEq]
    rintro x rfl y rfl
    exact hr
  · rw [List.nodup_append]
    refine ⟨h.distinct, by simp, ?_⟩
    intro a ha b hb
    obtain rfl : b = next := by simpa using hb
    exact fun e => hn (e ▸ ha)

/-- Of two paths along one walk, one continues the other. -/
theorem prefix_total_of_isChain {a : Text} {p q : List Text}
    (hp : (a :: p).IsChain (Refers entries)) (hq : (a :: q).IsChain (Refers entries)) :
    p <+: q ∨ q <+: p := by
  induction p generalizing a q with
  | nil => exact .inl (List.nil_prefix)
  | cons b p ih =>
    cases q with
    | nil => exact .inr (List.nil_prefix)
    | cons c q =>
      obtain ⟨hab, hp⟩ := List.isChain_cons_cons.1 hp
      obtain ⟨hac, hq⟩ := List.isChain_cons_cons.1 hq
      obtain rfl := refers_unique hab hac
      simpa [List.cons_prefix_cons] using ih hp hq

theorem Visits.prefix_total {key : Text} {p q : List Text} (hp : Visits entries key p)
    (hq : Visits entries key q) : p <+: q ∨ q <+: p := by
  obtain ⟨p, rfl⟩ := List.head?_eq_some_iff.1 hp.head
  obtain ⟨q, rfl⟩ := List.head?_eq_some_iff.1 hq.head
  simpa [List.cons_prefix_cons] using prefix_total_of_isChain hp.linked hq.linked

/-- A path whose last key refers to one of its keys is as long as a path can get. -/
theorem Visits.eq_of_prefix {key last k : Text} {p q : List Text} (hq : Visits entries key q)
    (hlast : p.getLast? = some last) (hr : Refers entries last k) (hk : k ∈ p) (hpq : p <+: q) :
    p = q := by
  obtain ⟨r, rfl⟩ := hpq
  cases r with
  | nil => simp
  | cons c r =>
    have hc : Refers entries last c := (List.isChain_append.1 hq.linked).2.2 _ hlast _ rfl
    obtain rfl := refers_unique hr hc
    have := (List.nodup_append.1 hq.distinct).2.2 k hk k (by simp)
    contradiction

theorem dropWhile_ne {k : Text} {tail others : List Text} (h : k ∉ tail) :
    (tail ++ k :: others).dropWhile (· ≠ k) = k :: others := by
  induction tail with
  | nil => simp
  | cons a tail ih =>
    obtain ⟨ha, ht⟩ := not_or.1 (fun e => h (List.mem_cons.2 e))
    have ha : a ≠ k := Ne.symm ha
    simpa [ha] using ih ht

theorem FirstCycle.unique {key f g : Text} {fs gs : List Text}
    (hf : FirstCycle entries key f fs) (hg : FirstCycle entries key g gs) : f :: fs = g :: gs := by
  obtain ⟨tail, last, hv, hlast, hr⟩ := hf
  obtain ⟨tail', last', hv', hlast', hr'⟩ := hg
  have hl : (tail ++ f :: fs).getLast? = some last := by simp [List.getLast?_append, hlast]
  have hl' : (tail' ++ g :: gs).getLast? = some last' := by simp [List.getLast?_append, hlast']
  have he : tail ++ f :: fs = tail' ++ g :: gs := by
    rcases hv.prefix_total hv' with h | h
    · exact hv'.eq_of_prefix hl hr (by simp) h
    · exact (hv.eq_of_prefix hl' hr' (by simp) h).symm
  rw [he, hl'] at hl
  obtain rfl : last' = last := by simpa using hl
  obtain rfl := refers_unique hr hr'
  have hd (t ts) (h : Visits entries key (t ++ f :: ts)) : f ∉ t := fun hm =>
    (List.nodup_append.1 h.distinct).2.2 f hm f (by simp) rfl
  rw [← dropWhile_ne (hd _ _ hv), he, dropWhile_ne (hd _ _ hv')]

theorem FirstCycle.revisits {key first : Text} {others : List Text}
    (h : FirstCycle entries key first others) : Revisits entries key := by
  obtain ⟨tail, last, hv, hlast, hr⟩ := h
  refine ⟨first, hv.reaches (by simp), TransGen.tail' ?_ hr⟩
  exact reaches_of_isChain hv.linked.right_of_append rfl hlast

/-- How a walk comes out. -/
inductive Outcome (entries : Keyed (RawValue α)) (key : Text) : Except ReferenceError α → Prop
  | leaf {leaf : α} (h : LeadsTo entries key leaf) : Outcome entries key (.ok leaf)
  | dangling {reference source : Text} (h : Dangles entries key reference source) :
      Outcome entries key (.error (.unresolved reference source))
  | cycle {first : Text} {others : List Text} (h : FirstCycle entries key first others) :
      Outcome entries key (.error (.cyclic (first :: others)))

theorem Outcome.unique {key : Text} {a b : Except ReferenceError α}
    (ha : Outcome entries key a) (hb : Outcome entries key b) : a = b := by
  cases ha with
  | leaf hl =>
    cases hb with
    | leaf hl' => rw [hl.unique hl']
    | dangling hd => exact absurd hd hl.not_dangles
    | cycle hc =>
      obtain ⟨_, he, _⟩ := hl.ends
      exact absurd he hc.revisits.not_ends
  | dangling hd =>
    cases hb with
    | leaf hl => exact absurd hd hl.not_dangles
    | dangling hd' =>
      obtain ⟨rfl, rfl⟩ := hd.unique hd'
      rfl
    | cycle hc => exact absurd hd.ends.1 hc.revisits.not_ends
  | cycle hc =>
    cases hb with
    | leaf hl =>
      obtain ⟨_, he, _⟩ := hl.ends
      exact absurd he hc.revisits.not_ends
    | dangling hd => exact absurd hd.ends.1 hc.revisits.not_ends
    | cycle hc' => rw [hc.unique hc']

/-! ## Entries that agree -/

section Agree
variable {others : Keyed (RawValue α)} {key : Text}
  (agree : ∀ k, Reaches entries key k → others.get? k = entries.get? k)
include agree

theorem Refers.congr {a b : Text} (ha : Reaches entries key a) (h : Refers entries a b) :
    Refers others a b := (agree a ha).trans h

theorem Reaches.congr {k : Text} (h : Reaches entries key k) : Reaches others key k := by
  induction h with
  | refl => exact .refl
  | tail hab hbc ih => exact ih.tail (Refers.congr agree hab hbc)

theorem LeadsTo.congr {leaf : α} (h : LeadsTo entries key leaf) : LeadsTo others key leaf := by
  obtain ⟨last, hr, hl⟩ := h
  exact ⟨last, hr.congr agree, (agree last hr).trans hl⟩

theorem Dangles.congr {reference source : Text} (h : Dangles entries key reference source) :
    Dangles others key reference source := by
  rcases h with ⟨hn, rfl, rfl⟩ | ⟨hr, ht, hn⟩
  · exact .inl ⟨(agree _ .refl).trans hn, rfl, rfl⟩
  · exact .inr ⟨hr.congr agree, ht.congr agree hr, (agree _ (hr.tail ht)).trans hn⟩

theorem Visits.congr {path : List Text} (h : Visits entries key path) :
    Visits others key path where
  head := h.head
  linked := h.linked.imp_of_mem_imp fun _ _ ha _ hab => hab.congr agree (h.reaches ha)
  distinct := h.distinct

theorem FirstCycle.congr {first : Text} {rest : List Text}
    (h : FirstCycle entries key first rest) : FirstCycle others key first rest := by
  obtain ⟨tail, last, hv, hlast, hr⟩ := h
  have hmem : last ∈ tail ++ first :: rest :=
    List.mem_append_right _ (List.mem_of_getLast? hlast)
  exact ⟨tail, last, hv.congr agree, hlast, hr.congr agree (hv.reaches hmem)⟩

/-- What comes of a walk depends only on the keys that it reaches. -/
theorem Outcome.congr {result : Except ReferenceError α} (h : Outcome entries key result) :
    Outcome others key result := by
  cases h with
  | leaf h => exact .leaf (h.congr agree)
  | dangling h => exact .dangling (h.congr agree)
  | cycle h => exact .cycle (h.congr agree)

end Agree

end Keyed

/-! ## Resolvers -/

namespace Resolver
open Keyed

/-- Each key that a resolver remembers leads to the remembered leaf. -/
def Sound (r : Resolver α) : Prop :=
  ∀ key leaf, r.memo.get? key = some leaf → LeadsTo r.entries key leaf

/-- The resolver after a sequence of calls, whatever came of them. -/
def after (r : Resolver α) (keys : List Text) : Resolver α :=
  keys.foldl (fun r key => (r.resolve key).2) r

/-- What a followed chain must show: a leaf belongs to all of its keys. -/
def Explains (entries : Keyed (RawValue α)) (key : Text) :
    Except ReferenceError (α × List Text) → Prop
  | .ok (leaf, visited) => key ∈ visited ∧ ∀ k ∈ visited, LeadsTo entries k leaf
  | .error e => Outcome entries key (.error e)

/-- The walk so far is the chain, and `current` is its last key. A remembered leaf is the one that
the walk would have come to. -/
theorem follow_explains {memo : Keyed α} {key current : Text} {chain : List Text}
    {value : RawValue α} (hm : ∀ k leaf, memo.get? k = some leaf → LeadsTo entries k leaf)
    (hv : Visits entries key chain) (hlast : chain.getLast? = some current)
    (hval : entries.get? current = some value) :
    Explains entries key (follow entries memo chain current value) := by
  have hkey : key ∈ chain := List.mem_of_mem_head? hv.head
  fun_induction follow entries memo chain current value with
  | case1 chain current value leaf hleaf =>
    exact ⟨hkey, fun k hk => .of_reaches (hv.reaches_last hlast hk) (hm _ _ hleaf)⟩
  | case2 chain current _ leaf =>
    exact ⟨hkey, fun k hk => ⟨current, hv.reaches_last hlast hk, hval⟩⟩
  | case3 chain current _ target hc =>
    obtain ⟨tail, others, rfl, htail⟩ := List.eq_append_cons_of_mem hc
    rw [dropWhile_ne htail]
    refine .cycle ⟨tail, current, hv, ?_, hval⟩
    simpa [List.getLast?_append] using hlast
  | case4 chain current _ target hc hnone =>
    exact .dangling (.inr ⟨hv.reaches (List.mem_of_getLast? hlast), hval, hnone⟩)
  | case5 chain current _ target hc next hnext _ ih =>
    exact ih (hv.step hlast hval hc) (by simp) hnext (by simp [hkey])

theorem resolve_outcome {r : Resolver α} (hs : r.Sound) (key : Text) :
    Outcome r.entries key (r.resolve key).1 := by
  unfold resolve
  cases hkey : r.entries.get? key with
  | none => exact .dangling (.inl ⟨hkey, rfl, rfl⟩)
  | some first =>
    have hf : Explains r.entries key (follow r.entries r.memo [key] key first) :=
      follow_explains hs Visits.start rfl hkey
    cases he : follow r.entries r.memo [key] key first with
    | error e =>
      rw [he] at hf
      simp only [he]
      exact hf
    | ok found =>
      obtain ⟨leaf, visited⟩ := found
      rw [he] at hf
      simpa only [he] using Outcome.leaf (hf.2 key hf.1)

theorem sound_ofEntries (entries : Keyed (RawValue α)) : (ofEntries entries).Sound := by
  intro key leaf h
  cases h

/-- Every walk comes out one way or the other. -/
theorem outcome_total (entries : Keyed (RawValue α)) (key : Text) :
    (∃ leaf, LeadsTo entries key leaf) ∨ ∃ e, Outcome entries key (.error e) := by
  have h := resolve_outcome (sound_ofEntries entries) key
  generalize ((ofEntries entries).resolve key).1 = result at h
  cases h with
  | leaf h => exact .inl ⟨_, h⟩
  | dangling h => exact .inr ⟨_, .dangling h⟩
  | cycle h => exact .inr ⟨_, .cycle h⟩

theorem get?_foldl_insert {memo : Keyed α} {keys : List Text} {leaf : α} {k : Text} {a : α}
    (h : (keys.foldl (fun memo k => memo.insert k leaf) memo).get? k = some a) :
    (k ∈ keys ∧ a = leaf) ∨ memo.get? k = some a := by
  induction keys generalizing memo with
  | nil => exact .inr h
  | cons key keys ih =>
    rcases ih h with ⟨hk, ha⟩ | hk
    · exact .inl ⟨List.mem_cons_of_mem _ hk, ha⟩
    · rw [get?_insert] at hk
      split at hk
      · next e =>
        obtain rfl : leaf = a := by simpa using hk
        exact .inl ⟨by simp [e], rfl⟩
      · exact .inr hk

theorem entries_resolve (r : Resolver α) (key : Text) :
    (r.resolve key).2.entries = r.entries := by
  unfold resolve
  split
  · rfl
  · split <;> rfl

/-- A call that succeeds remembers only what is true, and a call that fails remembers nothing. -/
theorem Sound.resolve {r : Resolver α} (hs : r.Sound) (key : Text) :
    Sound (r.resolve key).2 := by
  unfold Sound
  rw [entries_resolve]
  intro k a hk
  unfold Resolver.resolve at hk
  cases hkey : r.entries.get? key with
  | none =>
    rw [hkey] at hk
    exact hs k a hk
  | some first =>
    have hf : Explains r.entries key (follow r.entries r.memo [key] key first) :=
      follow_explains hs Visits.start rfl hkey
    rw [hkey] at hk
    dsimp only at hk
    cases he : follow r.entries r.memo [key] key first with
    | error e =>
      rw [he] at hk
      exact hs k a hk
    | ok found =>
      obtain ⟨leaf, visited⟩ := found
      rw [he] at hk hf
      rcases get?_foldl_insert hk with ⟨hv, rfl⟩ | hk
      · exact hf.2 k hv
      · exact hs k a hk

theorem sound_after (entries : Keyed (RawValue α)) (keys : List Text) :
    ((ofEntries entries).after keys).Sound ∧
      ((ofEntries entries).after keys).entries = entries := by
  induction keys using List.reverseRecOn with
  | nil => exact ⟨by simp [Sound, after, ofEntries, Keyed.get?], rfl⟩
  | append_singleton keys key ih =>
    simp only [after, List.foldl_append, List.foldl_cons, List.foldl_nil] at ih ⊢
    exact ⟨ih.1.resolve key, by rw [entries_resolve, ih.2]⟩

/-- Every call on a resolver reports what the entries alone determine, whatever calls came before
it and whether they failed or not. -/
theorem resolve_after_calls (entries : Keyed (RawValue α)) (earlier : List Text) (key : Text) :
    let result := (((ofEntries entries).after earlier).resolve key).1
    (∀ leaf, result = .ok leaf ↔ LeadsTo entries key leaf) ∧
      (∀ reference source, result = .error (.unresolved reference source) ↔
        Dangles entries key reference source) ∧
      ((∃ cycle, result = .error (.cyclic cycle)) ↔ Revisits entries key) ∧
      (∀ cycle, result = .error (.cyclic cycle) ↔
        ∃ first others, cycle = first :: others ∧ FirstCycle entries key first others) ∧
      ∀ first others, result = .error (.cyclic (first :: others)) →
        ReferenceError.message (.cyclic (first :: others)) =
          "cyclic reference: " ++ Text.join " -> " (first :: others ++ [first]) := by
  intro result
  have ho : Outcome entries key result := by
    obtain ⟨hs, he⟩ := sound_after entries earlier
    simpa only [he] using resolve_outcome hs key
  clear_value result
  have outcome_iff (a) : result = a ↔ Outcome entries key a :=
    ⟨fun h => h ▸ ho, fun h => ho.unique h⟩
  refine ⟨?_, ?_, ?_, ?_, ?_⟩
  · intro leaf
    rw [outcome_iff]
    exact ⟨fun h => by cases h; assumption, .leaf⟩
  · intro reference source
    rw [outcome_iff]
    exact ⟨fun h => by cases h; assumption, .dangling⟩
  · constructor
    · rintro ⟨cycle, h⟩
      rw [outcome_iff] at h
      cases h with
      | cycle hc => exact hc.revisits
    · intro hr
      cases ho with
      | leaf hl =>
        obtain ⟨_, hends, _⟩ := hl.ends
        exact absurd hends hr.not_ends
      | dangling hd => exact absurd hd.ends.1 hr.not_ends
      | cycle => exact ⟨_, rfl⟩
  · intro cycle
    rw [outcome_iff]
    constructor
    · intro h
      cases h with
      | cycle hc => exact ⟨_, _, rfl, hc⟩
    · rintro ⟨first, others, rfl, hc⟩
      exact .cycle hc
  · intro first others _
    rfl

end Resolver
end ThemeTokens
