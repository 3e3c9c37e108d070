import ThemeTokens.Proofs.Reference
import ThemeTokens.Source

/-!
# Computations that follow references

What a computation gives depends on the entries alone: the leaves that its resolver remembers are
those that the entries lead to, and stay so.
-/
namespace ThemeTokens

theorem ok_bind {ε α β : Type} (a : α) (f : α → Except ε β) : (Except.ok a >>= f) = f a := rfl

theorem error_bind {ε α β : Type} (e : ε) (f : α → Except ε β) : (.error e >>= f) = .error e := rfl

namespace Reading
variable {α β γ δ σ : Type}

/-! ## Leaves -/

section
variable {r : Resolver α} {key : Text}

theorem leaf_of_leadsTo (hs : r.Sound) {leaf : α} (h : Keyed.LeadsTo r.entries key leaf) :
    ∃ r', Reading.leaf key r = .ok (leaf, r') ∧ r'.Sound ∧ r'.entries = r.entries := by
  have hresult : (r.resolve key).1 = .ok leaf := (Resolver.resolve_outcome hs key).unique (.leaf h)
  refine ⟨(r.resolve key).2, ?_, hs.resolve key, Resolver.entries_resolve r key⟩
  rw [Reading.leaf]
  generalize r.resolve key = step at hresult ⊢
  obtain ⟨result, r'⟩ := step
  cases hresult
  rfl

theorem leaf_of_get? (hs : r.Sound) {leaf : α} (h : r.entries.get? key = some (.leaf leaf)) :
    ∃ r', Reading.leaf key r = .ok (leaf, r') ∧ r'.Sound ∧ r'.entries = r.entries :=
  leaf_of_leadsTo hs ⟨key, .refl, h⟩

theorem leaf_of_error (hs : r.Sound) {e : ReferenceError}
    (h : Keyed.Outcome r.entries key (.error e)) : Reading.leaf key r = .error (.reference e) := by
  have hresult : (r.resolve key).1 = .error e := (Resolver.resolve_outcome hs key).unique h
  rw [Reading.leaf]
  generalize r.resolve key = step at hresult ⊢
  obtain ⟨result, r'⟩ := step
  cases hresult
  rfl

end

/-! ## What a computation gives -/

variable {entries : Keyed (RawValue α)}

/-- The computation has this result on the entries, whatever its resolver remembers of them. -/
def Gives (entries : Keyed (RawValue α)) (reading : Reading α β) (result : Except SourceError β) :
    Prop :=
  ∀ r : Resolver α, r.Sound → r.entries = entries →
    match result with
    | .ok b => ∃ r', reading.run r = .ok (b, r') ∧ r'.Sound ∧ r'.entries = entries
    | .error e => reading.run r = .error e

theorem Gives.runOn {reading : Reading α β} {result : Except SourceError β}
    (h : Gives entries reading result) : Reading.runOn entries reading = result := by
  have hrun := h (.ofEntries entries) (Resolver.sound_ofEntries entries) rfl
  rw [Reading.runOn]
  cases result with
  | ok b =>
    obtain ⟨r, hr, _⟩ := hrun
    rw [hr]
    rfl
  | error e =>
    dsimp only at hrun
    rw [hrun]
    rfl

theorem Gives.unique {reading : Reading α β} {a b : Except SourceError β}
    (ha : Gives entries reading a) (hb : Gives entries reading b) : a = b :=
  ha.runOn.symm.trans hb.runOn

theorem gives_pure (b : β) : Gives entries (pure b : Reading α β) (.ok b) :=
  fun r hs he => ⟨r, rfl, hs, he⟩

theorem gives_lift (result : Except SourceError β) :
    Gives entries (StateT.lift result : Reading α β) result := by
  intro r hs he
  cases result with
  | ok b => exact ⟨r, rfl, hs, he⟩
  | error e => rfl

theorem Gives.bind {reading : Reading α β} {next : β → Reading α γ} {b : β}
    {result : Except SourceError γ} (h : Gives entries reading (.ok b))
    (hnext : Gives entries (next b) result) : Gives entries (reading >>= next) result := by
  intro r hs he
  obtain ⟨r', hr, hs', he'⟩ := h r hs he
  have hrun := hnext r' hs' he'
  rw [StateT.run_bind, hr, ok_bind]
  exact hrun

theorem Gives.bind_error {reading : Reading α β} {e : SourceError}
    (h : Gives entries reading (.error e)) (next : β → Reading α γ) :
    Gives entries (reading >>= next) (.error e) := by
  intro r hs he
  have hrun : reading.run r = .error e := h r hs he
  change (reading >>= next).run r = .error e
  rw [StateT.run_bind, hrun]
  rfl

theorem Gives.map {reading : Reading α β} {result : Except SourceError β}
    (h : Gives entries reading result) (f : β → γ) :
    Gives entries (do return f (← reading)) (result.map f) := by
  cases result with
  | ok b => exact h.bind (gives_pure (f b))
  | error e => exact h.bind_error _

/-! ## Names that may have no entry -/

variable {key : Text}

theorem gives_leaf?_of_get?_eq_none (h : entries.get? key = none) :
    Gives entries (Reading.leaf? key) (.ok none) := by
  intro r hs he
  have hcontains : ¬ r.entries.contains key = true := by
    rw [he, Keyed.contains, h]
    exact Bool.false_ne_true
  refine ⟨r, ?_, hs, he⟩
  change Reading.leaf? key r = _
  rw [Reading.leaf?, if_neg hcontains]

theorem run_leaf?_of_isSome {r : Resolver α} (h : (r.entries.get? key).isSome) :
    (Reading.leaf? key).run r = (Reading.leaf key r).map fun out => (some out.1, out.2) := by
  have hcontains : r.entries.contains key = true := h
  change Reading.leaf? key r = _
  rw [Reading.leaf?, if_pos hcontains]
  rfl

theorem isSome_of_leadsTo {leaf : α} (h : Keyed.LeadsTo entries key leaf) :
    (entries.get? key).isSome := by
  rw [Option.isSome_iff_ne_none]
  exact fun hn => h.not_dangles (.inl ⟨hn, rfl, rfl⟩)

theorem gives_leaf?_of_leadsTo {leaf : α} (h : Keyed.LeadsTo entries key leaf) :
    Gives entries (Reading.leaf? key) (.ok (some leaf)) := by
  rintro r hs rfl
  obtain ⟨r', hrun, hs', he'⟩ := leaf_of_leadsTo hs h
  refine ⟨r', ?_, hs', he'⟩
  rw [run_leaf?_of_isSome (isSome_of_leadsTo h), hrun]
  rfl

theorem gives_leaf?_of_error (hkey : (entries.get? key).isSome) {e : ReferenceError}
    (h : Keyed.Outcome entries key (.error e)) :
    Gives entries (Reading.leaf? key) (.error (.reference e)) := by
  rintro r hs rfl
  change (Reading.leaf? key).run r = .error (.reference e)
  rw [run_leaf?_of_isSome hkey, leaf_of_error hs h]
  rfl

/-! ## One step after the other -/

variable {step : δ → σ → Reading α δ} {put : δ → σ → δ} {items : List σ} {d : δ}

theorem gives_foldlM (h : ∀ x ∈ items, ∀ d, Gives entries (step d x) (.ok (put d x))) :
    Gives entries (items.foldlM step d) (.ok (items.foldl put d)) := by
  induction items generalizing d with
  | nil => exact gives_pure d
  | cons x items ih =>
    rw [List.foldlM_cons, List.foldl_cons]
    exact (h x List.mem_cons_self d).bind (ih fun y hy => h y (List.mem_cons_of_mem _ hy))

/-- The first step that fails ends the computation. -/
theorem gives_foldlM_error {before after : List σ} {x : σ} {e : SourceError}
    (hbefore : ∀ y ∈ before, ∀ d, ∃ d', Gives entries (step d y) (.ok d'))
    (hx : ∀ d, Gives entries (step d x) (.error e)) :
    Gives entries ((before ++ x :: after).foldlM step d) (.error e) := by
  induction before generalizing d with
  | nil =>
    rw [List.nil_append, List.foldlM_cons]
    exact (hx d).bind_error _
  | cons y before ih =>
    obtain ⟨d', hd'⟩ := hbefore y List.mem_cons_self d
    rw [List.cons_append, List.foldlM_cons]
    exact hd'.bind (ih fun z hz => hbefore z (List.mem_cons_of_mem _ hz))

end Reading

end ThemeTokens
