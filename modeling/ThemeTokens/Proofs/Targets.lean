import ThemeTokens.Compiler
import ThemeTokens.Proofs.Binary64.Byte

/-!
# The targets of a configuration

A compiler renders the configured targets in their order, each as it would be rendered alone. Names
that no target has are passed over, and a configuration that was checked has none.
-/
namespace ThemeTokens

namespace Target

theorem mem_all (target : Target) : target ∈ all := by cases target <;> decide

theorem name_mem_names (target : Target) : target.name ∈ names := by
  rw [← map_name_all]
  exact List.mem_map_of_mem (mem_all target)

/-- What is looked up by a name has that name. -/
theorem name_of_ofName? {t : Text} {target : Target} (h : ofName? t = some target) :
    target.name = t := by
  unfold ofName? at h
  split_ifs at h with hgtk hkde hqtct htokens <;> cases h
  · exact hgtk.symm
  · exact hkde.symm
  · exact hqtct.symm
  · exact htokens.symm

theorem ofName?_eq_some_iff {t : Text} {target : Target} :
    ofName? t = some target ↔ target.name = t := by
  refine ⟨name_of_ofName?, ?_⟩
  rintro rfl
  exact ofName?_name target

theorem ofName?_eq_none_iff {t : Text} : ofName? t = none ↔ t ∉ names := by
  constructor
  · intro h hmem
    rw [← map_name_all] at hmem
    obtain ⟨target, -, rfl⟩ := List.mem_map.1 hmem
    rw [ofName?_name] at h
    cases h
  · intro h
    cases hfound : ofName? t with
    | none => rfl
    | some target => exact absurd (name_of_ofName? hfound ▸ name_mem_names target) h

/-- The names that may be configured, the names of the targets, and the names that find a target
are the same, and every target is found by the one name that it has. -/
structure Registered : Prop where
  listed : all.map name = names
  nodup : names.Nodup
  found : ∀ (t : Text) (target : Target), ofName? t = some target ↔ target.name = t
  unknown : ∀ t : Text, ofName? t = none ↔ t ∉ names

theorem registered : Registered where
  listed := map_name_all
  nodup := by decide
  found _ _ := ofName?_eq_some_iff
  unknown _ := ofName?_eq_none_iff

/-- Looking names up drops the unknown ones and keeps the others as they are. -/
theorem map_name_filterMap (ts : List Text) :
    (ts.filterMap ofName?).map name = ts.filter (· ∈ names) := by
  induction ts with
  | nil => rfl
  | cons t ts ih =>
    cases h : ofName? t with
    | none =>
      rw [List.filterMap_cons_none h, ih,
        List.filter_cons_of_neg (by simpa using ofName?_eq_none_iff.1 h)]
    | some target =>
      have hname := name_of_ofName? h
      rw [List.filterMap_cons_some h, List.map_cons, ih, hname,
        List.filter_cons_of_pos (by simpa using hname ▸ name_mem_names target)]

end Target

/-! ## Checking a configuration -/

namespace Double
open Binary64
variable {lib : Elementary} {x : Double lib}

/-- A number between two bounds, so neither infinite nor undefined. -/
def Within (low high : ℝ) (x : Double lib) : Prop :=
  Finite x ∧ low ≤ toReal x ∧ toReal x ≤ high

theorem within_iff {low high : Double lib} (hlow : Finite low) (hhigh : Finite high) :
    low ≤ x ∧ x ≤ high ↔ Within (toReal low) (toReal high) x := by
  constructor
  · rintro ⟨h0, h1⟩
    have hx : Finite x := isFinite_of_between hlow hhigh h0 h1
    exact ⟨hx, (le_iff hlow hx).1 h0, (le_iff hx hhigh).1 h1⟩
  · rintro ⟨hx, h0, h1⟩
    exact ⟨(le_iff hlow hx).2 h0, (le_iff hx hhigh).2 h1⟩

theorem within_fraction_iff : 0.0 ≤ x ∧ x ≤ 1.0 ↔ Within 0 1 x := by
  rw [within_iff finite_zero finite_one, toReal_zero, toReal_one]

theorem largestRatio_unpack : (21.0 : Float).toModel.unpack =
    .finite .positive 5910974510923776 (-48) (by decide) := rfl

theorem within_ratio_iff : 1.0 ≤ x ∧ x ≤ 21.0 ↔ Within 1 21 x := by
  have hfinite : Finite (21.0 : Double lib) :=
    congrArg Float.Model.UnpackedFloat.isFinite largestRatio_unpack
  have hvalue : toReal (21.0 : Double lib) = 21 := by
    change value (21.0 : Float).toModel.unpack = 21
    rw [largestRatio_unpack, value_positive]
    norm_num
  rw [within_iff finite_one hfinite, toReal_one, hvalue]

end Double

namespace Config
open Double
variable {lib : Binary64.Elementary} {c : Config (Double lib)}

/-- The first of the configured names that no target has. -/
def FirstUnknown (c : Config (Double lib)) (name : Text) : Prop :=
  ∃ before after, c.targets = before ++ name :: after ∧ (∀ t ∈ before, t ∈ Target.names) ∧
    name ∉ Target.names

/-- What checking a configuration reports: the ratio first, then the delta, then the targets. -/
structure Checks (c : Config (Double lib)) : Prop where
  ok : c.validate = .ok () ↔ Within 1 21 c.policy.minRatio ∧
    Within 0 1 c.policy.accentLightnessDelta ∧ ∀ name ∈ c.targets, name ∈ Target.names
  ratio : ∀ x, c.validate = .error (.ratio x) ↔
    x = c.policy.minRatio ∧ ¬ Within 1 21 c.policy.minRatio
  lightnessDelta : ∀ x, c.validate = .error (.lightnessDelta x) ↔
    x = c.policy.accentLightnessDelta ∧ Within 1 21 c.policy.minRatio ∧
      ¬ Within 0 1 c.policy.accentLightnessDelta
  unknownTarget : ∀ name, c.validate = .error (.unknownTarget name) ↔
    Within 1 21 c.policy.minRatio ∧ Within 0 1 c.policy.accentLightnessDelta ∧
      c.FirstUnknown name

theorem find?_unknown {name : Text} :
    (c.targets.find? fun t => !Target.names.contains t) = some name ↔ c.FirstUnknown name := by
  rw [List.find?_eq_some_iff_append]
  simp only [FirstUnknown, List.contains_eq_mem, Bool.not_eq_true', decide_eq_false_iff_not,
    Bool.not_not, decide_eq_true_eq]
  constructor
  · rintro ⟨hname, before, after, htargets, hbefore⟩
    exact ⟨before, after, htargets, hbefore, hname⟩
  · rintro ⟨before, after, htargets, hbefore, hname⟩
    exact ⟨hname, before, after, htargets, hbefore⟩

theorem find?_unknown_eq_none :
    (c.targets.find? fun t => !Target.names.contains t) = none ↔
      ∀ name ∈ c.targets, name ∈ Target.names := by
  simp only [List.find?_eq_none, List.contains_eq_mem, Bool.not_eq_true', decide_eq_false_iff_not,
    not_not]

theorem validate_of_not_ratio (h : ¬ Within 1 21 c.policy.minRatio) :
    c.validate = .error (.ratio c.policy.minRatio) :=
  if_pos (mt within_ratio_iff.1 h)

theorem validate_of_not_delta (hratio : Within 1 21 c.policy.minRatio)
    (h : ¬ Within 0 1 c.policy.accentLightnessDelta) :
    c.validate = .error (.lightnessDelta c.policy.accentLightnessDelta) :=
  (if_neg (not_not.2 (within_ratio_iff.2 hratio))).trans (if_pos (mt within_fraction_iff.1 h))

theorem validate_of_within (hratio : Within 1 21 c.policy.minRatio)
    (hdelta : Within 0 1 c.policy.accentLightnessDelta) : c.validate =
      match c.targets.find? fun t => !Target.names.contains t with
      | some name => .error (.unknownTarget name)
      | none => .ok () :=
  (if_neg (not_not.2 (within_ratio_iff.2 hratio))).trans
    (if_neg (not_not.2 (within_fraction_iff.2 hdelta)))

theorem checks (c : Config (Double lib)) : c.Checks := by
  by_cases hratio : Within 1 21 c.policy.minRatio
  case neg =>
    have hcheck := validate_of_not_ratio hratio
    constructor <;> simp [hcheck, hratio, eq_comm]
  by_cases hdelta : Within 0 1 c.policy.accentLightnessDelta
  case neg =>
    have hcheck := validate_of_not_delta hratio hdelta
    constructor <;> simp [hcheck, hratio, hdelta, eq_comm]
  have hcheck := validate_of_within hratio hdelta
  cases hfind : c.targets.find? fun t => !Target.names.contains t with
  | none =>
    have hknown := find?_unknown_eq_none.1 hfind
    have hunknown (name : Text) : ¬ c.FirstUnknown name := by
      rw [← find?_unknown, hfind]
      exact nofun
    rw [hfind] at hcheck
    constructor <;> simp only [hcheck, hratio, hdelta, hunknown] <;> simp
    exact hknown
  | some first =>
    have hfirst (name : Text) : c.FirstUnknown name ↔ first = name := by
      rw [← find?_unknown, hfind, Option.some_inj]
    have hnot : ¬ ∀ name ∈ c.targets, name ∈ Target.names := by
      rw [← find?_unknown_eq_none, hfind]
      exact nofun
    rw [hfind] at hcheck
    constructor <;> simp [hcheck, hratio, hdelta, hfirst, hnot]

/-- What is read from a text has been checked. -/
theorem validate_of_ofToml {t : Text} (h : ofToml t = .ok c) : c.validate = .ok () := by
  unfold ofToml at h
  split at h
  · cases h
  · next read _ =>
    cases hcheck : read.validate with
    | error e =>
      rw [hcheck] at h
      cases h
    | ok _ =>
      rw [hcheck] at h
      cases h
      exact hcheck

end Config

/-! ## Rendering all targets -/

namespace Compiler
variable {R : Type}

/-- The names of the targets that a compiler renders, in order. -/
def targetNames (c : Compiler R) : List Text := c.targets.map Target.name

theorem targetNames_ofConfig (config : Config R) :
    (ofConfig config).targetNames = config.targets.filter (· ∈ Target.names) :=
  Target.map_name_filterMap config.targets

/-- Outputs by the names of their targets. -/
def byName (outputs : List (Target × Output)) : List (Text × Option Output) :=
  outputs.map fun (target, output) => (target.name, some output)

variable [Number R]

/-- Together the targets are rendered as each of them is alone. -/
theorem byName_renderAll (c : Compiler R) (s : Schema R) :
    byName (c.renderAll s) = c.targetNames.map fun name => (name, c.render? name s) := by
  rw [byName, renderAll, targetNames, List.map_map, List.map_map]
  refine List.map_congr_left fun target _ => ?_
  rw [Function.comp_apply, Function.comp_apply, render?, Target.ofName?_name, Option.map_some]

theorem compile_eq_error {c : Compiler R} {source : Text} {e : CompileError} :
    c.compile source = .error e ↔ c.parse source = .error e := by
  rw [compile]
  cases c.parse source <;> simp [Except.map]

theorem compile_eq_ok {c : Compiler R} {source : Text} {outputs : List (Target × Output)} :
    c.compile source = .ok outputs ↔
      ∃ s, c.parse source = .ok s ∧ outputs = c.renderAll s := by
  rw [compile]
  cases c.parse source <;> simp [Except.map, eq_comm]

/-- How the outputs of a compiler depend on its configuration, which may be valid or not. -/
structure FansOut (config : Config R) : Prop where
  names : (ofConfig config).targetNames = config.targets.filter (· ∈ Target.names)
  renderAll : ∀ s, byName ((ofConfig config).renderAll s) =
    (config.targets.filter (· ∈ Target.names)).map fun name =>
      (name, (ofConfig config).render? name s)
  error : ∀ source e, (ofConfig config).compile source = .error e ↔
    (ofConfig config).parse source = .error e
  ok : ∀ source outputs, (ofConfig config).compile source = .ok outputs ↔
    ∃ s, (ofConfig config).parse source = .ok s ∧ outputs = (ofConfig config).renderAll s

theorem fansOut (config : Config R) : FansOut config where
  names := targetNames_ofConfig config
  renderAll s := by rw [byName_renderAll, targetNames_ofConfig]
  error _ _ := compile_eq_error
  ok _ _ := compile_eq_ok

/-- A compiler that is built from a text renders all the targets that the text names. -/
theorem targetNames_of_ofToml {lib : Binary64.Elementary} {t : Text} {c : Compiler (Double lib)}
    (h : ofToml t = .ok c) : c.targetNames = c.config.targets := by
  unfold ofToml at h
  cases hconfig : (Config.ofToml t : Except _ (Config (Double lib))) with
  | error e =>
    rw [hconfig] at h
    cases h
  | ok config =>
    rw [hconfig] at h
    cases h
    have hvalid := (config.checks.ok.1 (Config.validate_of_ofToml hconfig)).2.2
    refine (targetNames_ofConfig config).trans (List.filter_eq_self.2 ?_)
    simpa using hvalid

/-- Targets are found by the names that may be configured. Every configuration is rendered target by
target and checked part by part, and of one that is read from a text no target is dropped. -/
theorem targets_kept (lib : Binary64.Elementary) : Target.Registered ∧
    (∀ config : Config (Double lib), FansOut config ∧ config.Checks) ∧
      ∀ t : Text, (ofToml t : Except _ (Compiler (Double lib))).map targetNames =
        (ofToml t : Except _ (Compiler (Double lib))).map (·.config.targets) := by
  refine ⟨Target.registered, fun config => ⟨fansOut config, config.checks⟩, fun t => ?_⟩
  cases h : (ofToml t : Except _ (Compiler (Double lib))) with
  | error e => rfl
  | ok c => exact congrArg Except.ok (targetNames_of_ofToml h)

end Compiler

end ThemeTokens
