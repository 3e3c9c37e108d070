import ThemeTokens.Config
import ThemeTokens.Format

/-!
# Compilers

From source texts to the outputs of all targets, under one configuration.
-/
namespace ThemeTokens

structure Compiler (R : Type) where
  config : Config R
  /-- The targets that the configuration names, without names that no target has. -/
  targets : List Target

inductive CompileError
  | source (error : SourceError)
  | unknownFormat (name : Text)
  deriving DecidableEq, Repr

def CompileError.message : CompileError → Text
  | .source e => e.message
  | .unknownFormat name => "unknown parser `" ++ name ++ "`"

namespace Compiler
variable {R : Type} [Number R]

def ofConfig (config : Config R) : Compiler R := ⟨config, config.targets.filterMap Target.ofName?⟩

def ofToml (t : Text) : Except (ConfigError R) (Compiler R) := (Config.ofToml t).map ofConfig

/-! ## Parsing -/

def parseAs (c : Compiler R) (format : Format) (source : Text) : Except CompileError (Schema R) :=
  (format.parse c.config.policy none source).mapError .source

/-- Parses as the first format that recognizes the source. -/
def parse (c : Compiler R) (source : Text) : Except CompileError (Schema R) :=
  match Format.all.find? fun format => format.recognizes R source with
  | some format => c.parseAs format source
  | none => .error (.source .emptySource)

def parseLabeled (c : Compiler R) (source label : Text) : Except CompileError (Schema R) :=
  (c.parse source).map (·.withProvenance label)

/-- Parses as the format of that name, whether it recognizes the source or not. -/
def parseWith (c : Compiler R) (formatName source : Text) : Except CompileError (Schema R) :=
  match Format.ofName? formatName with
  | some format => c.parseAs format source
  | none => .error (.unknownFormat formatName)

def parseMany (c : Compiler R) (sources : List Text) : List (Except CompileError (Schema R)) :=
  sources.map c.parse

/-! ## Rendering -/

/-- The output of any target, whether it is configured or not. -/
def render? (c : Compiler R) (targetName : Text) (s : Schema R) : Option Output :=
  (Target.ofName? targetName).map fun target => target.render c.config.schemeName s

/-- The outputs of the configured targets in order. -/
def renderAll (c : Compiler R) (s : Schema R) : List (Target × Output) :=
  c.targets.map fun target => (target, target.render c.config.schemeName s)

def compile (c : Compiler R) (source : Text) : Except CompileError (List (Target × Output)) :=
  (c.parse source).map c.renderAll

end Compiler

end ThemeTokens
