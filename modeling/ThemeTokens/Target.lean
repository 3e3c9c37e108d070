import ThemeTokens.Target.Plasma
import ThemeTokens.Target.QtPalette
import ThemeTokens.Target.Stylesheet
import ThemeTokens.Target.TokenDocument

/-!
# Targets

The toolkits that a schema is rendered for. Rendering cannot fail, because a schema has a value in
every slot.
-/
namespace ThemeTokens

inductive Target
  | gtk
  | kde
  | qtct
  | tokens
  deriving DecidableEq, Repr

namespace Target

/-- The names that a configuration may list, in the order of rendering. -/
def names : List Text := ["gtk", "kde", "qtct", "tokens"]

def name : Target → Text
  | gtk => "gtk"
  | kde => "kde"
  | qtct => "qtct"
  | tokens => "tokens"

def ofName? (t : Text) : Option Target :=
  if t = "gtk".toList then some gtk
  else if t = "kde".toList then some kde
  else if t = "qtct".toList then some qtct
  else if t = "tokens".toList then some tokens
  else none

def all : List Target := names.filterMap ofName?

/-- What a target is given for a schema and the name of the scheme. -/
def render {R : Type} [Number R] (target : Target) (scheme : Text) (s : Schema R) : Output :=
  match target with
  | gtk => Stylesheet.output s
  | kde => Plasma.output scheme s
  | qtct => QtPalette.output scheme s
  | tokens => TokenDocument.output s

theorem ofName?_name (target : Target) : ofName? target.name = some target := by
  cases target <;> rfl

/-- The names of all targets are those that a configuration may list. -/
theorem map_name_all : all.map name = names := rfl

end Target

end ThemeTokens
