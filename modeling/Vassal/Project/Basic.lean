import Vassal.Preset
import Vassal.Toml.Value

-- Projects: descriptions of documents, one description for each section.

namespace Vassal

inductive Preset
  | plain
  | nice
  | python
deriving DecidableEq, Repr

namespace Preset

def name : Preset → String
  | plain => "plain"
  | nice => "nice"
  | python => "python"

end Preset

structure SectionSpec where
  name : Option String := none
  preset : Preset := .plain
  -- The name of an earlier section to begin with.
  deriveFrom : Option String := none
  strictConfig : Option Bool := none
  embedded : Embedded := .unstated
  nice : NiceParams := {}
  wsgiModule : Option String := none
  plugins : Option PluginsParams := none
  -- In ascending order of names; an empty value is copied from the compiling process.
  env : List (String × String) := []
  -- Files, or sections of the project by `:name`.
  includes : List String := []
  fallback : Option String := none
  printVariables : Bool := false
  -- All other entries, in the order of the document: parameters of option groups.
  groups : Toml.Table := []
deriving Repr

structure Project where
  autoinclude : Bool := false
  banner : Bool := true
  sections : List SectionSpec := []
deriving Repr

namespace SectionSpec

def effectiveName (spec : SectionSpec) : String :=
  spec.name.getD defaultSectionName

-- Everything that the section refers to, in the order in which references are checked.
def references (spec : SectionSpec) : List String :=
  spec.includes ++ spec.fallback.toList

end SectionSpec

end Vassal
