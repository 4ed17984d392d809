import Vassal.Document
import Vassal.Groups.Table
import Vassal.Project.Check

-- Building the document of a project.

namespace Vassal

namespace SectionSpec

-- What a section begins with: a copy of its base, or nothing.
def start (spec : SectionSpec) (base : Option Section) : Section :=
  let s := match base with
    | some base => base.derive spec.name
    | none => Section.named spec.name
  match spec.embedded with
  | .unstated => s
  | embedded => s.embed embedded

-- The preset with its own table of parameters takes that table away from the groups.
def remainingGroups (spec : SectionSpec) : Toml.Table :=
  match spec.preset with
  | .python => spec.groups.filter (·.1 ≠ pythonKind.id)
  | _ => spec.groups

def applyPreset (spec : SectionSpec) : Attempt Section Unit :=
  match spec.preset with
  | .plain => return ()
  | .nice => modify (·.applyNice spec.nice)
  | .python =>
    match spec.groups.field? pythonKind.id PythonParams.ofValue? with
    | some python => modify (·.applyPython spec.nice (python.getD {}) spec.wsgiModule)
    | none => throw (.invalidParams pythonKind.id)

-- An empty value stands for the variable of the compiling process.
def exportVariables (env : Environment) (spec : SectionSpec) : Attempt Section Unit :=
  spec.env.forM fun (key, value) =>
    Section.exportVariable env key (if value.isEmpty then none else some value)

def steps (env : Environment) (spec : SectionSpec) : Attempt Section Unit := do
  spec.applyPreset
  if spec.strictConfig.isSome then modify (·.setStrict spec.strictConfig)
  if let some plugins := spec.plugins then modify (·.setPlugins plugins)
  Section.applyParams spec.remainingGroups
  spec.exportVariables env
  spec.includes.forM fun path => Section.addInclude (.file path)
  if let some path := spec.fallback then Section.setFallback (.file path)
  if spec.printVariables then modify (·.printVariables)

def build (env : Environment) (spec : SectionSpec) (base : Option Section) :
    Except Error Section :=
  match spec.steps env (spec.start base) with
  | .ok _ s => .ok s
  | .error e _ => .error e

end SectionSpec

namespace Project

-- Build the remaining sections; a base is looked for among the sections built before.
def buildSpecs (env : Environment) (built : List Section) :
    List SectionSpec → Except Error (List Section)
  | [] => .ok built
  | spec :: rest => do
    let base := spec.deriveFrom.bind fun name => built.find? (·.effectiveName == name)
    buildSpecs env (built ++ [← spec.build env base]) rest

def build (env : Environment) (p : Project) : Except Error Document := do
  p.check
  let sections ← buildSpecs env [] p.sections
  return {
    entries := sections.map .section
    autoinclude := p.autoinclude
    banner := p.banner }

-- The variables that building copies from the process.
def copiedVariables (p : Project) : List String :=
  p.sections.flatMap fun spec =>
    spec.env.filterMap fun (key, value) => if value.isEmpty then some key else none

end Project

end Vassal
