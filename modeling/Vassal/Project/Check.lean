import Vassal.Error
import Vassal.Project.Basic

-- What has to hold of a project before any of its sections is built.
--
-- Sections are looked at one after the other, and the first fault of the first faulty section is
-- reported.

namespace Vassal

namespace Project

-- The names that sections have of their own; only these can be referred to.
def explicitNames (p : Project) : List String :=
  p.sections.filterMap (·.name)

-- The section that a reference names, unless it names a file.
def sectionReference? (reference : String) : Option String :=
  match reference.toList with
  | ':' :: name => some (String.ofList name)
  | _ => none

-- The first reference to a section that is not there.
def unknownReference? (named : List String) (references : List String) : Option String :=
  (references.filterMap sectionReference?).find? fun name => !named.contains name

-- The first fault of a section, given the effective names of the sections before it.
def specFault? (named seen : List String) (spec : SectionSpec) : Option Error :=
  let name := spec.effectiveName
  match spec.deriveFrom.filter (!seen.contains ·) with
  | some base => some (.invalidProject (.undefinedBase name base))
  | none =>
    if seen.contains name then some (.duplicateSection name)
    else
      match unknownReference? named spec.references with
      | some target => some (.invalidProject (.unknownReference name target))
      | none =>
        if spec.wsgiModule.isSome && spec.preset ≠ .python then
          some (.invalidProject (.moduleWithoutPython name))
        else none

def checkSpecs (named seen : List String) : List SectionSpec → Except Error Unit
  | [] => .ok ()
  | spec :: rest =>
    match specFault? named seen spec with
    | some fault => .error fault
    | none => checkSpecs named (spec.effectiveName :: seen) rest

def check (p : Project) : Except Error Unit :=
  checkSpecs p.explicitNames [] p.sections

end Project

end Vassal
