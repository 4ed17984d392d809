import Vassal.Host.Basic
import Vassal.Section.Directives
import Vassal.Section.Ini

-- Documents: several sections written as one text.
--
-- The sections of a document are told apart by their effective names. With `autoinclude` every
-- section also refers to every other one that has a name of its own.

namespace Vassal

-- A member of a document; what is no section is kept by its text, to be refused by name.
inductive Entry
  | section (s : Section)
  | foreign (text : String)
deriving Repr

namespace Entry

def render : Entry → String
  | .section s => "Section[" ++ s.effectiveName ++ "]"
  | foreign text => text

def section? : Entry → Option Section
  | .section s => some s
  | foreign _ => none

end Entry

structure Document where
  entries : List Entry := []
  autoinclude : Bool := false
  banner : Bool := false
deriving Repr

namespace Document

def push (d : Document) (entry : Entry) : Document :=
  { d with entries := d.entries ++ [entry] }

def sections (d : Document) : List Section :=
  d.entries.filterMap Entry.section?

-- The sections among the entries, unless one of the entries is foreign or repeats the name of a
-- section before it. `seen` holds the names that are taken.
def checkEntries (seen : List String) : List Entry → Except Error (List Section)
  | [] => .ok []
  | .foreign text :: _ => .error (.notASection text)
  | .section s :: rest =>
    if seen.contains s.effectiveName then .error (.duplicateSection s.effectiveName)
    else (checkEntries (s.effectiveName :: seen) rest).map (s :: ·)

-- Names that sections have of their own, with the places of those sections.
def explicitNames (sections : List Section) : List (String × Nat) :=
  sections.zipIdx.filterMap fun (s, i) => s.name.map (·, i)

def link (s : Section) (name : String) : Section :=
  s.set (.adding "ini" (.text (":" ++ name)))

-- Every section refers to all the others by their own names, in the order of the document.
def linkAll (sections : List Section) : List Section :=
  sections.zipIdx.map fun (s, i) =>
    (((explicitNames sections).filter (·.2 ≠ i)).map Prod.fst).foldl link s

def render (d : Document) : Except Error String := do
  let sections ← checkEntries [] d.entries
  let sections := if d.autoinclude then linkAll sections else sections
  let texts := sections.map (·.render false)
  return String.intercalate "\n" (if d.banner then bannerLine :: texts else texts)

-- The document goes to the path that is given, or else to a new temporary file. The answer is
-- the path of the file. A document without a text leaves every file alone.
def save {m : Type → Type} [Monad m] [Host m] (d : Document) (path : Option RawPath) :
    m (Except Error RawPath) := do
  match d.render with
  | .error e => return .error e
  | .ok text =>
    match path with
    | some path => return ((← Host.write path text.toUTF8).map fun _ => path).mapError .file
    | none =>
      let saved ← Host.writeNew (.ofText "uwsgiconf-") (.ofText ".ini") text.toUTF8
      return saved.mapError .file

end Document

end Vassal
