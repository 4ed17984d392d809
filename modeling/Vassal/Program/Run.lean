import Vassal.Document
import Vassal.Program.Help
import Vassal.Project.Build
import Vassal.Project.Decode

-- Doing what a command line asks for.

namespace Vassal

structure Outcome where
  code : Nat := 0
  out : String := ""
  err : String := ""
deriving DecidableEq, Repr

-- Why a project could not be compiled.
inductive Failure
  | noProject
  | load (path : RawPath) (e : Error)
  | build (path : RawPath) (e : Error)
  | save (e : Error)
  | print (e : Error)
deriving DecidableEq

namespace Failure

def message : Failure → String
  | noProject =>
    "No uwsgiconf.toml found. Searched ./uwsgiconf.toml and ~/.config/uwsgiconf/uwsgiconf.toml. "
      ++ "Use --config to specify a path."
  | load path e => "Failed to load config file " ++ ByteString.quoted path ++ ": " ++ e.message
  | build path e =>
    "Failed to build configuration from " ++ ByteString.quoted path ++ ": " ++ e.message
  | save e => "Failed to write configuration: " ++ e.message
  | print e => "Failed to print configuration: " ++ e.message

end Failure

variable {m : Type → Type} [Monad m] [Host m]

-- The project file's own name.
def projectFile : RawPath :=
  .ofText "uwsgiconf.toml"

-- The project among the user's settings, whether or not it is there.
def userProject : m (Option RawPath) := do
  return (← Host.settingsDirectory).map fun directory =>
    RawPath.join (RawPath.join directory (.ofText programName)) projectFile

-- The first of the paths at which there is something.
def firstThere : List RawPath → m (Option RawPath)
  | [] => return none
  | path :: rest => do
    if ← Host.isThere path then return some path else firstThere rest

-- The path that is given, or else the first project in its usual places.
def locate (given : Option RawPath) : ExceptT Failure m RawPath := do
  match given with
  | some path => return path
  | none =>
    match ← firstThere (projectFile :: (← userProject).toList) with
    | some path => return path
    | none => throw .noProject

-- The variables with these names, as they are now.
def environmentOf (keys : List String) : m Environment := do
  let copies ← keys.mapM fun key => do return (key, ← Host.readVariable key)
  return fun key => (copies.lookup key).join

def loadProject (path : RawPath) : ExceptT Failure m Project := do
  match ← Host.read path with
  | .error fault => throw (.load path (.file fault))
  | .ok bytes =>
    match Project.ofBytes bytes with
    | .ok project => return project
    | .error e => throw (.load path e)

def buildDocument (path : RawPath) (project : Project) : ExceptT Failure m Document := do
  match project.build (← environmentOf project.copiedVariables) with
  | .ok d => return d
  | .error e => throw (.build path e)

def saveDocument (d : Document) (path : Option RawPath) : ExceptT Failure m String := do
  match ← d.save path with
  | .ok path => return ByteString.display path ++ "\n"
  | .error e => throw (.save e)

-- What is printed: the document itself, or the path of the file that it went to.
def deliver (d : Document) : Destination → ExceptT Failure m String
  | .output =>
    match d.render with
    | .ok text => return text
    | .error e => throw (.print e)
  | .file path => saveDocument d (some path)
  | .temporary => saveDocument d none

def compileProject (given : Option RawPath) (destination : Destination) :
    ExceptT Failure m String := do
  let path ← locate given
  let project ← loadProject path
  deliver (← buildDocument path project) destination

def Outcome.ofResult : Except Failure String → Outcome
  | .ok out => { out }
  | .error failure => { code := 1, err := "Error: " ++ failure.message ++ "\n" }

def Request.run : Request → m Outcome
  | .compile project destination => do
    return .ofResult (← (compileProject project destination).run)
  | .groups => return { out := String.join (availableGroups.map (· ++ "\n")) }
  | .help page => return { out := page.render }
  | .version => return { out := programName ++ " " ++ programVersion ++ "\n" }

-- A line that asks for nothing is answered with how to ask.
def runLine (arguments : List ByteString) : m Outcome :=
  match Request.read? arguments with
  | some request => request.run
  | none => return { code := 2, err := HelpPage.program.usageLine }

end Vassal
