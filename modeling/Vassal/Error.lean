import Vassal.Text.Quoted

-- Everything that can go wrong, by cause, and the wording of each cause.
--
-- An `Attempt` on a state is an operation that may stop early; what it had done by then stays
-- done, so the state it reached is part of its outcome either way.

namespace Vassal

-- Why a variable of the process environment cannot be copied.
inductive MissingVariable
  | notSet
  | notText (pieces : List Text.Piece)
deriving DecidableEq

-- How a project contradicts itself.
inductive ProjectFault
  | undefinedBase (name base : String)
  | unknownReference (name target : String)
  | moduleWithoutPython (name : String)
deriving DecidableEq, Repr

-- What the file system refuses.
inductive FileFault
  | notFound
  | notADirectory
  | isADirectory
  | nameTooLong
  | nulInName
  | notText
  | other (message : String)
deriving DecidableEq, Repr

inductive Error
  | notASection (text : String)
  | duplicateSection (name : String)
  | unnamedTarget (directive : String)
  | unsupportedStatus (status : Nat)
  | invalidParams (group : String)
  | malformedProject
  | invalidProject (fault : ProjectFault)
  | missingEnv (key : String) (reason : MissingVariable)
  | noSignalsAvailable
  | unknownOffload (name : String)
  | platform (reason : String)
  | file (fault : FileFault)
deriving DecidableEq

abbrev Attempt (σ α : Type) :=
  EStateM Error σ α

-- The statuses that pages can be managed for.
def managedStatuses : List Nat :=
  [403, 404, 500]

namespace MissingVariable

def message : MissingVariable → String
  | notSet => "environment variable not found"
  | notText pieces => "environment variable was not valid unicode: " ++ Text.Quoted.encode pieces

end MissingVariable

namespace ProjectFault

def message : ProjectFault → String
  | undefinedBase name base =>
    "section '" ++ name ++ "' derives from '" ++ base ++ "', which is not defined before it"
  | unknownReference name target =>
    "section '" ++ name ++ "' references unknown section '" ++ target ++ "'"
  | moduleWithoutPython name =>
    "section '" ++ name ++ "' sets 'wsgi_module' without the python preset"

end ProjectFault

namespace FileFault

def message : FileFault → String
  | notFound => "No such file or directory (os error 2)"
  | notADirectory => "Not a directory (os error 20)"
  | isADirectory => "Is a directory (os error 21)"
  | nameTooLong => "File name too long (os error 36)"
  | nulInName => "file name contained an unexpected NUL byte"
  | notText => "stream did not contain valid UTF-8"
  | other message => message

end FileFault

namespace Error

-- What a group's parameters or a project's text suffer from is not told, only where.
def message : Error → String
  | notASection text => "configuration member '" ++ text ++ "' is not a Section instance"
  | duplicateSection name =>
    "section names must be unique within a configuration: '" ++ name ++ "' is used more than once"
  | unnamedTarget directive =>
    "section used as a reference target for '" ++ directive ++ "' must be named"
  | unsupportedStatus status =>
    "code `" ++ toString status ++ "` for error pages is unsupported. Supported: "
      ++ String.intercalate ", " (managedStatuses.map toString)
  | invalidParams group => "invalid parameters for option group '" ++ group ++ "'"
  | malformedProject => "invalid project config:"
  | invalidProject fault => "invalid project config: " ++ fault.message
  | missingEnv key reason =>
    "environment variable '" ++ key ++ "' is not available: " ++ reason.message
  | noSignalsAvailable => "no uWSGI signals available"
  | unknownOffload name => "no offloaded function registered under '" ++ name ++ "'"
  | platform reason => "platform error: " ++ reason
  | file fault => fault.message

end Error

end Vassal
