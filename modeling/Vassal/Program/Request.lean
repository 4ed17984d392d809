import Vassal.Path

-- Command lines and what they ask for.
--
-- Arguments are taken from left to right. A request for help ends the reading, so mistakes
-- behind it do no harm; any other mistake makes the whole line one that asks for nothing. Words and
-- names of options are texts, but the path that an option gives need not be one.

namespace Vassal

-- The pages of help.
inductive HelpPage
  | program
  | compile
  | groups
  | help
deriving DecidableEq, Repr

-- Where the text of a document goes.
inductive Destination
  | output
  | file (path : RawPath)
  | temporary
deriving DecidableEq, Repr

inductive Request
  | compile (project : Option RawPath) (destination : Destination)
  | groups
  | help (page : HelpPage)
  | version
deriving DecidableEq, Repr

-- What one argument is, seen alone. An option may have its value attached to it.
inductive Argument
  | help
  | temporary
  | project (value : Option RawPath)
  | output (value : Option RawPath)
  -- No options after this one.
  | separator
  | plain
  | unknown
deriving DecidableEq, Repr

namespace Argument

@[match_pattern]
abbrev dash : UInt8 :=
  0x2D

@[match_pattern]
abbrev equalsSign : UInt8 :=
  0x3D

-- An option is written with two dashes and an equals sign before its value. Only the value need
-- not be a text.
def ofLong (option : ByteString) : Argument :=
  let value := match option.dropWhile (· != equalsSign) with
    | _ :: value => some value
    | [] => none
  match ByteString.text? (option.takeWhile (· != equalsSign)), value with
  | some "help", none => help
  | some "tofile", none => temporary
  | some "config", value => project value
  | some "output", value => output value
  | _, _ => unknown

-- What follows the letter of an option; an equals sign in front is not part of it.
def attached : ByteString → Option ByteString
  | [] => none
  | equalsSign :: value => some value
  | value => some value

-- The letters of options are single bytes.
def ofBytes (argument : ByteString) : Argument :=
  match argument with
  | [dash, dash] => separator
  | dash :: dash :: option => ofLong option
  | dash :: letter :: value =>
    match Char.ofUInt8 letter with
    | 'h' => help
    | 'c' => project (attached value)
    | 'o' => output (attached value)
    | _ => unknown
  | _ => plain

end Argument

-- What is known of a `compile` line so far.
structure CompileLine where
  project : Option RawPath := none
  output : Option RawPath := none
  temporary : Bool := false
deriving DecidableEq, Repr

namespace CompileLine

-- An option is given once, and its value is not empty.
def accept (old : Option RawPath) (value : RawPath) : Option (Option RawPath) :=
  if old.isSome || value.isEmpty then none else some (some value)

def withProject (l : CompileLine) (value : RawPath) : Option CompileLine := do
  return { l with project := ← accept l.project value }

def withOutput (l : CompileLine) (value : RawPath) : Option CompileLine := do
  return { l with output := ← accept l.output value }

def withTemporary (l : CompileLine) : Option CompileLine :=
  if l.temporary then none else some { l with temporary := true }

-- Two destinations contradict each other.
def request? (l : CompileLine) : Option Request :=
  match l.output, l.temporary with
  | none, false => some (.compile l.project .output)
  | some path, false => some (.compile l.project (.file path))
  | none, true => some (.compile l.project .temporary)
  | some _, true => none

-- The value of an option is the next argument, if that is no option itself.
def value? (argument : ByteString) : Option RawPath :=
  if Argument.ofBytes argument = .plain then some argument else none

def read? (l : CompileLine) : List ByteString → Option Request
  | [] => l.request?
  | argument :: rest =>
    match Argument.ofBytes argument, rest with
    | .help, _ => some (.help .compile)
    | .temporary, rest => do (← l.withTemporary).read? rest
    | .project (some value), rest => do (← l.withProject value).read? rest
    | .output (some value), rest => do (← l.withOutput value).read? rest
    | .project none, next :: rest => do (← l.withProject (← value? next)).read? rest
    | .output none, next :: rest => do (← l.withOutput (← value? next)).read? rest
    | .separator, [] => l.request?
    | _, _ => none

end CompileLine

namespace Request

def readGroups? : List ByteString → Option Request
  | [] => some groups
  | argument :: rest =>
    match Argument.ofBytes argument with
    | .help => some (help .groups)
    | .separator => if rest.isEmpty then some groups else none
    | _ => none

def readHelp? (words : List ByteString) : Option Request :=
  match words.map ByteString.text? with
  | [] => some (help .program)
  | [some "compile"] => some (help .compile)
  | [some "groups"] => some (help .groups)
  | [some "help"] => some (help .help)
  | _ => none

-- The program's own options, each a letter or a name.
def readOption? (argument : ByteString) : Option Request :=
  match argument, ByteString.text? argument with
  | _, some "--help" => some (help .program)
  | _, some "--version" => some version
  | Argument.dash :: letter :: _, _ =>
    match Char.ofUInt8 letter with
    | 'h' => some (help .program)
    | 'V' => some version
    | _ => none
  | _, _ => none

def read? : List ByteString → Option Request
  | [] => none
  | word :: rest =>
    match ByteString.text? word with
    | some "compile" => CompileLine.read? {} rest
    | some "groups" => readGroups? rest
    | some "help" => readHelp? rest
    | _ => readOption? word

end Request

end Vassal
