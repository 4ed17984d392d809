import Vassal.Json.Syntax

-- The messages that ask a mule to run a function: the function's name and its arguments, in a
-- JSON object whose first field marks it as such a message.

namespace Vassal

structure Envelope where
  marker : String
  func : String
  args : List Json := []
  -- In ascending order of names.
  kwargs : List (String × Json) := []
deriving Repr

namespace Envelope

def offloadMarker : String :=
  "uwcf"

def render (e : Envelope) : String :=
  (Json.object [("marker", .string e.marker), ("func", .string e.func),
    ("args", .array e.args), ("kwargs", .object e.kwargs)]).render

open Text Json Text.Reader

-- The envelope and a field of it are two containers already.
def arguments : Reader Piece (List Json) :=
  items (value (depthLimit - 2))

def namedArguments : Reader Piece (List (String × Json)) :=
  entries (value (depthLimit - 2))

inductive Field
  | marker (s : String)
  | func (s : String)
  | args (items : List Json)
  | kwargs (entries : List (String × Json))
  | unknown

namespace Field

def marker? : Field → Option String
  | marker s => some s
  | _ => none

def func? : Field → Option String
  | func s => some s
  | _ => none

def args? : Field → Option (List Json)
  | args items => some items
  | _ => none

def kwargs? : Field → Option (List (String × Json))
  | kwargs entries => some entries
  | _ => none

-- The fields of an envelope are kept; others may hold anything.
def read : Reader Piece Field := do
  let name ← text
  mark ':'
  match name with
  | "marker" => return marker (← text)
  | "func" => return func (← text)
  | "args" => return args (← arguments)
  | "kwargs" => return kwargs (← namedArguments)
  | _ =>
    passOver
    return unknown

end Field

-- The one field of a kind. There may be none, if there is a value to take its place.
def only? {α : Type} (found : List α) (missing : Option α) : Option α :=
  match found with
  | [] => missing
  | [a] => some a
  | _ => none

def ofFields? (fields : List Field) : Option Envelope := do
  return {
    marker := ← only? (fields.filterMap Field.marker?) none
    func := ← only? (fields.filterMap Field.func?) none
    args := ← only? (fields.filterMap Field.args?) (some [])
    kwargs := ← only? (fields.filterMap Field.kwargs?) (some []) }

def fromObject : Reader Piece Envelope := do
  match ofFields? (← enclosed '\x7b' '\x7d' Field.read) with
  | some e => return e
  | none => failure

-- An envelope may also be an array of its fields, where the last ones may be left out.
def fromArray : Reader Piece Envelope := do
  mark '['
  let marker ← text
  mark ','
  let func ← text
  let rest ← optional (do
    mark ','
    let args ← arguments
    let kwargs ← optional (do
      mark ','
      namedArguments)
    return (args, kwargs.getD []))
  mark ']'
  let (args, kwargs) := rest.getD ([], [])
  return { marker, func, args, kwargs }

def ofBytes? (bytes : ByteArray) : Option Envelope :=
  readAll? (fromObject <|> fromArray) bytes

end Envelope

end Vassal
