import Vassal.Toml.Node
import Vassal.Toml.Scalar

-- The statements of a document: headers of tables, and keys with their values.
--
-- Values nest as deep as the depth that is left; each level of an array or an inline table uses
-- one up.

namespace Vassal.Toml

open Text Text.Reader

def arrayOf (value : Reader Char Value) : Reader Char Value := do
  unit '['
  let items ← optional (do
    let items ← separated
      (do
        gaps
        let item ← value
        gaps
        return item)
      (unit ',')
    discard (optional (unit ','))
    return items)
  gaps
  unit ']'
  return .array (items.getD [])

def assignment (value : Reader Char Value) : Reader Char (List String × Value) := do
  let path ← key
  unit '='
  spaces
  return (path, ← value)

def inlineTableOf (value : Reader Char Value) : Reader Char Value := do
  unit '\x7b'
  let assignments ← optional (separated
    (do
      let a ← assignment value
      spaces
      return a)
    (unit ','))
  spaces
  unit '\x7d'
  match Node.assignAll (assignments.getD []) [] with
  | some entries => return .table (Node.values entries)
  | none => failure

def value : Nat → Reader Char Value
  | 0 => failure
  | 1 => scalar
  | depth + 2 => do
    match ← peek with
    | some '[' => arrayOf (value (depth + 1))
    | some '\x7b' => inlineTableOf (value (depth + 1))
    | _ => scalar

-- A header and the assignments below it; the first block of a document has no header.
structure Block where
  path : List String := []
  -- The header adds an element to an array of tables.
  isElement : Bool := false
  assignments : List (List String × Value) := []

def blankLines : Reader Char Unit := do
  discard (many (do
    spaces
    newline <|> (do
      comment
      newline <|> atEnd)))
  spaces

def statement : Reader Char (List String × Value) := do
  blankLines
  let a ← assignment (value depthLimit)
  lineEnd
  return a

def header : Reader Char Block := do
  blankLines
  unit '['
  match ← optional (unit '[') with
  | some _ =>
    let path ← key
    word [']', ']']
    lineEnd
    return { path, isElement := true }
  | none =>
    let path ← key
    unit ']'
    lineEnd
    return { path }

def block : Reader Char Block := do
  let block ← header
  return { block with assignments := ← many statement }

-- A mark of the byte order may come first.
def document : Reader Char (List Block) := do
  discard (optional (unit (Char.ofNat 0xFEFF)))
  let first ← many statement
  let blocks ← many block
  blankLines
  atEnd
  return { assignments := first } :: blocks

end Vassal.Toml
