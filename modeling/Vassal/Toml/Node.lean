import Vassal.Toml.Value

-- Tables while a document defines them.
--
-- Where a table came from decides who may still add to it: dotted keys only extend tables that
-- dotted keys or the paths of headers made, a header may claim a table that only paths have
-- mentioned, and what is written as a value is finished.

namespace Vassal.Toml

inductive Origin
  -- A table with a header of its own.
  | header
  -- Mentioned in the path of a header below it.
  | path
  -- Made by a dotted key.
  | dotted
deriving DecidableEq, Repr

inductive Node
  | leaf (v : Value)
  | table (origin : Origin) (entries : List (String × Node))
  -- The elements of an array of tables, the last one still open.
  | elements (tables : List (List (String × Node)))
deriving Repr

abbrev Nodes :=
  List (String × Node)

namespace Node

mutual

def toValue : Node → Value
  | leaf v => v
  | table _ entries => .table (values entries)
  | elements tables => .array (tableValues tables)

def values : Nodes → Table
  | [] => []
  | (k, n) :: rest => (k, toValue n) :: values rest

def tableValues : List Nodes → List Value
  | [] => []
  | entries :: rest => .table (values entries) :: tableValues rest

end

def replace (k : String) (n : Node) (entries : Nodes) : Nodes :=
  entries.map fun e => if e.1 = k then (k, n) else e

def erase (k : String) (entries : Nodes) : Nodes :=
  entries.eraseP (·.1 == k)

-- Change the table at the end of a path, making the tables on the way that are missing. `change`
-- is told where the table came from; elements of an array count as having headers.
def change (made : Origin) : List String → (Origin → Nodes → Option Nodes) → Origin → Nodes →
    Option Nodes
  | [], f, origin, entries => f origin entries
  | k :: path, f, _, entries =>
    match entries.lookup k with
    | none => do
      let inner ← change made path f made []
      return entries ++ [(k, table made inner)]
    | some (leaf _) => none
    | some (table origin inner) =>
      if made = .dotted && origin = .header then none
      else do
        let inner ← change made path f origin inner
        return replace k (table origin inner) entries
    | some (elements tables) =>
      match tables.getLast? with
      | none => none
      | some last => do
        let last ← change made path f .header last
        return replace k (elements (tables.dropLast ++ [last])) entries

-- A new key in a table. A dotted key belongs into a table that dotted keys have made.
def assign (path : List String) (v : Value) (entries : Nodes) : Option Nodes :=
  match path.getLast? with
  | none => none
  | some k =>
    change .dotted path.dropLast
      (fun origin entries =>
        if path.dropLast.isEmpty || origin = .dotted then
          if (entries.lookup k).isSome then none else some (entries ++ [(k, leaf v)])
        else none)
      .header entries

def assignAll (assignments : List (List String × Value)) (entries : Nodes) : Option Nodes :=
  assignments.foldlM (fun entries a => assign a.1 a.2 entries) entries

end Node

end Vassal.Toml
