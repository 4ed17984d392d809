import Vassal.Toml.Syntax

-- The table that a document describes.

namespace Vassal.Toml

-- A table with a header stands where its header does: one that only paths had mentioned moves
-- to the end, with what it holds already.
def claimTable (k : String) (assignments : List (List String × Value)) (entries : Nodes) :
    Option Nodes :=
  match entries.lookup k with
  | none => do
    let inner ← Node.assignAll assignments []
    return entries ++ [(k, .table .header inner)]
  | some (.table .path inner) => do
    let inner ← Node.assignAll assignments inner
    return Node.erase k entries ++ [(k, .table .header inner)]
  | some _ => none

def addElement (k : String) (assignments : List (List String × Value)) (entries : Nodes) :
    Option Nodes := do
  let element ← Node.assignAll assignments []
  match entries.lookup k with
  | none => return entries ++ [(k, .elements [element])]
  | some (.elements tables) => return Node.replace k (.elements (tables ++ [element])) entries
  | some _ => none

def addBlock (root : Nodes) (b : Block) : Option Nodes :=
  match b.path.getLast? with
  | none => Node.assignAll b.assignments root
  | some k =>
    Node.change .path b.path.dropLast
      (fun _ => (if b.isElement then addElement else claimTable) k b.assignments) .header root

def parse? (text : String) : Option Table := do
  let (blocks, _) ← document text.toList
  return Node.values (← blocks.foldlM addBlock [])

end Vassal.Toml
