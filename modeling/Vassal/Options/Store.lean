-- The options of a section: an ordered map from option name to value.
--
-- A name keeps the place where it was first stored and stands at most once; an option given
-- several times is one entry holding a list. The view of a store is its list of entries, and
-- `get?` reads that list.

namespace Vassal

-- What is stored under a name: one text, or the texts of an option that may be repeated.
inductive Value
  | single (text : String)
  | list (texts : List String)
deriving DecidableEq, Repr

namespace Value

-- One line of output per text.
def lines : Value → List String
  | single text => [text]
  | list texts => texts

end Value

structure Store where
  entries : List (String × Value) := []
deriving DecidableEq, Repr

namespace Store

instance : EmptyCollection Store :=
  ⟨{}⟩

def size (s : Store) : Nat :=
  s.entries.length

def isEmpty (s : Store) : Bool :=
  s.entries.isEmpty

-- The names in the order of output.
def keys (s : Store) : List String :=
  s.entries.map Prod.fst

def get? (s : Store) (key : String) : Option Value :=
  s.entries.lookup key

def contains (s : Store) (key : String) : Bool :=
  (s.get? key).isSome

-- Replace the value of `key` where it stands, or append one when there is none.
def upsertEntry (key : String) (f : Option Value → Value) :
    List (String × Value) → List (String × Value)
  | [] => [(key, f none)]
  | (k, v) :: rest =>
    if k = key then (k, f (some v)) :: rest else (k, v) :: upsertEntry key f rest

def upsert (s : Store) (key : String) (f : Option Value → Value) : Store :=
  ⟨upsertEntry key f s.entries⟩

def insert (s : Store) (key : String) (value : Value) : Store :=
  s.upsert key fun _ => value

-- The texts already stored come first; a single text becomes the first of the list.
def extend (s : Store) (key : String) (texts : List String) : Store :=
  s.upsert key fun old => .list ((old.map Value.lines).getD [] ++ texts)

def erase (s : Store) (key : String) : Store :=
  ⟨s.entries.eraseP (·.1 == key)⟩

-- What ends up stored when `new` is placed over `old`: two lists are joined, else the new value
-- wins.
def placed (old : Option Value) (new : Value) : Value :=
  match old, new with
  | some (.list old), .list new => .list (old ++ new)
  | _, new => new

-- Take the entry out and put it back at `position` among the others, or last when there are
-- fewer of them.
def insertAt (s : Store) (key : String) (value : Value) (position : Nat) : Store :=
  let others := (s.erase key).entries
  ⟨others.insertIdx (min position others.length) (key, placed (s.get? key) value)⟩

def ofList (entries : List (String × Value)) : Store :=
  entries.foldl (fun s e => s.insert e.1 e.2) ∅

def merge (s other : Store) : Store :=
  other.entries.foldl (fun s e => s.insert e.1 e.2) s

end Store

-- Maps whose entries have no order of their own are kept in ascending order of their keys.
namespace Ascending

variable {κ α : Type} [LT κ] [DecidableLT κ] [DecidableEq κ]

-- An entry replaces the one with its key, or goes to its place among the others.
def put (key : κ) (value : α) : List (κ × α) → List (κ × α)
  | [] => [(key, value)]
  | (k, v) :: rest =>
    if k = key then (key, value) :: rest
    else if key < k then (key, value) :: (k, v) :: rest
    else (k, v) :: put key value rest

-- Of entries with the same key the last one stays.
def ofList (entries : List (κ × α)) : List (κ × α) :=
  entries.foldl (fun kept e => put e.1 e.2 kept) []

end Ascending

end Vassal
