import Vassal.Error
import Vassal.Path

-- Files and the directories that they are in.
--
-- A place is the list of names that lead to it from the root. A directory is there as long as
-- something is below it, and the directory that relative paths begin in is always there.

namespace Vassal

inductive FileNode
  | file (bytes : ByteArray)
  | directory

structure FileTree where
  files : List (List ByteString × ByteArray) := []
  -- Where relative paths begin.
  current : List ByteString := []

namespace FileTree

def node? (t : FileTree) (place : List ByteString) : Option FileNode :=
  match t.files.lookup place with
  | some bytes => some (.file bytes)
  | none =>
    if place.isPrefixOf t.current || t.files.any (place.isPrefixOf ·.1) then some .directory
    else none

-- The directory at a place.
def checkDirectory (t : FileTree) (place : List ByteString) : Except FileFault Unit :=
  match t.node? place with
  | some .directory => .ok ()
  | some (.file _) => .error .notADirectory
  | none => .error .notFound

-- The longest name and the longest path, in bytes.
def maxName : Nat :=
  255

def maxPath : Nat :=
  4095

-- The place that a name in a directory stands for, whether or not something is there. A dot stands
-- for the directory itself, and two dots for the one above it.
def step (t : FileTree) (place : List ByteString) (name : ByteString) :
    Except FileFault (List ByteString) := do
  t.checkDirectory place
  match name with
  | [] | [0x2E] => return place
  | [0x2E, 0x2E] => return place.dropLast
  | name => if maxName < name.length then throw .nameTooLong else return place ++ [name]

def walk (t : FileTree) (path : RawPath) (names : List ByteString) :
    Except FileFault (List ByteString) :=
  if path.isEmpty then .error .notFound
  else if path.contains 0 then .error .nulInName
  else if maxPath < path.length then .error .nameTooLong
  else names.foldlM t.step (if RawPath.isAbsolute path then [] else t.current)

-- The place that a path leads to; a slash at its end asks for a directory.
def place (t : FileTree) (path : RawPath) : Except FileFault (List ByteString) :=
  t.walk path (RawPath.names path)

def isThere (t : FileTree) (path : RawPath) : Bool :=
  match t.place path with
  | .ok place => (t.node? place).isSome
  | .error _ => false

def read (t : FileTree) (path : RawPath) : Except FileFault ByteArray := do
  match t.node? (← t.place path) with
  | some (.file bytes) => return bytes
  | some .directory => throw .isADirectory
  | none => throw .notFound

def put (t : FileTree) (place : List ByteString) (bytes : ByteArray) : FileTree :=
  { t with files := (place, bytes) :: t.files.filter (·.1 ≠ place) }

-- A file cannot be made where a directory is, nor by a path that ends in a slash.
def write (t : FileTree) (path : RawPath) (bytes : ByteArray) : Except FileFault FileTree := do
  let names := ((RawPath.names path).reverse.dropWhile List.isEmpty).reverse
  let place ← t.walk path names
  match t.node? place with
  | some .directory => throw .isADirectory
  | _ => if RawPath.endsInSlash path then throw .isADirectory else return t.put place bytes

end FileTree

end Vassal
