import Vassal.Text.Quoted

-- Names of files, with slashes between the directories that lead to them.
--
-- The path that an option holds is a text. A machine knows a file by a string of bytes, which may
-- be no text at all. Both are lists of units, and one of the units is the slash.

namespace Vassal

-- What a machine hands over as an argument or as the name of a file.
abbrev ByteString :=
  List UInt8

namespace ByteString

def ofText (s : String) : ByteString :=
  s.toUTF8.data.toList

-- The text that the bytes spell, when all of them do.
def text? (b : ByteString) : Option String :=
  Text.Utf8.decode? b.toByteArray

-- What is printed of the bytes; a replacement character stands for what is no text.
def display (b : ByteString) : String :=
  Text.Utf8.lossy b.toByteArray

-- The bytes as messages show them.
def quoted (b : ByteString) : String :=
  Text.Quoted.encode (Text.Utf8.pieces b.toByteArray)

end ByteString

namespace Path

-- One path after another: an absolute path stands for itself, and the two are separated unless
-- the first one is empty or ends in a slash.
def joinUnits {α : Type} [DecidableEq α] (slash : α) (base path : List α) : List α :=
  if path.head? = some slash then path
  else if base = [] ∨ base.getLast? = some slash then base ++ path
  else base ++ slash :: path

def isAbsolute (path : String) : Bool :=
  path.toList.head? == some '/'

def join (base path : String) : String :=
  String.ofList (joinUnits '/' base.toList path.toList)

end Path

-- The path by which a machine knows a file.
abbrev RawPath :=
  ByteString

namespace RawPath

def slash : UInt8 :=
  0x2F

def isAbsolute (path : RawPath) : Bool :=
  path.head? == some slash

def endsInSlash (path : RawPath) : Bool :=
  path.getLast? == some slash

def join (base path : RawPath) : RawPath :=
  Path.joinUnits slash base path

-- The names between the slashes; two slashes in a row have an empty name between them.
def names (path : RawPath) : List ByteString :=
  path.splitOn slash

end RawPath

end Vassal
