import Vassal.Error
import Vassal.Path

-- What a program finds on the machine that it runs on: the variables of its environment, and files.

namespace Vassal

-- The bytes a variable holds, if it is set.
abbrev Environment :=
  String → Option ByteArray

namespace Environment

-- An environment is a block of strings `NAME=value`; a variable is the first of them that begins
-- with its name and an equals sign. The empty name and names with a NUL are never set.
def ofVariables (assignments : List (String × ByteArray)) : Environment := fun key =>
  if key.isEmpty || key.toList.contains '\x00' then none
  else
    let start := (key ++ "=").toUTF8.toList
    assignments.findSome? fun (name, value) =>
      let block := (name ++ "=").toUTF8.toList ++ value.toList
      if start.isPrefixOf block then some ⟨(block.drop start.length).toArray⟩ else none

def copy (env : Environment) (key : String) : Except MissingVariable String :=
  match env key with
  | none => .error .notSet
  | some bytes =>
    match Text.Utf8.decode? bytes with
    | some text => .ok text
    | none => .error (.notText (Text.Utf8.pieces bytes))

end Environment

class Host (m : Type → Type) where
  readVariable : String → m (Option ByteArray)
  -- The directory for the settings of a user's programs, if there is one. Each system has its own
  -- rule for where that is; nothing is taken for granted about the answer.
  settingsDirectory : m (Option RawPath)
  -- Whether there is a file or a directory.
  isThere : RawPath → m Bool
  read : RawPath → m (Except FileFault ByteArray)
  -- Make a file, or replace what it holds.
  write : RawPath → ByteArray → m (Except FileFault Unit)
  -- Make a temporary file under a new name with this beginning and this end. The answer is its
  -- path.
  writeNew : ByteString → ByteString → ByteArray → m (Except FileFault RawPath)

-- A program that may fail asks the same machine.
instance {ε : Type} {m : Type → Type} [Monad m] [Host m] : Host (ExceptT ε m) where
  readVariable key := ExceptT.lift (Host.readVariable key)
  settingsDirectory := ExceptT.lift Host.settingsDirectory
  isThere path := ExceptT.lift (Host.isThere path)
  read path := ExceptT.lift (Host.read path)
  write path bytes := ExceptT.lift (Host.write path bytes)
  writeNew start ending bytes := ExceptT.lift (Host.writeNew start ending bytes)

end Vassal
