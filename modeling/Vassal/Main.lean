import Vassal.Program.Run

-- The program on a real machine, for files whose names are texts.

namespace Vassal

-- What the machine says about a file that it refuses.
def FileFault.ofIO : IO.Error → FileFault
  | .noFileOrDirectory .. => .notFound
  | .inappropriateType _ code _ =>
    if code = 20 then .notADirectory else .isADirectory
  | e => .other (toString e)

def catching {α : Type} (act : IO α) : IO (Except FileFault α) := do
  match ← act.toBaseIO with
  | .ok a => return .ok a
  | .error e => return .error (.ofIO e)

-- Do something with a file; a name that is no text is refused.
def onFile {α : Type} (path : RawPath) (act : String → IO α) : IO (Except FileFault α) :=
  match ByteString.text? path with
  | some name => catching (act name)
  | none => return .error (.other "the name of the file is no text")

-- Write a file that is not there yet, under one of so many names.
def writeUnused (start ending : String) (bytes : ByteArray) : Nat → IO RawPath
  | 0 => throw (IO.userError "no name is left for a temporary file")
  | tries + 1 => do
    let path := start ++ toString (← IO.rand 0 999999) ++ ending
    match ← (IO.FS.Handle.mk path .writeNew).toBaseIO with
    | .error _ => writeUnused start ending bytes tries
    | .ok handle =>
      handle.write bytes
      return .ofText path

-- The variable `XDG_CONFIG_HOME` if it holds an absolute path, and else `.config` in the home
-- directory.
def settingsByVariables : IO (Option RawPath) := do
  let configured := (← IO.getEnv "XDG_CONFIG_HOME").filter Path.isAbsolute
  let home := (← IO.getEnv "HOME").filter (!·.isEmpty)
  return (configured <|> home.map (Path.join · ".config")).map .ofText

instance : Host IO where
  readVariable key := do return (← IO.getEnv key).map String.toUTF8
  settingsDirectory := settingsByVariables
  isThere path := do
    return (← onFile path fun name => discard (IO.FS.Handle.mk name .read)) matches .ok _
  read path := onFile path fun name => do (← IO.FS.Handle.mk name .read).readBinToEnd
  write path bytes := onFile path fun name => IO.FS.writeBinFile name bytes
  writeNew start ending bytes := do
    let directory := (← IO.getEnv "TMPDIR").getD "/tmp"
    let name := Path.join directory (ByteString.display start)
    catching (writeUnused name (ByteString.display ending) bytes 100)

end Vassal

def main (arguments : List String) : IO UInt32 := do
  let outcome ← (Vassal.runLine (arguments.map .ofText) : IO Vassal.Outcome)
  (← IO.getStdout).putStr outcome.out
  (← IO.getStderr).putStr outcome.err
  return outcome.code.toUInt32
