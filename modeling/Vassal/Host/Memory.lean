import Vassal.Host.Basic
import Vassal.Host.FileTree

-- A machine in memory: its files, its environment, its rule for the directory of a user's settings,
-- and the directory for temporary files.

namespace Vassal

namespace Host

structure Memory where
  tree : FileTree := {}
  env : Environment := fun _ => none
  settings : Environment → Option RawPath := fun _ => none
  temporary : RawPath := []

namespace Memory

-- The first numbered name that no file has; there are more numbers than files.
def freshPath (s : Memory) (start ending : ByteString) : RawPath :=
  let path (n : Nat) := RawPath.join s.temporary (start ++ .ofText (toString n) ++ ending)
  let n := (List.range s.tree.files.length).find? fun n => !s.tree.isThere (path n)
  path (n.getD s.tree.files.length)

def writeTo (path : RawPath) (bytes : ByteArray) : StateM Memory (Except FileFault Unit) :=
  fun s =>
    match s.tree.write path bytes with
    | .ok tree => (.ok (), { s with tree })
    | .error fault => (.error fault, s)

instance : Host (StateM Memory) where
  readVariable key := do return (← get).env key
  settingsDirectory := do
    let s ← get
    return s.settings s.env
  isThere path := do return (← get).tree.isThere path
  read path := do return (← get).tree.read path
  write := writeTo
  writeNew start ending bytes := do
    let path := (← get).freshPath start ending
    return (← writeTo path bytes).map fun _ => path

end Memory

end Host

end Vassal
