import Vassal.Section.Basic

-- The interpreter plugin. Every option of this group asks for the plugin, whose name carries the
-- version last given.

namespace Vassal

def pythonKind : GroupKind :=
  { id := "python", label := "python", autoPlugin := true }

structure PythonParams where
  version : Option Version := none
  home : Option String := none
  -- Directories added to the search path of modules.
  searchPath : Option (List String) := none
  optimizationLevel : Option Nat := none
deriving DecidableEq, Repr

namespace Section

-- A version is remembered, and only a new one replaces it.
def rememberVersion (s : Section) (kind : GroupKind) (version : Option Version) : Section :=
  match version with
  | some version => s.setVersion kind version
  | none => s

def setPython (s : Section) (p : PythonParams) : Section :=
  ((s.enter pythonKind).rememberVersion pythonKind p.version).setAllIn pythonKind
    [.ofText? "pyhome" p.home,
     .adding "pythonpath" (.ofOption .ofTexts p.searchPath),
     .ofNat? "optimize" p.optimizationLevel]

-- Ask for the plugin without setting anything.
def activatePython (s : Section) : Section :=
  let s := s.enter pythonKind
  s.activate (s.groupName pythonKind)

def setWsgi (s : Section) (module callable : Option String) : Section :=
  s.setAllIn pythonKind [.ofText? "wsgi" module, .ofText? "callable" callable]

end Section

end Vassal
