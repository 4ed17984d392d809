import Vassal.Section.Basic

-- The main process, the master process that supervises the workers, and the locks between them.

namespace Vassal

def mainProcessKind : GroupKind :=
  { id := "main_process", label := "main_process" }

def masterProcessKind : GroupKind :=
  { id := "master_process", label := "master_process" }

def locksKind : GroupKind :=
  { id := "locks", label := "locks" }

structure MainProcessParams where
  -- Reload when one of these files is touched.
  touchReload : Option (List String) := none
  -- Remove generated files and sockets on exit.
  vacuum : Option Bool := none
  pidFile : Option String := none
deriving DecidableEq, Repr

structure MasterProcessParams where
  enable : Option Bool := none
deriving DecidableEq, Repr

structure LocksParams where
  -- Only one worker at a time waits for connections.
  thunderLock : Option Bool := none
deriving DecidableEq, Repr

namespace Section

def setMainProcess (s : Section) (p : MainProcessParams) : Section :=
  s.setAllIn mainProcessKind
    [.adding "touch-reload" (.ofOption .ofTexts p.touchReload),
     .ofFlag "vacuum" p.vacuum,
     .ofText? "pidfile" p.pidFile]

-- Processes get meaningful names, and a common beginning.
def setNaming (s : Section) (automatic : Option Bool) (leading : Option String) : Section :=
  s.setAllIn mainProcessKind
    [.ofFlag "auto-procname" automatic, .ofText? "procname-prefix" leading]

def setMasterProcess (s : Section) (p : MasterProcessParams) : Section :=
  s.setAllIn masterProcessKind [.ofFlag "master" p.enable]

def setLocks (s : Section) (p : LocksParams) : Section :=
  s.setAllIn locksKind [.ofFlag "thunder-lock" p.thunderLock]

end Section

end Vassal
