import Vassal.Groups.Process
import Vassal.Groups.Python
import Vassal.Groups.Workers
import Vassal.Section.Directives

-- Starting points for sections.
--
-- The nice one is strict about options, supervises its workers, cleans up after itself and runs
-- one worker for each core unless told otherwise; the other one adds an interpreter to it.

namespace Vassal

structure NiceParams where
  name : Option String := none
  touchReload : Option (List String) := none
  workers : Option Nat := none
  -- Threads of each worker.
  threads : Option Nat := none
deriving DecidableEq, Repr

namespace Section

-- No number of workers, like none at all, leaves their number to the machine.
def setNiceWorkers (s : Section) : Option Nat → Section
  | some (count + 1) => s.setWorkers { count := some (count + 1) }
  | _ => s.setWorkersAuto

def applyNice (s : Section) (p : NiceParams) : Section :=
  let s := s.setStrict (some true)
  let s := if p.touchReload.isSome then s.setMainProcess { touchReload := p.touchReload } else s
  let s := (s.setNiceWorkers p.workers).setThreads none p.threads
  let s := (s.setMainProcess { vacuum := some true }).setNaming (some true) none
  (s.setMasterProcess { enable := some true }).setLocks { thunderLock := some true }

def applyPython (s : Section) (p : NiceParams) (python : PythonParams) (wsgiModule : Option String) :
    Section :=
  ((s.applyNice p).setPython python).activatePython.setWsgi wsgiModule none

def nice (p : NiceParams) : Section :=
  (named p.name).applyNice p

def python (p : NiceParams) (python : PythonParams) (wsgiModule : Option String) : Section :=
  (named p.name).applyPython p python wsgiModule

end Section

end Vassal
