import Vassal.Section.Basic

-- Loading and mounting applications.

namespace Vassal

def applicationsKind : GroupKind :=
  { id := "applications", label := "applications" }

structure ApplicationsParams where
  -- Leave when no application can be loaded.
  exitIfNone : Option Bool := none
  maxPerWorker : Option Nat := none
  singleInterpreter : Option Bool := none
  noDefault : Option Bool := none
deriving DecidableEq, Repr

namespace Section

def setApplications (s : Section) (p : ApplicationsParams) : Section :=
  s.setAllIn applicationsKind
    [.ofFlag "need-app" p.exitIfNone,
     .ofNat? "max-apps" p.maxPerWorker,
     .ofFlag "single-interpreter" p.singleInterpreter,
     .ofFlag "no-default-app" p.noDefault]

-- Change the directory before applications are loaded, or after.
def changeDir (s : Section) (path : String) (afterLoad : Bool) : Section :=
  s.setAllIn applicationsKind [.ofText (if afterLoad then "chdir2" else "chdir") path]

-- Mounting into workers waits until they have been started.
def mount (s : Section) (mountpoint app : String) (intoWorker : Bool) : Section :=
  s.setAllIn applicationsKind
    [.adding (if intoWorker then "worker-mount" else "mount") (.text (mountpoint ++ "=" ++ app))]

-- After so many seconds without requests the server gives up its workers, or leaves.
def setIdle (s : Section) (timeout : Option Nat) (exit : Option Bool) : Section :=
  s.setAllIn applicationsKind [.ofNat? "idle" timeout, .ofFlag "die-on-idle" exit]

-- Applications are loaded by the workers and not by the master process.
def setLazy (s : Section) (affectMaster : Bool) : Section :=
  s.setAllIn applicationsKind [.ofFlag (if affectMaster then "lazy" else "lazy-apps") (some true)]

end Section

end Vassal
