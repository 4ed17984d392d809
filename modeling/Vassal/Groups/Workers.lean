import Vassal.Section.Basic

-- Worker processes, their threads, mules and farms.

namespace Vassal

def workersKind : GroupKind :=
  { id := "workers", label := "workers" }

structure WorkersParams where
  count : Option Nat := none
deriving DecidableEq, Repr

-- A named group of mules; a message to the farm is taken by one of them.
structure Farm where
  name : String
  mules : List Nat
deriving DecidableEq, Repr

namespace Farm

def render (f : Farm) : String :=
  f.name ++ ":" ++ String.intercalate "," (f.mules.map toString)

end Farm

namespace Section

def setWorkers (s : Section) (p : WorkersParams) : Section :=
  s.setAllIn workersKind [.ofNat? "workers" p.count]

-- One worker for every core of the machine.
def setWorkersAuto (s : Section) : Section :=
  s.setAllIn workersKind [.ofText "workers" "%k"]

def setThreads (s : Section) (enable : Option Bool) (perWorker : Option Nat) : Section :=
  s.setAllIn workersKind [.ofFlag "enable-threads" enable, .ofNat? "threads" perWorker]

def setMules (s : Section) (count : Option Nat) (farms : List Farm) : Section :=
  s.setAllIn workersKind
    [.ofNat? "mules" count, .adding "farm" (.ofTexts (farms.map Farm.render))]

end Section

end Vassal
