import Vassal.Server.Basic

-- Signals and what a process does when one arrives.
--
-- The server is told which processes a signal goes to and what they do about it, and the process
-- keeps that, too. The handlers of a process stand in the order in which they were registered.

namespace Vassal

-- The processes that a signal is delivered to.
inductive SignalTarget
  -- The first worker that is free.
  | worker
  | workers
  | workerAt (n : Nat)
  -- Workers that have not been put to rest.
  | activeWorkers
  -- The first mule that is free.
  | mule
  | mules
  | muleAt (n : Nat)
  -- The first spooler that is free.
  | spooler
  | farmAt (n : Nat)
  | farmNamed (name : String)
deriving DecidableEq, Repr

namespace SignalTarget

instance : Inhabited SignalTarget :=
  ⟨worker⟩

def render : SignalTarget → String
  | worker => "worker"
  | workers => "workers"
  | workerAt n => "worker" ++ toString n
  | activeWorkers => "active-workers"
  | mule => "mule"
  | mules => "mules"
  | muleAt n => "mule" ++ toString n
  | spooler => "spooler"
  | farmAt n => "farm" ++ toString n
  | farmNamed name => "farm_" ++ name

end SignalTarget

structure SignalDescription (η : Type) where
  number : SignalNumber
  target : SignalTarget
  handler : η
deriving DecidableEq, Repr

structure SignalRegistry (η : Type) where
  signals : List (SignalDescription η) := []
deriving DecidableEq, Repr

namespace SignalRegistry

variable {η : Type}

instance : EmptyCollection (SignalRegistry η) :=
  ⟨{}⟩

def size (r : SignalRegistry η) : Nat :=
  r.signals.length

def isEmpty (r : SignalRegistry η) : Bool :=
  r.signals.isEmpty

def push (r : SignalRegistry η) (d : SignalDescription η) : SignalRegistry η :=
  ⟨r.signals ++ [d]⟩

-- The description of a signal that was registered first.
def get? (r : SignalRegistry η) (number : SignalNumber) : Option (SignalDescription η) :=
  r.signals.find? (·.number == number)

end SignalRegistry

-- A process attached to a server, with its handlers.
structure Attached (σ η : Type) where
  server : σ
  handlers : SignalRegistry η := ∅

namespace Attached

variable {σ η α : Type}

-- A call to the server, which has no effect on the handlers.
def call (a : Attempt σ α) : Attempt (Attached σ η) α := fun p =>
  match a p.server with
  | .ok x server => .ok x { p with server }
  | .error e server => .error e { p with server }

-- The handler is kept only if the server takes the registration.
def register [Server σ η] (number : SignalNumber) (target : Option SignalTarget) (handler : η) :
    Attempt (Attached σ η) Unit := do
  let target := target.getD default
  call (Server.registerSignal number target.render handler)
  modify fun p => { p with handlers := p.handlers.push { number, target, handler } }

end Attached

end Vassal
