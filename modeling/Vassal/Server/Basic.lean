import Vassal.Error
import Vassal.Text.Utf8

-- The calls of a running server, for the processes that it runs.
--
-- A server has a state of its own. Questions only look at it; calls may change it, and what a
-- refused call has changed stays changed. Each server knows one type of handlers for signals.

namespace Vassal

-- Where a message to mules goes. Mule 0 stands for the first one that is free.
inductive MessageTarget
  | mule (id : Nat)
  | farm (name : String)
deriving DecidableEq, Repr

namespace MessageTarget

instance : Inhabited MessageTarget :=
  ⟨mule 0⟩

def render : MessageTarget → String
  | mule id => "mule" ++ toString id
  | farm name => "farm " ++ name

end MessageTarget

-- How a mule waits for its next message.
structure MessageOptions where
  -- Let signal handlers run meanwhile.
  signals : Bool := true
  -- Take messages to the mule's farms, too.
  farms : Bool := false
  bufferSize : Nat := 65536
  -- In milliseconds; without one the mule waits until there is a message.
  timeout : Option Nat := none
deriving DecidableEq, Repr

-- A signal has a number of one byte.
abbrev SignalNumber :=
  Fin 256

class Server (σ : Type) (η : outParam Type) where
  -- The mule that this process is; a process that is no mule has 0.
  muleId : σ → Nat
  inFarm : σ → String → Bool
  isRegistered : σ → SignalNumber → Bool
  lastReceived : σ → SignalNumber
  -- Whether there was room for the message.
  sendToMules : ByteArray → MessageTarget → Attempt σ Bool
  nextMuleMessage : MessageOptions → Attempt σ (Option ByteArray)
  sendToFarm : String → ByteArray → Attempt σ Unit
  nextFarmMessage : Attempt σ (Option ByteArray)
  -- Say where a signal goes and what is done about it there.
  registerSignal : SignalNumber → String → η → Attempt σ Unit
  raiseSignal : SignalNumber → Option String → Attempt σ Unit
  awaitSignal : Option SignalNumber → Attempt σ Unit

namespace Server

variable {σ η : Type} [Server σ η]

def currentMule? (s : σ) : Option Nat :=
  match muleId s with
  | 0 => none
  | id => some id

-- The next message to this mule as a text, unless none comes in time.
def muleText (options : MessageOptions) : Attempt σ (Option String) := do
  return (← nextMuleMessage options).map Text.Utf8.lossy

-- The next message to a farm of this mule as a text, if there is one.
def farmText : Attempt σ (Option String) := do
  return (← nextFarmMessage).map Text.Utf8.lossy

-- The first number that no signal has.
def availableNumber? (s : σ) : Option SignalNumber :=
  (List.finRange 256).find? fun number => !isRegistered s number

def availableNumber : Attempt σ SignalNumber := do
  match availableNumber? (← get) with
  | some number => return number
  | none => throw .noSignalsAvailable

end Server

end Vassal
