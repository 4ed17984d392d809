import Vassal.Offload.Envelope
import Vassal.Server.Basic

-- Functions that processes have mules run for them.
--
-- The process that asks and the mule that runs the function both know it by its name.

namespace Vassal

abbrev OffloadFunction :=
  List Json → List (String × Json) → Json

-- A function by its name, and who is to run it.
structure Offload where
  func : String
  target : MessageTarget := default
deriving DecidableEq, Repr

namespace Offload

def message (o : Offload) (args : List Json) (kwargs : List (String × Json)) : ByteArray :=
  ({ marker := Envelope.offloadMarker, func := o.func, args, kwargs } : Envelope).render.toUTF8

-- Whether there was room for the message.
def send {σ η : Type} [Server σ η] (o : Offload) (args : List Json)
    (kwargs : List (String × Json)) : Attempt σ Bool :=
  Server.sendToMules (o.message args kwargs) o.target

end Offload

structure OffloadRegistry where
  -- In ascending order of names.
  functions : List (String × OffloadFunction) := []

namespace OffloadRegistry

instance : EmptyCollection OffloadRegistry :=
  ⟨{}⟩

-- A later function takes the place of an earlier one with its name. Who registers a function can
-- ask the target to run it.
def register (r : OffloadRegistry) (name : String) (target : MessageTarget) (f : OffloadFunction) :
    Offload × OffloadRegistry :=
  ({ func := name, target }, ⟨Ascending.put name f r.functions⟩)

def function? (r : OffloadRegistry) (name : String) : Option OffloadFunction :=
  r.functions.lookup name

def contains (r : OffloadRegistry) (name : String) : Bool :=
  (r.function? name).isSome

def names (r : OffloadRegistry) : List String :=
  r.functions.map Prod.fst

def get (r : OffloadRegistry) (name : String) (target : MessageTarget) : Except Error Offload :=
  if r.contains name then .ok { func := name, target } else .error (.unknownOffload name)

-- Run the function that a message asks for, if it asks for one that is known here.
def run? (r : OffloadRegistry) (message : ByteArray) : Option Json := do
  let e ← Envelope.ofBytes? message
  if e.marker = Envelope.offloadMarker then
    let f ← r.function? e.func
    return f e.args e.kwargs
  else none

end OffloadRegistry

end Vassal
