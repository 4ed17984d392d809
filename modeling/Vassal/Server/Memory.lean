import Vassal.Server.Basic

-- A server in memory. It writes down every call, and refuses the calls that it is told to.

namespace Vassal

namespace Server

inductive Call (η : Type)
  | sendToMules (message : ByteArray) (target : MessageTarget)
  | nextMuleMessage (options : MessageOptions)
  | sendToFarm (farm : String) (message : ByteArray)
  | nextFarmMessage
  | registerSignal (number : SignalNumber) (target : String) (handler : η)
  | raiseSignal (number : SignalNumber) (remote : Option String)
  | awaitSignal (number : Option SignalNumber)

-- What the call is named in the server's own interface.
def Call.name {η : Type} : Call η → String
  | sendToMules _ _ => "mule_msg"
  | nextMuleMessage _ => "mule_get_msg"
  | sendToFarm _ _ => "farm_msg"
  | nextFarmMessage => "farm_get_msg"
  | registerSignal _ _ _ => "register_signal"
  | raiseSignal _ _ => "signal"
  | awaitSignal _ => "signal_wait"

structure Memory (η : Type) where
  muleId : Nat := 0
  farms : List String := []
  inbox : List ByteArray := []
  farmInbox : List ByteArray := []
  registered : List SignalNumber := []
  lastReceived : SignalNumber := 0
  isFull : Bool := false
  -- Names of the calls that are refused.
  refused : List String := []
  -- Every call up to now, in order.
  calls : List (Call η) := []

namespace Memory

variable {η : Type}

def record (c : Call η) : Attempt (Memory η) Unit := do
  modify fun s => { s with calls := s.calls ++ [c] }
  if (← get).refused.contains c.name then throw (.platform (c.name ++ " refused"))

instance : Server (Memory η) η where
  muleId s := s.muleId
  inFarm s farm := s.farms.contains farm
  isRegistered s number := s.registered.contains number
  lastReceived s := s.lastReceived
  sendToMules message target := do
    record (.sendToMules message target)
    return !(← get).isFull
  nextMuleMessage options := do
    record (.nextMuleMessage options)
    let s ← get
    if s.muleId = 0 then throw (.platform "not a mule")
    set { s with inbox := s.inbox.tail }
    return s.inbox.head?
  sendToFarm farm message := record (.sendToFarm farm message)
  nextFarmMessage := do
    record .nextFarmMessage
    let s ← get
    set { s with farmInbox := s.farmInbox.tail }
    return s.farmInbox.head?
  registerSignal number target handler := do
    record (.registerSignal number target handler)
    modify fun s => { s with registered := number :: s.registered }
  raiseSignal number remote := do
    record (.raiseSignal number remote)
    modify fun s => { s with lastReceived := number }
  awaitSignal number := record (.awaitSignal number)

end Memory

end Server

end Vassal
