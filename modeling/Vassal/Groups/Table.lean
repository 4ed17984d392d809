import Vassal.Groups.Applications
import Vassal.Groups.Logging
import Vassal.Groups.Networking
import Vassal.Groups.Process
import Vassal.Groups.Python
import Vassal.Groups.Routing.Basic
import Vassal.Groups.Workers
import Vassal.Toml.Decode

-- Option groups by identifier, with parameters given as tables.
--
-- A table that has a parameter of the wrong type is refused as a whole, before the group is
-- touched; parameters that a group does not know are passed over.

namespace Vassal

open Toml

namespace ApplicationsParams

def ofTable? (t : Table) : Option ApplicationsParams := do
  return {
    exitIfNone := ← t.field? "exit_if_none" Value.boolean?
    maxPerWorker := ← t.field? "max_per_worker" (Value.bounded? 32)
    singleInterpreter := ← t.field? "single_interpreter" Value.boolean?
    noDefault := ← t.field? "no_default" Value.boolean? }

end ApplicationsParams

namespace LocksParams

def ofTable? (t : Table) : Option LocksParams := do
  return { thunderLock := ← t.field? "thunder_lock" Value.boolean? }

end LocksParams

namespace LoggingParams

def ofTable? (t : Table) : Option LoggingParams := do
  return {
    noRequests := ← t.field? "no_requests" Value.boolean?
    log4xx := ← t.field? "log_4xx" Value.boolean?
    log5xx := ← t.field? "log_5xx" Value.boolean? }

end LoggingParams

namespace MainProcessParams

def ofTable? (t : Table) : Option MainProcessParams := do
  return {
    touchReload := ← t.field? "touch_reload" (Value.listOf? Value.text?)
    vacuum := ← t.field? "vacuum" Value.boolean?
    pidFile := ← t.field? "pid_file" Value.text? }

end MainProcessParams

namespace MasterProcessParams

-- The parameter goes by two names, of which one may be used.
def ofTable? (t : Table) : Option MasterProcessParams := do
  match ← t.field? "enable" Value.boolean?, ← t.field? "enabled" Value.boolean? with
  | some _, some _ => none
  | some enable, none => return { enable := some enable }
  | none, enable => return { enable }

end MasterProcessParams

namespace NetworkingParams

def ofTable? (t : Table) : Option NetworkingParams := do
  return {
    bufferSize := ← t.field? "buffer_size" (Value.bounded? 32)
    listenQueueSize := ← t.field? "listen_queue_size" (Value.bounded? 32) }

end NetworkingParams

namespace Version

def ofValue? : Decoder Version := fun v =>
  (v.bounded? 32).map number <|> v.text?.map text

end Version

namespace PythonParams

def ofTable? (t : Table) : Option PythonParams := do
  return {
    version := ← t.field? "version" Version.ofValue?
    home := ← t.field? "python_home" Value.text?
    searchPath := ← t.field? "search_path" (Value.listOf? Value.text?)
    optimizationLevel := ← t.field? "optimization_level" (Value.bounded? 8) }

-- The parameters may also be listed, as long as there are no more than the group has.
def ofValue? : Decoder PythonParams
  | .array items =>
    let names := ["version", "python_home", "search_path", "optimization_level"]
    if items.length ≤ names.length then ofTable? (names.zip items) else none
  | .table t => ofTable? t
  | _ => none

end PythonParams

namespace RoutingParams

def ofTable? (t : Table) : Option RoutingParams := do
  return {
    printRules := ← t.field? "print_rules" Value.boolean?
    geoipCountry := ← t.field? "geoip_country" Value.text?
    geoipCity := ← t.field? "geoip_city" Value.text? }

end RoutingParams

namespace WorkersParams

def ofTable? (t : Table) : Option WorkersParams := do
  return { count := ← t.field? "count" (Value.bounded? 32) }

end WorkersParams

-- What a table does to a section, if its parameters are well typed.
abbrev TableSetter :=
  Table → Option (Section → Section)

def tableSetter {α : Type} (decode : Table → Option α) (set : Section → α → Section) : TableSetter :=
  fun t => (decode t).map fun params s => set s params

-- The groups that tables can be given for, in ascending order of identifiers.
def tableGroups : List (String × TableSetter) :=
  [(applicationsKind.id, tableSetter ApplicationsParams.ofTable? Section.setApplications),
   (locksKind.id, tableSetter LocksParams.ofTable? Section.setLocks),
   (loggingKind.id, tableSetter LoggingParams.ofTable? Section.setLogging),
   (mainProcessKind.id, tableSetter MainProcessParams.ofTable? Section.setMainProcess),
   (masterProcessKind.id, tableSetter MasterProcessParams.ofTable? Section.setMasterProcess),
   (networkingKind.id, tableSetter NetworkingParams.ofTable? Section.setNetworking),
   (pythonKind.id, tableSetter PythonParams.ofTable? Section.setPython),
   (routingKind.id, tableSetter RoutingParams.ofTable? Section.setRouting),
   (workersKind.id, tableSetter WorkersParams.ofTable? Section.setWorkers)]

def availableGroups : List String :=
  tableGroups.map Prod.fst

namespace Section

-- Apply a table to the group of this identifier, and tell whether there is such a group.
def applyGroup (id : String) (t : Table) : Attempt Section Bool :=
  match tableGroups.lookup id with
  | none => return false
  | some setter =>
    match setter t with
    | some set => do
      modify set
      return true
    | none => throw (.invalidParams id)

-- Apply every entry that is a table of a known group, up to the first one that is refused.
def applyParams (t : Table) : Attempt Section Unit :=
  t.forM fun (id, v) =>
    match v with
    | .table params => discard (applyGroup id params)
    | _ => return ()

end Section

end Vassal
