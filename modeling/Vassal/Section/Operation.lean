import Vassal.Groups.Table
import Vassal.Preset

-- Everything a section offers, as data: what has happened to a section is a list of operations.
--
-- Setting an option by a mutation of one's own is not among them. An operation may stop with an
-- error; what it had done by then stays done, and a history goes on from there.

namespace Vassal

inductive Operation
  | derive (name : Option String)
  | rename (name : Option String)
  | embed (embedded : Embedded)
  | stylePrints (enabled : Bool)
  | strict (given : Option Bool)
  | activate (plugin : String)
  | plugins (p : PluginsParams)
  | listPlugins
  | print (text : String) (indent : Option String) (style : PrintStyle)
  | printVariables
  | exportVariable (key : String) (value : Option String)
  | unsetVariable (key : String)
  | addInclude (target : Reference)
  | fallback (target : Reference)
  | params (t : Toml.Table)
  | group (id : String) (t : Toml.Table)
  | nice (p : NiceParams)
  | nicePython (p : NiceParams) (interpreter : PythonParams) (wsgiModule : Option String)
  -- Asking for a group without setting anything.
  | enter (kind : GroupKind)
  | applications (p : ApplicationsParams)
  | changeDir (path : String) (afterLoad : Bool)
  | mount (mountpoint app : String) (intoWorker : Bool)
  | idle (timeout : Option Nat) (exit : Option Bool)
  | lazy (affectMaster : Bool)
  | locks (p : LocksParams)
  | logging (p : LoggingParams)
  | logger (sink : Logger) (requestsOnly : Bool) (name : Option String)
  | mainProcess (p : MainProcessParams)
  | naming (automatic : Option Bool) (leading : Option String)
  | masterProcess (p : MasterProcessParams)
  | networking (p : NetworkingParams)
  | bind (socket : Socket)
  | python (p : PythonParams)
  | activatePython
  | wsgi (module callable : Option String)
  | routing (p : RoutingParams)
  | geoip (country city : Option String)
  | route (rules : List RouteRule) (label : Option String)
  | printRoutingRules
  | errorPage (status : Nat) (path : String)
  | errorPages (pages : Option ErrorPages) (base : Option String)
  | addHeader (name value : String)
  | removeHeader (name : String)
  | collectHeader (name target : String) (pull : Bool)
  | router (gateway : Router) (force : Option Bool)
  | workers (p : WorkersParams)
  | workersAuto
  | threads (enable : Option Bool) (perWorker : Option Nat)
  | mules (count : Option Nat) (farms : List Farm)

namespace Operation

def run (env : Environment) : Operation → Attempt Section Unit
  | derive name => modify (·.derive name)
  | rename name => modify (·.rename name)
  | embed embedded => modify (·.embed embedded)
  | stylePrints enabled => modify (·.withStylePrints enabled)
  | strict given => modify (·.setStrict given)
  | activate plugin => modify (·.activate plugin)
  | plugins p => modify (·.setPlugins p)
  | listPlugins => modify Section.listPlugins
  | print text indent style => modify (·.printStyled text indent style)
  | printVariables => modify Section.printVariables
  | exportVariable key value => Section.exportVariable env key value
  | unsetVariable key => modify (·.unsetVariable key)
  | addInclude target => Section.addInclude target
  | fallback target => Section.setFallback target
  | params t => Section.applyParams t
  | group id t => discard (Section.applyGroup id t)
  | nice p => modify (·.applyNice p)
  | nicePython p interpreter wsgiModule => modify (·.applyPython p interpreter wsgiModule)
  | enter kind => modify (·.enter kind)
  | applications p => modify (·.setApplications p)
  | changeDir path afterLoad => modify (·.changeDir path afterLoad)
  | mount mountpoint app intoWorker => modify (·.mount mountpoint app intoWorker)
  | idle timeout exit => modify (·.setIdle timeout exit)
  | lazy affectMaster => modify (·.setLazy affectMaster)
  | locks p => modify (·.setLocks p)
  | logging p => modify (·.setLogging p)
  | logger sink requestsOnly name => modify (·.addLogger sink requestsOnly name)
  | mainProcess p => modify (·.setMainProcess p)
  | naming automatic leading => modify (·.setNaming automatic leading)
  | masterProcess p => modify (·.setMasterProcess p)
  | networking p => modify (·.setNetworking p)
  | bind socket => modify (·.bind socket)
  | python p => modify (·.setPython p)
  | activatePython => modify Section.activatePython
  | wsgi module callable => modify (·.setWsgi module callable)
  | routing p => modify (·.setRouting p)
  | geoip country city => modify (·.setGeoip country city)
  | route rules label => modify (·.route rules label)
  | printRoutingRules => modify Section.printRoutingRules
  | errorPage status path => Section.setErrorPage status path
  | errorPages pages base => Section.setErrorPages pages base
  | addHeader name value => modify (·.addHeader name value)
  | removeHeader name => modify (·.removeHeader name)
  | collectHeader name target pull => modify (·.collectHeader name target pull)
  | router gateway force => modify (·.useRouter gateway force)
  | workers p => modify (·.setWorkers p)
  | workersAuto => modify Section.setWorkersAuto
  | threads enable perWorker => modify (·.setThreads enable perWorker)
  | mules count farms => modify (·.setMules count farms)

-- The section an operation leaves behind, whether it succeeded or not.
def reach (env : Environment) (op : Operation) (s : Section) : Section :=
  match op.run env s with
  | .ok _ s => s
  | .error _ s => s

def reachAll (env : Environment) (ops : List Operation) (s : Section) : Section :=
  ops.foldl (fun s op => op.reach env s) s

end Operation

end Vassal
