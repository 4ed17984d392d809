import Vassal.Groups.Routing.Router
import Vassal.Groups.Routing.Rule
import Vassal.Path
import Vassal.Section.Basic

-- Internal routing: chains of rules, managed error pages, headers and routers.

namespace Vassal

def routingKind : GroupKind :=
  { id := "routing", label := "routing" }

structure RoutingParams where
  -- Print the rules that the server knows at startup.
  printRules : Option Bool := none
  geoipCountry : Option String := none
  geoipCity : Option String := none
deriving DecidableEq, Repr

-- Paths of error pages by status.
structure ErrorPages where
  -- In ascending order of statuses.
  entries : List (Nat × String) := []
deriving DecidableEq, Repr

namespace ErrorPages

-- A later path for the same status replaces the earlier one.
def ofList (pages : List (Nat × String)) : ErrorPages :=
  ⟨Ascending.ofList pages⟩

-- Every status that pages can be managed for, with a page named after it.
def standard : ErrorPages :=
  ofList (managedStatuses.map fun status => (status, toString status ++ ".html"))

end ErrorPages

namespace Section

def geoipMutations (country city : Option String) : List Mutation :=
  [{ Mutation.ofText? "geoip-country" country with plugin := some "geoip" },
   { Mutation.ofText? "geoip-city" city with plugin := some "geoip" }]

def setRouting (s : Section) (p : RoutingParams) : Section :=
  s.setAllIn routingKind
    (.ofFlag "routers-list" p.printRules :: geoipMutations p.geoipCountry p.geoipCity)

def setGeoip (s : Section) (country city : Option String) : Section :=
  s.setAllIn routingKind (geoipMutations country city)

-- The label marks where the first of the rules stands in its chain.
def labelMutations (rules : List RouteRule) (label : Option String) : List Mutation :=
  match rules.head?, label with
  | some first, some label => [.adding first.labelCommand (.text label)]
  | _, _ => []

def ruleMutation (r : RouteRule) : Mutation :=
  .adding r.command r.value

def route (s : Section) (rules : List RouteRule) (label : Option String) : Section :=
  s.setAllIn routingKind (labelMutations rules label ++ rules.map ruleMutation)

def printRoutingRules (s : Section) : Section :=
  s.setAllIn routingKind [.ofFlag "routers-list" (some true)]

def setErrorPage (status : Nat) (path : String) : Attempt Section Unit := do
  modify (·.enter routingKind)
  if managedStatuses.contains status then
    modify (·.setIn routingKind (.adding ("error-page-" ++ toString status) (.text path)))
  else throw (.unsupportedStatus status)

-- Pages for several statuses, all below a common path if one is given.
def setErrorPages (pages : Option ErrorPages) (base : Option String) : Attempt Section Unit := do
  modify (·.enter routingKind)
  (pages.getD .standard).entries.forM fun (status, path) =>
    setErrorPage status (match base with
      | some base => Path.join base path
      | none => path)

def addHeader (s : Section) (name value : String) : Section :=
  s.setAllIn routingKind [.adding "add-header" (.text (name ++ ": " ++ value))]

def removeHeader (s : Section) (name : String) : Section :=
  s.setAllIn routingKind [.adding "del-header" (.text name)]

-- Keep a header of the response in a variable of the request; pulling also removes it.
def collectHeader (s : Section) (name target : String) (pull : Bool) : Section :=
  s.setAllIn routingKind
    [.adding (if pull then "pull-header" else "collect-header") (.text (name ++ " " ++ target))]

-- Forcing a router runs it without a master process.
def useRouter (s : Section) (router : Router) (force : Option Bool) : Section :=
  s.setAllIn routingKind
    [.ofFlag "force-gateway" force,
     { key := "gateway", value := .param router.toParam }]

end Section

end Vassal
