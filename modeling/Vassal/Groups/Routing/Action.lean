import Vassal.Options.Arg

-- What a routing rule does: actions on a request and transformations of a response.

namespace Vassal

inductive Action
  -- Close the request, with a status if one is given, and with that status's body or without.
  | break (status : Option Nat) (returnBody : Bool)
  -- Leave the chain and go on with the request.
  | continue
  | goto (label : String)
  | log (message : String)
  | redirect (url : String) (permanent : Bool)
  -- With `last` the chain ends once the path has been replaced.
  | reroute (rule : String) (last : Bool)
  | headerAdd (name value : String)
  | headerRemove (name : String)
  | headersOff
  | headersReset (status : Nat)
  | send (data : String) (crnl : Bool)
  | serveStatic (path : String)
  | setHarakiri (timeout : Nat)
  | signal (num : Nat)
  | authBasic (realm user : String) (password : Option String)
  | setPathInfo (value : String)
  | fixPathInfo
  | gzip
  | chunked
  | toFile (path : String)
deriving DecidableEq, Repr

namespace Action

def name : Action → String
  | .break _ returnBody => if returnBody then "return" else "break"
  | .continue => "continue"
  | goto _ => "goto"
  | log _ => "log"
  | redirect _ permanent => if permanent then "redirect-301" else "redirect-302"
  | reroute _ last => if last then "rewrite-last" else "rewrite"
  | headerAdd _ _ => "addheader"
  | headerRemove _ => "delheader"
  | headersOff => "disableheaders"
  | headersReset _ => "clearheaders"
  | send _ crnl => if crnl then "send-crnl" else "send"
  | serveStatic _ => "static"
  | setHarakiri _ => "harakiri"
  | signal _ => "signal"
  | authBasic _ _ _ => "basicauth"
  | setPathInfo _ => "setpathinfo"
  | fixPathInfo => "fixpathinfo"
  | gzip => "gzip"
  | chunked => "chunked"
  | toFile _ => "tofile"

def args : Action → List String
  | .break status _ => status.toList.map toString
  | goto text | log text | redirect text _ | reroute text _ | headerRemove text | send text _
  | serveStatic text | setPathInfo text => [text]
  | headerAdd name value => [name ++ ": " ++ value]
  | headersReset number | setHarakiri number | signal number => [toString number]
  | authBasic realm user password => [realm, user ++ (password.map (":" ++ ·)).getD ""]
  | toFile path => ["filename=" ++ path]
  | .continue | headersOff | fixPathInfo | gzip | chunked => []

-- The plugin that provides the action.
def plugin : Action → Option String
  | redirect _ _ => some "router_redirect"
  | reroute _ _ => some "router_rewrite"
  | serveStatic _ => some "router_static"
  | authBasic _ _ _ => some "router_basicauth"
  | gzip => some "transformation_gzip"
  | chunked => some "transformation_chunked"
  | toFile _ => some "transformation_tofile"
  | _ => none

-- Actions that may stand without arguments lose the separator then.
def stripped : Action → Bool
  | .break _ _ | .continue | headersOff | fixPathInfo | gzip | chunked => true
  | _ => false

def joiner : Action → String
  | authBasic _ _ _ => ","
  | _ => " "

def toParam (a : Action) : Param :=
  ({ name := a.name, joiner := a.joiner, stripped := a.stripped, plugin := a.plugin } :
    Param).withArgs (a.args.map .text)

end Action

end Vassal
