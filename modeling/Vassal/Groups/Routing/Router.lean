import Vassal.Options.Arg

-- Routers that the master process runs in front of the workers.

namespace Vassal

inductive Router
  | http (bind : String) (forwardTo : List String)
  | https (bind cert key : String) (forwardTo : List String)
  | ssl (bind cert key : String) (forwardTo : List String)
  | fast (bind : String) (forwardTo : List String)
  | raw (bind : String) (forwardTo : List String)
deriving DecidableEq, Repr

namespace Router

def plugin : Router → String
  | http _ _ | https _ _ _ _ => "http"
  | ssl _ _ _ _ => "sslrouter"
  | fast _ _ => "fastrouter"
  | raw _ _ => "rawrouter"

def directive : Router → String
  | http _ _ => "http"
  | https _ _ _ _ => "https"
  | ssl _ _ _ _ => "sslrouter"
  | fast _ _ => "fastrouter"
  | raw _ _ => "rawrouter"

def args : Router → List String
  | http bind _ | fast bind _ | raw bind _ => [bind]
  | https bind cert key _ | ssl bind cert key _ => [bind, cert, key]

def forwardTo : Router → List String
  | http _ forwardTo | https _ _ _ forwardTo | ssl _ _ _ forwardTo | fast _ forwardTo
  | raw _ forwardTo => forwardTo

-- The addresses to forward to come along as options of the router's plugin.
def toParam (r : Router) : Param :=
  let p := ({ name := r.directive, key := some r.directive, joiner := ",", plugin := some r.plugin }
    : Param).withArgs (r.args.map .text)
  if r.forwardTo.isEmpty then p
  else p.withOptions (r.plugin ++ "-to") (r.forwardTo.map .text)

end Router

end Vassal
