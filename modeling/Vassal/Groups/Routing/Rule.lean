import Vassal.Groups.Routing.Action

-- Routing rules: an action, what has to hold of the request for it, and the chain it belongs to.
--
-- A rule is one directive. Its name says the chain and the kind of subject, its value the
-- subject and the action.

namespace Vassal

-- The chains of rules, each run at its own moment of a request.
inductive Stage
  | request
  | error
  | response
  | final
deriving DecidableEq, Repr

namespace Stage

def word : Stage → String
  | request => ""
  | error => "error"
  | response => "response"
  | final => "final"

-- The name of a directive of this chain; hyphens that join nothing fall away.
def directive (stage : Stage) (name : String) : String :=
  Text.trimMatches (· == '-') (stage.word ++ "-" ++ name)

end Stage

inductive Check
  | exists
  | isFile
  | isDir
  | isLink
  | isExec
  | empty
  | equal (operand : String)
  | startsWith (operand : String)
  | endsWith (operand : String)
  | contains (operand : String)
  | regexp (operand : String)
  | isHigher (operand : String)
  | isLower (operand : String)
deriving DecidableEq, Repr

namespace Check

def name : Check → String
  | .exists => "exists"
  | isFile => "isfile"
  | isDir => "isdir"
  | isLink => "islink"
  | isExec => "isexec"
  | empty => "empty"
  | equal _ => "equal"
  | startsWith _ => "startswith"
  | endsWith _ => "endswith"
  | contains _ => "contains"
  | regexp _ => "regexp"
  | isHigher _ => "ishigher"
  | isLower _ => "islower"

def operand : Check → Option String
  | .exists | isFile | isDir | isLink | isExec | empty => none
  | equal operand | startsWith operand | endsWith operand | contains operand | regexp operand
  | isHigher operand | isLower operand => some operand

def render (c : Check) (subject : String) : String :=
  c.name ++ ":" ++ subject ++ (c.operand.map (";" ++ ·)).getD ""

end Check

-- What a rule looks at: one of the attributes that are matched by a pattern, or any value under
-- a check that may be negated.
inductive Subject
  | httpHost (pattern : String)
  | httpReferer (pattern : String)
  | httpUserAgent (pattern : String)
  | pathInfo (pattern : String)
  | queryString (pattern : String)
  | remoteAddr (pattern : String)
  | remoteUser (pattern : String)
  | requestUri (pattern : String)
  | status (pattern : String)
  | custom (subject : String) (check : Check) (negated : Bool)
deriving DecidableEq, Repr

namespace Subject

-- Only checks can be negated.
def negate : Subject → Subject
  | custom subject check negated => custom subject check !negated
  | builtin => builtin

def suffix : Subject → String
  | httpHost _ => "host"
  | httpReferer _ => "referer"
  | httpUserAgent _ => "user-agent"
  | pathInfo _ => ""
  | queryString _ => "qs"
  | remoteAddr _ => "remote-addr"
  | remoteUser _ => "remote-user"
  | requestUri _ => "uri"
  | status _ => "status"
  | custom _ _ negated => if negated then "if-not" else "if"

def render : Subject → String
  | httpHost pattern | httpReferer pattern | httpUserAgent pattern | pathInfo pattern
  | queryString pattern | remoteAddr pattern | remoteUser pattern | requestUri pattern
  | status pattern => pattern
  | custom subject check _ => check.render subject

end Subject

structure RouteRule where
  action : Action
  -- Without a subject the action always runs.
  subject : Option Subject := none
  stage : Stage := .request
deriving DecidableEq, Repr

namespace RouteRule

def command (r : RouteRule) : String :=
  r.stage.directive ("route-" ++ (r.subject.map Subject.suffix).getD "run")

-- The directive that marks a label in the chain of the rule.
def labelCommand (r : RouteRule) : String :=
  r.stage.directive "route-label"

def value (r : RouteRule) : Arg :=
  .tuple [.text ((r.subject.map Subject.render).getD ""), .param r.action.toParam]

def render (r : RouteRule) : String :=
  r.command ++ " = " ++ r.value.render

end RouteRule

end Vassal
