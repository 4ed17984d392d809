import Vassal.Section.Basic

-- Logging of the server and of requests.

namespace Vassal

def loggingKind : GroupKind :=
  { id := "logging", label := "logging" }

structure LoggingParams where
  noRequests : Option Bool := none
  log4xx : Option Bool := none
  log5xx : Option Bool := none
deriving DecidableEq, Repr

-- Where log lines go.
inductive Logger
  | file (path : String)
  | syslog (appName : String) (facility : Option String)
  -- A datagram socket.
  | socket (address : String)
  | stdio
  | redis (address command channel : Option String)
deriving DecidableEq, Repr

namespace Logger

def toParam : Logger → Param
  | file path => ({ name := "file" } : Param).arg (.text path)
  | syslog appName facility =>
    ({ name := "syslog", joiner := ",", plugin := some "syslog" } : Param).withArgs
      [.text appName, .ofOption .text facility]
  | socket address => ({ name := "socket", plugin := some "logsocket" } : Param).arg (.text address)
  | stdio => { name := "stdio", stripped := true }
  | redis address command channel =>
    ({ name := "redislog", joiner := ",", stripped := true, plugin := some "redislog" } :
      Param).withArgs [.ofOption .text address, .ofOption .text command, .ofOption .text channel]

end Logger

namespace Section

def setLogging (s : Section) (p : LoggingParams) : Section :=
  s.setAllIn loggingKind
    [.ofFlag "disable-logging" p.noRequests,
     .ofFlag "log-4xx" p.log4xx,
     .ofFlag "log-5xx" p.log5xx]

-- A logger with a name can be chosen by routing rules.
def addLogger (s : Section) (logger : Logger) (requestsOnly : Bool) (name : Option String) :
    Section :=
  s.setAllIn loggingKind
    [.adding (if requestsOnly then "req-logger" else "logger")
      (.param { logger.toParam with label := name })]

end Section

end Vassal
