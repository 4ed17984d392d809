import Vassal.Section.Basic

-- Sockets and the handling of connections.

namespace Vassal

def networkingKind : GroupKind :=
  { id := "networking", label := "networking" }

structure NetworkingParams where
  -- The buffer for the headers of a request, in bytes.
  bufferSize : Option Nat := none
  listenQueueSize : Option Nat := none
deriving DecidableEq, Repr

-- A socket to bind; every kind has an option of its own.
inductive Socket
  | plain (address : String)
  | http (address : String)
  | https (address cert key : String)
  | uwsgi (address : String)
  -- Created while privileges last, to be referred to by other sockets.
  | shared (address : String)
deriving DecidableEq, Repr

namespace Socket

def directive : Socket → String
  | plain _ => "socket"
  | http _ => "http-socket"
  | https _ _ _ => "https-socket"
  | uwsgi _ => "uwsgi-socket"
  | shared _ => "shared-socket"

def args : Socket → List String
  | https address cert key => [address, cert, key]
  | plain address | http address | uwsgi address | shared address => [address]

def toParam (s : Socket) : Param :=
  ({ name := s.directive, key := some s.directive, joiner := "," } : Param).withArgs
    (s.args.map .text)

end Socket

namespace Section

def setNetworking (s : Section) (p : NetworkingParams) : Section :=
  s.setAllIn networkingKind
    [.ofNat? "buffer-size" p.bufferSize, .ofNat? "listen" p.listenQueueSize]

def bind (s : Section) (socket : Socket) : Section :=
  s.setAllIn networkingKind [.adding "socket" (.param socket.toParam)]

end Section

end Vassal
