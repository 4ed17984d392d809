import Vassal.Error
import Vassal.Options.Mutation
import Vassal.Section.GroupCache

-- A section: a named unit of configuration, with the plugins registered so far.
--
-- A plugin is registered once, by the directive it was first asked for with; the plugins that the
-- server has built in are never registered. Option groups set their options through the section,
-- and a group that stands for a plugin asks for it with every option it sets.

namespace Vassal

-- The part of a plugin's name that tells its versions apart, such as `3` or `3.11`.
inductive Version
  | number (n : Nat)
  | text (s : String)
deriving DecidableEq, Repr

namespace Version

def render : Version → String
  | number n => toString n
  | text s => s

end Version

namespace GroupKind

def nameWith (kind : GroupKind) (version : Option Version) : String :=
  kind.id ++ (version.map Version.render).getD ""

end GroupKind

-- What the server has built in: nothing stated, the stock selection, or a list.
inductive Embedded
  | unstated
  | basic
  | listed (names : List String)
deriving DecidableEq, Repr

def defaultSectionName : String :=
  "uwsgi"

-- The plugins of the stock build.
def basicEmbedded : List String :=
  ["ping", "cache", "nagios", "rrdtool", "carbon", "rpc", "corerouter", "fastrouter", "http",
   "ugreen", "signal", "syslog", "rsyslog", "logsocket", "router_uwsgi", "router_redirect",
   "router_basicauth", "zergpool", "redislog", "mongodblog", "router_rewrite", "router_http",
   "logfile", "router_cache", "rawrouter", "router_static", "sslrouter", "spooler",
   "cheaper_busyness", "symcall", "transformation_tofile", "transformation_gzip",
   "transformation_chunked", "transformation_offload", "router_memcached", "router_redis",
   "router_hash", "router_expires", "router_metrics", "transformation_template",
   "stats_pusher_socket", "router_fcgi"]

namespace Embedded

def names : Embedded → List String
  | unstated => []
  | basic => basicEmbedded
  | listed names => names

end Embedded

structure Section where
  name : Option String := none
  options : Store := ∅
  -- Registered plugins, in the order of registration.
  plugins : List String := []
  embedded : List String := []
  -- Messages printed at startup are coloured.
  stylePrints : Bool := false
  groups : GroupCache (Option Version) := ∅
deriving Repr

namespace Section

instance : EmptyCollection Section :=
  ⟨{}⟩

def named (name : Option String) : Section :=
  { name }

-- A copy of its own, which takes the given name or keeps the one it has.
def derive (base : Section) (name : Option String) : Section :=
  { base with name := name <|> base.name }

def rename (s : Section) (name : Option String) : Section :=
  { s with name }

def embed (s : Section) (embedded : Embedded) : Section :=
  { s with embedded := embedded.names }

def withStylePrints (s : Section) (enabled : Bool) : Section :=
  { s with stylePrints := enabled }

-- The name in the header, by which sections of one document are told apart.
def effectiveName (s : Section) : String :=
  s.name.getD defaultSectionName

def registerPlugin (s : Section) (command plugin : String) : Section :=
  if s.embedded.contains plugin || s.plugins.contains plugin then s
  else
    { s with
      plugins := s.plugins ++ [plugin]
      options := s.options.extend command [plugin] }

def activate (s : Section) (plugin : String) : Section :=
  s.registerPlugin "plugin" plugin

instance : Target Section where
  options := Section.options
  edit f s := { s with options := f s.options }
  activate plugin s := s.activate plugin

-- Set an option that belongs to no group.
def set (s : Section) (m : Mutation) : Section :=
  m.apply none s

def setAll (s : Section) (ms : List Mutation) : Section :=
  ms.foldl set s

def enter (s : Section) (kind : GroupKind) : Section :=
  { s with groups := s.groups.enter kind }

-- The name of a group; of a group that stands for a plugin it is the plugin's name.
def groupName (s : Section) (kind : GroupKind) : String :=
  kind.nameWith ((s.groups.get? kind).getD none)

def setVersion (s : Section) (kind : GroupKind) (version : Version) : Section :=
  { s with groups := s.groups.modify kind fun _ => some version }

-- Set an option through a group.
def setIn (s : Section) (kind : GroupKind) (m : Mutation) : Section :=
  let s := s.enter kind
  m.apply (if kind.autoPlugin then some (s.groupName kind) else none) s

def setAllIn (s : Section) (kind : GroupKind) (ms : List Mutation) : Section :=
  ms.foldl (fun s m => s.setIn kind m) (s.enter kind)

end Section

end Vassal
