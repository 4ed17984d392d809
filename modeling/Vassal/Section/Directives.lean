import Vassal.Host.Basic
import Vassal.Section.Basic

-- The options of a section that belong to no group: strictness, plugins to load, messages
-- printed at startup, environment variables, and references to other configurations.

namespace Vassal

structure PluginsParams where
  plugins : List String := []
  -- Where plugins are searched for; written before all other options.
  searchDirs : List String := []
  autoload : Option Bool := none
  -- Refuse to start without the plugins.
  required : Bool := false
deriving DecidableEq, Repr

namespace PluginsParams

def command (p : PluginsParams) : String :=
  if p.required then "need-plugin" else "plugin"

end PluginsParams

inductive PrintStyle
  | gray
  | red
  | green
  | yellow
  | blue
deriving DecidableEq, Repr

namespace PrintStyle

-- The colours of the terminal, foreground and background.
def code : PrintStyle → String
  | gray => "37;49"
  | red => "31;49"
  | green => "32;49"
  | yellow => "33;49"
  | blue => "34;49"

def wrap (style : PrintStyle) (text : String) : String :=
  "%[[" ++ style.code ++ "m" ++ text ++ "%[[0m"

end PrintStyle

-- A reference to another configuration, by file or as a section of the same document.
inductive Reference
  | file (path : String)
  | section (name : Option String)
deriving DecidableEq, Repr

namespace Reference

-- A section is referred to by its name, which it has to have.
def render? : Reference → Option String
  | file path => some path
  | .section name => name.map (":" ++ ·)

end Reference

-- The variables that the server expands in its configuration, and what they stand for.
def magicVariables : List (String × String) :=
  [("v", "vassals directory (pwd)"),
   ("o", "original config filename"),
   ("p", "absolute path of the configuration file"),
   ("s", "filename of the configuration file"),
   ("d", "absolute path of the directory containing the configuration file"),
   ("e", "extension of the configuration file"),
   ("n", "filename without extension"),
   ("c", "name of the directory containing the config file"),
   ("t", "unix time (in seconds, gathered at instance startup)"),
   ("T", "unix time (in microseconds, gathered at instance startup)"),
   ("h", "hostname"),
   ("k", "detected cpu cores"),
   ("x", "current section identifier"),
   ("u", "uid of the user running the process"),
   ("U", "username of the user running the process"),
   ("g", "gid of the user running the process"),
   ("G", "group name of the user running the process"),
   ("j", "HEX representation of the djb33x hash of the full config path")]

namespace Section

def setStrict (s : Section) (strict : Option Bool) : Section :=
  s.set (.ofFlag "strict" strict)

def setPlugins (s : Section) (p : PluginsParams) : Section :=
  let s := p.plugins.foldl (·.registerPlugin p.command) s
  s.setAll
    [{ key := "plugins-dir", value := .ofTexts p.searchDirs, multi := true, priority := some 0 },
     .ofFlag "autoload" p.autoload]

def listPlugins (s : Section) : Section :=
  s.set (.ofFlag "plugins-list" (some true))

def printStyled (s : Section) (text : String) (indent : Option String) (style : PrintStyle) :
    Section :=
  let text := indent.getD ">   " ++ text
  s.set (.adding "print" (.text (if s.stylePrints then style.wrap text else text)))

def print (s : Section) (text : String) (indent : Option String) : Section :=
  s.printStyled text indent .gray

def printVariables (s : Section) : Section :=
  magicVariables.foldl
    (fun s (letter, hint) => s.print ("%" ++ letter ++ " = " ++ hint ++ " = %" ++ letter) none)
    (s.printStyled "===== variables =====" none .red)

def setVariable (s : Section) (key value : String) : Section :=
  s.set (.adding "env" (.text (key ++ "=" ++ value)))

def unsetVariable (s : Section) (key : String) : Section :=
  s.set (.adding "unenv" (.text key))

-- A variable without a value is copied from the environment at hand.
def exportVariable (env : Environment) (key : String) (value : Option String) :
    Attempt Section Unit :=
  match value with
  | some value => modify (·.setVariable key value)
  | none =>
    match env.copy key with
    | .ok value => modify (·.setVariable key value)
    | .error reason => throw (.missingEnv key reason)

def addInclude (target : Reference) : Attempt Section Unit :=
  match target.render? with
  | some text => modify (·.set (.adding "ini" (.text text)))
  | none => throw (.unnamedTarget "ini")

-- The configuration to load when this one fails; there is one at most.
def setFallback (target : Reference) : Attempt Section Unit :=
  match target.render? with
  | some text => modify (·.set (.ofText "fallback-config" text))
  | none => throw (.unnamedTarget "fallback-config")

end Section

end Vassal
