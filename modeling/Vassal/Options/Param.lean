import Vassal.Options.Store
import Vassal.Text.Trim

-- Values made of a name and arguments, such as `redirect-301:/new` or `file:/var/log/app.log`.
--
-- Besides its text, such a value may ask for an option name of its own, for a plugin, and for
-- further options that have to stand in the section that uses it.

namespace Vassal

structure Param where
  name : String
  args : List String := []
  -- Written in front of the value, as for a logger that has a name.
  label : Option String := none
  joiner : String := " "
  separator : String := ":"
  stripped : Bool := false
  -- The option name to be stored under; such a value is written without its own name.
  key : Option String := none
  plugin : Option String := none
  options : Store := ∅
deriving DecidableEq, Repr

namespace Param

-- The name and its separator, unless the option name already says it.
def heading (p : Param) : String :=
  match p.key with
  | none => p.name ++ p.separator
  | some _ => ""

def body (p : Param) : String :=
  p.heading ++ String.intercalate p.joiner p.args

def labelled (p : Param) : String :=
  match p.label with
  | some label => label ++ " " ++ p.body
  | none => p.body

-- The text that is stored. Blanks at the ends are never part of it; a stripped value also loses
-- the characters of its separator there, so that a name without arguments stands alone.
def render (p : Param) : String :=
  let text := Text.trim p.labelled
  if p.stripped then Text.trimMatches (fun c => p.separator.toList.contains c) text else text

end Param

end Vassal
