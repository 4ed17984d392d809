import Vassal.Section.Basic

-- Sections as text: a header with the name, then a line for every stored text.

namespace Vassal

-- The comment that opens generated documents.
def bannerLine : String :=
  "; This configuration was automatically generated using uwsgiconf v0.1.0"

namespace Store

-- Every stored text with the name it stands under, in the order of output.
def directives (s : Store) : List (String × String) :=
  s.entries.flatMap fun (key, value) => value.lines.map fun text => (key, text)

end Store

namespace Section

def header (s : Section) : String :=
  "[" ++ s.effectiveName ++ "]"

def directiveLine (directive : String × String) : String :=
  directive.1 ++ " = " ++ directive.2

def lines (s : Section) : List String :=
  s.header :: s.options.directives.map directiveLine

def render (s : Section) (banner : Bool) : String :=
  String.intercalate "\n" ((if banner then [bannerLine] else []) ++ s.lines) ++ "\n"

end Section

end Vassal
