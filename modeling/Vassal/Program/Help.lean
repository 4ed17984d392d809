import Vassal.Program.Request

-- The pages of help.

namespace Vassal

def programName : String :=
  "uwsgiconf"

def programVersion : String :=
  "0.1.0"

namespace HelpPage

-- What the page is about, in one line.
def summary : HelpPage → String
  | program => "Compile TOML project files into uWSGI INI configuration"
  | compile => "Build the project and print the INI document to stdout"
  | groups => "List option groups usable as per-section parameter tables"
  | help => "Print this message or the help of the given subcommand(s)"

def usage : HelpPage → String
  | program => "<COMMAND>"
  | compile => "compile [OPTIONS]"
  | groups => "groups"
  | help => "help [COMMAND]..."

-- Lists of names and what they are for; the names of a list take up the same width.
def lists : HelpPage → List (String × List (String × String))
  | program =>
    [("Commands",
      [("compile", summary compile), ("groups", summary groups), ("help", summary help)]),
     ("Options", [("-h, --help", "Print help"), ("-V, --version", "Print version")])]
  | compile =>
    [("Options",
      [("-c, --config <CONFIG>",
        "Path to uwsgiconf.toml [default: ./uwsgiconf.toml or ~/.config/uwsgiconf/uwsgiconf.toml]"),
       ("-o, --output <OUTPUT>", "Write the INI document to this file instead of stdout"),
       ("    --tofile", "Write the INI document to a new temporary file and print its path"),
       ("-h, --help", "Print help")])]
  | groups => [("Options", [("-h, --help", "Print help")])]
  | help => [("Arguments", [("[COMMAND]...", "Print help for the subcommand(s)")])]

def renderEntry (width : Nat) (entry : String × String) : String :=
  let gap := String.ofList (List.replicate (width - entry.1.length) ' ')
  "  " ++ entry.1 ++ gap ++ "  " ++ entry.2 ++ "\n"

def renderList (list : String × List (String × String)) : String :=
  let width := (list.2.map (·.1.length)).foldl max 0
  list.1 ++ ":\n" ++ String.join (list.2.map (renderEntry width))

def usageLine (page : HelpPage) : String :=
  "Usage: " ++ programName ++ " " ++ page.usage ++ "\n"

def render (page : HelpPage) : String :=
  String.intercalate "\n"
    ((page.summary ++ "\n") :: page.usageLine :: page.lists.map renderList)

end HelpPage

end Vassal
