import Vassal.Decimal
import Vassal.Options.Store

-- The values of JSON, and the text that each of them is written as.
--
-- The entries of an object are in ascending order of their keys, so that a value has one text.

namespace Vassal

inductive Json
  | null
  | bool (b : Bool)
  | integer (n : Int)
  | decimal (d : Decimal)
  | string (s : String)
  | array (items : List Json)
  | object (entries : List (String × Json))
deriving Repr

namespace Json

-- Of entries with the same key the last one stays.
def ofEntries (entries : List (String × Json)) : Json :=
  object (Ascending.ofList entries)

-- Integers that fit into 64 bits, with a sign or without one.
def isExact (n : Int) : Bool :=
  -0x8000000000000000 ≤ n && n < 0x10000000000000000

def hexDigits (width n : Nat) : List Char :=
  let digits := Nat.toDigits 16 n
  List.replicate (width - digits.length) '0' ++ digits

-- Quotes, backslashes and control characters are escaped, and nothing else is.
def escape (c : Char) : List Char :=
  match c with
  | '"' => ['\\', '"']
  | '\\' => ['\\', '\\']
  | '\x08' => ['\\', 'b']
  | '\x0c' => ['\\', 'f']
  | '\n' => ['\\', 'n']
  | '\r' => ['\\', 'r']
  | '\t' => ['\\', 't']
  | c => if c.toNat < 0x20 then '\\' :: 'u' :: hexDigits 4 c.toNat else [c]

def quote (s : String) : String :=
  "\"" ++ String.ofList (s.toList.flatMap escape) ++ "\""

def bracketed (items : List String) : String :=
  "[" ++ String.intercalate "," items ++ "]"

def braced (entries : List String) : String :=
  "\x7b" ++ String.intercalate "," entries ++ "\x7d"

mutual

def render : Json → String
  | null => "null"
  | bool b => if b then "true" else "false"
  | integer n => toString n
  | decimal d => d.render
  | string s => quote s
  | array items => bracketed (renderItems items)
  | object entries => braced (renderEntries entries)

def renderItems : List Json → List String
  | [] => []
  | item :: rest => render item :: renderItems rest

def renderEntries : List (String × Json) → List String
  | [] => []
  | (key, value) :: rest => (quote key ++ ":" ++ render value) :: renderEntries rest

end

end Json

end Vassal
