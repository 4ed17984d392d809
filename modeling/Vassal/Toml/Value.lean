-- The values of TOML 1.0.
--
-- Tables are lists of entries, because the order of a document's keys is kept.

namespace Vassal.Toml

structure Date where
  year : Nat
  month : Nat
  day : Nat
deriving DecidableEq, Repr

structure Time where
  hour : Nat
  minute : Nat
  second : Nat
  nanosecond : Nat := 0
deriving DecidableEq, Repr

-- The distance from UTC, in minutes unless it is UTC itself.
inductive Offset
  | utc
  | minutes (n : Int)
deriving DecidableEq, Repr

inductive Moment
  | date (d : Date)
  | time (t : Time)
  | dateTime (d : Date) (t : Time) (offset : Option Offset)
deriving DecidableEq, Repr

inductive Value
  | string (s : String)
  | integer (n : Int)
  -- No option takes a number with a fraction, so only its presence is kept.
  | float
  | boolean (b : Bool)
  | moment (m : Moment)
  | array (items : List Value)
  | table (entries : List (String × Value))
deriving Repr

abbrev Table :=
  List (String × Value)

-- A number with leading zeros up to a width.
def padded (width n : Nat) : String :=
  let digits := Nat.toDigits 10 n
  String.ofList (List.replicate (width - digits.length) '0' ++ digits)

namespace Date

def render (d : Date) : String :=
  padded 4 d.year ++ "-" ++ padded 2 d.month ++ "-" ++ padded 2 d.day

end Date

namespace Time

-- The fraction ends with its last digit that is not zero.
def fraction (t : Time) : String :=
  if t.nanosecond = 0 then ""
  else
    let digits := (padded 9 t.nanosecond).toList
    "." ++ String.ofList (digits.reverse.dropWhile (· == '0')).reverse

def render (t : Time) : String :=
  padded 2 t.hour ++ ":" ++ padded 2 t.minute ++ ":" ++ padded 2 t.second ++ t.fraction

end Time

namespace Offset

def render : Offset → String
  | utc => "Z"
  | minutes n =>
    (if n < 0 then "-" else "+") ++ padded 2 (n.natAbs / 60) ++ ":" ++ padded 2 (n.natAbs % 60)

end Offset

namespace Moment

def render : Moment → String
  | date d => d.render
  | time t => t.render
  | dateTime d t offset =>
    d.render ++ "T" ++ t.render ++ (offset.map Offset.render).getD ""

end Moment

namespace Value

def typeName : Value → String
  | string _ => "string"
  | integer _ => "integer"
  | float => "float"
  | boolean _ => "boolean"
  | moment _ => "datetime"
  | array _ => "array"
  | table _ => "table"

end Value

end Vassal.Toml
