import Vassal.Json.Value
import Vassal.Text.Reader
import Vassal.Text.Utf8

-- Reading JSON from bytes.
--
-- A value that is kept is read exactly: its texts are texts, its numbers are not too large and
-- it is not nested too deep. A value that is passed over only has to have the right shape.

namespace Vassal.Json

open Text Text.Reader

-- Containers inside of containers, the outermost one counted.
def depthLimit : Nat :=
  127

def symbol (p : Char → Bool) : Reader Piece Char
  | .char c :: rest => if p c then some (c, rest) else none
  | _ => none

def letters (cs : List Char) : Reader Piece Unit :=
  word (cs.map .char)

def isBlank (c : Char) : Bool :=
  c == ' ' || c == '\n' || c == '\t' || c == '\r'

def blanks : Reader Piece Unit := do
  discard (many (symbol isBlank))

-- A mark of the grammar, with the blanks before it.
def mark (c : Char) : Reader Piece Unit := do
  blanks
  letters [c]

def codeUnit : Reader Piece Nat := do
  let digits ← [(), (), (), ()].mapM fun _ => symbol isHexDigit
  return number 16 digits

def isSurrogate (unit : Nat) : Bool :=
  0xD800 ≤ unit && unit ≤ 0xDFFF

-- The second half of a character whose first half is `high`.
def lowHalf (high : Nat) : Reader Piece Char := do
  letters ['\\', 'u']
  let low ← codeUnit
  if high ≤ 0xDBFF && 0xDC00 ≤ low && low ≤ 0xDFFF then
    return Char.ofNat (0x10000 + (high - 0xD800) * 0x400 + (low - 0xDC00))
  else failure

def escapeSign : Reader Piece Char := do
  letters ['\\']
  symbol fun _ => true

def escaped : Reader Piece Char := do
  match ← escapeSign with
  | '"' => return '"'
  | '\\' => return '\\'
  | '/' => return '/'
  | 'b' => return '\x08'
  | 'f' => return '\x0c'
  | 'n' => return '\n'
  | 'r' => return '\r'
  | 't' => return '\t'
  | 'u' =>
    let unit ← codeUnit
    if isSurrogate unit then lowHalf unit else return Char.ofNat unit
  | _ => failure

def isPlain (c : Char) : Bool :=
  0x20 ≤ c.toNat && c != '"' && c != '\\'

def text : Reader Piece String := do
  mark '"'
  let cs ← many (symbol isPlain <|> escaped)
  letters ['"']
  return String.ofList cs

-- The digits before the point; a zero stands alone.
def wholeDigits : Reader Piece (List Char) := do
  match ← symbol Char.isDigit with
  | '0' => return ['0']
  | first => return first :: (← many (symbol Char.isDigit))

def digits : Reader Piece (List Char) := do
  return (← symbol Char.isDigit) :: (← many (symbol Char.isDigit))

def fraction : Reader Piece (List Char) := do
  letters ['.']
  digits

def exponent : Reader Piece Int := do
  discard (symbol fun c => c == 'e' || c == 'E')
  let sign ← optional (symbol fun c => c == '+' || c == '-')
  let n : Int := number 10 (← digits)
  return if sign == some '-' then -n else n

-- A number as it is written: its sign, the digits before and after the point, and the exponent.
structure Numeral where
  negative : Bool
  whole : List Char
  fraction : Option (List Char)
  exponent : Option Int

def numeral : Reader Piece Numeral := do
  blanks
  return {
    negative := (← optional (letters ['-'])).isSome
    whole := ← wholeDigits
    fraction := ← optional fraction
    exponent := ← optional exponent }

namespace Numeral

def decimal (x : Numeral) : Decimal :=
  let fraction := x.fraction.getD []
  { negative := x.negative
    mantissa := number 10 (x.whole ++ fraction)
    exponent := x.exponent.getD 0 - fraction.length }

-- The integer that is meant. Zero with a minus is none, because integers have one zero.
def integer? (x : Numeral) : Option Int :=
  if x.fraction.isSome || x.exponent.isSome then none
  else
    let n : Int := number 10 x.whole
    let n := if x.negative then -n else n
    if isExact n && !(x.negative && n == 0) then some n else none

def value? (x : Numeral) : Option Json :=
  match x.integer? with
  | some n => some (integer n)
  | none => if x.decimal.overflows then none else some (Json.decimal x.decimal.normalize)

end Numeral

def keyword : Reader Piece Json := do
  blanks
  (do
    letters ['n', 'u', 'l', 'l']
    return null)
  <|> (do
    letters ['t', 'r', 'u', 'e']
    return bool true)
  <|> (do
    letters ['f', 'a', 'l', 's', 'e']
    return bool false)

-- What stands between two brackets, with commas between any two.
def enclosed {α : Type} (left right : Char) (item : Reader Piece α) : Reader Piece (List α) := do
  mark left
  let items ← optional (separated item (mark ','))
  mark right
  return items.getD []

def entry {α : Type} (value : Reader Piece α) : Reader Piece (String × α) := do
  let key ← text
  mark ':'
  return (key, ← value)

def items (value : Reader Piece Json) : Reader Piece (List Json) :=
  enclosed '[' ']' value

def entries (value : Reader Piece Json) : Reader Piece (List (String × Json)) := do
  return Ascending.ofList (← enclosed '\x7b' '\x7d' (entry value))

def leaf : Reader Piece Json :=
  keyword <|> (do return string (← text)) <|> (do
    match (← numeral).value? with
    | some value => return value
    | none => failure)

-- A value with at most so many containers inside of each other.
def value : Nat → Reader Piece Json
  | 0 => leaf
  | depth + 1 =>
    (do return array (← items (value depth))) <|> (do return object (← entries (value depth)))
      <|> leaf

-- A text of which only the end matters.
def passText : Reader Piece Unit := do
  mark '"'
  discard (many (discard (symbol isPlain) <|> passStray <|> passEscaped))
  letters ['"']
where
  passStray : Reader Piece Unit
    | .stray _ :: rest => some ((), rest)
    | _ => none
  passEscaped : Reader Piece Unit := do
    match ← escapeSign with
    | 'u' => discard codeUnit
    | c => if ['"', '\\', '/', 'b', 'f', 'n', 'r', 't'].contains c then return () else failure

def passLeaf : Reader Piece Unit :=
  discard keyword <|> passText <|> discard numeral

def passEntry (value : Reader Piece Unit) : Reader Piece Unit := do
  passText
  mark ':'
  value

def pass : Nat → Reader Piece Unit
  | 0 => passLeaf
  | depth + 1 =>
    discard (enclosed '[' ']' (pass depth))
      <|> discard (enclosed '\x7b' '\x7d' (passEntry (pass depth))) <|> passLeaf

-- No value is nested deeper than it is long.
def passOver : Reader Piece Unit := fun pieces =>
  pass pieces.length pieces

-- What a reader makes of all the bytes; blanks may follow.
def readAll? {α : Type} (r : Reader Piece α) (bytes : ByteArray) : Option α :=
  Prod.fst <$> (do
    let a ← r
    blanks
    atEnd
    return a : Reader Piece α) (Utf8.pieces bytes)

def parse? (bytes : ByteArray) : Option Json :=
  readAll? (value depthLimit) bytes

end Vassal.Json
