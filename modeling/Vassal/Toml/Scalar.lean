import Vassal.Decimal
import Vassal.Toml.Lexeme
import Vassal.Toml.Value

-- Numbers, truth values and moments in time.

namespace Vassal.Toml

open Text Text.Reader

-- Digits with single underscores between them.
def digitsOf (p : Char → Bool) : Reader Char (List Char) := do
  let first ← one p
  let others ← many (do
    discard (optional (unit '_'))
    one p)
  return first :: others

def isOctalDigit (c : Char) : Bool :=
  '0' ≤ c && c ≤ '7'

def isBinaryDigit (c : Char) : Bool :=
  c == '0' || c == '1'

-- A number is an integer of 64 bits or it is none.
def integerOf (n : Int) : Reader Char Value :=
  if -0x8000000000000000 ≤ n && n < 0x8000000000000000 then return .integer n else failure

def radixInteger (mark : Char) (base : Nat) (p : Char → Bool) : Reader Char Value := do
  word ['0', mark]
  integerOf (number base (← digitsOf p))

-- The digits before the point; a zero stands alone.
def leadingDigits : Reader Char (List Char) := do
  match ← peek with
  | some '0' =>
    unit '0'
    return ['0']
  | _ => digitsOf Char.isDigit

def sign : Reader Char (Option Char) :=
  optional (one fun c => c == '+' || c == '-')

def fraction : Reader Char (List Char) := do
  unit '.'
  digitsOf Char.isDigit

def exponent : Reader Char Int := do
  discard (one fun c => c == 'e' || c == 'E')
  let sign ← sign
  let n : Int := number 10 (← digitsOf Char.isDigit)
  return if sign == some '-' then -n else n

def specialFloat : Reader Char Value := do
  discard sign
  word ['i', 'n', 'f'] <|> word ['n', 'a', 'n']
  return .float

-- A positive number may not be too large; a negative one becomes an infinity.
def decimal : Reader Char Value := do
  let sign ← sign
  let whole ← leadingDigits
  match ← optional fraction, ← optional exponent with
  | none, none =>
    let n : Int := number 10 whole
    integerOf (if sign == some '-' then -n else n)
  | fraction, exponent =>
    let fraction := fraction.getD []
    let magnitude : Decimal := {
      mantissa := number 10 (whole ++ fraction)
      exponent := exponent.getD 0 - fraction.length }
    if sign != some '-' && magnitude.overflows then failure else return .float

def twoDigits (low high : Nat) : Reader Char Nat := do
  let n := number 10 (← exactly Char.isDigit 2)
  if low ≤ n && n ≤ high then return n else failure

def daysIn (year month : Nat) : Nat :=
  if month = 2 then
    if year % 4 = 0 && (year % 100 != 0 || year % 400 = 0) then 29 else 28
  else if [4, 6, 9, 11].contains month then 30
  else 31

def date : Reader Char Date := do
  let year := number 10 (← exactly Char.isDigit 4)
  unit '-'
  let month ← twoDigits 1 12
  unit '-'
  let day ← twoDigits 1 31
  if day ≤ daysIn year month then return { year, month, day } else failure

-- Digits past the ninth are cut off.
def nanoseconds : Reader Char Nat := do
  unit '.'
  let first ← one Char.isDigit
  let digits := (first :: (← run Char.isDigit)).take 9
  return number 10 (digits ++ List.replicate (9 - digits.length) '0')

def time : Reader Char Time := do
  let hour ← twoDigits 0 23
  unit ':'
  let minute ← twoDigits 0 59
  unit ':'
  let second ← twoDigits 0 60
  return { hour, minute, second, nanosecond := (← optional nanoseconds).getD 0 }

def offset : Reader Char Offset := do
  match ← one fun c => c == 'Z' || c == 'z' || c == '+' || c == '-' with
  | 'Z' | 'z' => return .utc
  | sign =>
    let hours ← twoDigits 0 23
    unit ':'
    let minutes : Int := hours * 60 + (← twoDigits 0 59)
    return .minutes (if sign == '-' then -minutes else minutes)

def clock : Reader Char (Time × Option Offset) := do
  discard (one fun c => c == 'T' || c == 't' || c == ' ')
  return (← time, ← optional offset)

def moment : Reader Char Moment := do
  match ← optional date with
  | some d =>
    match ← optional clock with
    | some (t, offset) => return .dateTime d t offset
    | none => return .date d
  | none => return .time (← time)

def boolean : Reader Char Value :=
  (do
    word ['t', 'r', 'u', 'e']
    return .boolean true)
  <|> (do
    word ['f', 'a', 'l', 's', 'e']
    return .boolean false)

def scalar : Reader Char Value :=
  (do return .string (← text)) <|> (do return .moment (← moment)) <|> boolean <|> specialFloat
    <|> radixInteger 'x' 16 isHexDigit <|> radixInteger 'o' 8 isOctalDigit
    <|> radixInteger 'b' 2 isBinaryDigit <|> decimal

end Vassal.Toml
