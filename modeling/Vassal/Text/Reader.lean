-- Readers: functions that take something off the front of a text, or fail.
--
-- A text is a list of units: characters, or pieces where bytes may be no text at all.

namespace Vassal.Text

-- Digits and the numbers that they spell.

def isHexDigit (c : Char) : Bool :=
  c.isDigit || ('a' ≤ c && c ≤ 'f') || ('A' ≤ c && c ≤ 'F')

def digitValue (c : Char) : Nat :=
  if c.isDigit then c.toNat - '0'.toNat
  else if 'a' ≤ c then c.toNat - 'a'.toNat + 10
  else c.toNat - 'A'.toNat + 10

-- The number that digits spell in a base; each digit has a value below the base.
def number (base : Nat) (digits : List Char) : Nat :=
  digits.foldl (fun n c => n * base + digitValue c) 0

abbrev Reader (τ α : Type) :=
  StateT (List τ) Option α

namespace Reader

variable {τ α : Type}

def peek : Reader τ (Option τ) :=
  fun us => some (us.head?, us)

-- One unit of a class.
def one (p : τ → Bool) : Reader τ τ
  | u :: us => if p u then some (u, us) else none
  | [] => none

def unit [BEq τ] (u : τ) : Reader τ Unit := do
  discard (one (· == u))

def word [BEq τ] : List τ → Reader τ Unit
  | [] => pure ()
  | u :: us => do
    unit u
    word us

-- As many units of a class as follow.
def run (p : τ → Bool) : Reader τ (List τ) :=
  fun us => some (us.takeWhile p, us.dropWhile p)

-- Exactly so many units of a class.
def exactly (p : τ → Bool) : Nat → Reader τ (List τ)
  | 0 => pure []
  | n + 1 => do return (← one p) :: (← exactly p n)

def manyFrom (r : Reader τ α) (us : List τ) : List α × List τ :=
  match r us with
  | some (a, rest) =>
    if rest.length < us.length then
      let (as, rest) := manyFrom r rest
      (a :: as, rest)
    else ([], us)
  | none => ([], us)
termination_by us.length

-- Over and over, up to the first time the reader fails or takes nothing.
def many (r : Reader τ α) : Reader τ (List α) :=
  fun us => some (manyFrom r us)

-- At least one, with a separator between any two.
def separated (r : Reader τ α) (separator : Reader τ Unit) : Reader τ (List α) := do
  let first ← r
  let others ← many (do
    separator
    r)
  return first :: others

def atEnd : Reader τ Unit
  | [] => some ((), [])
  | _ => none

end Reader

end Vassal.Text
