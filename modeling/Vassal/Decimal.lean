-- Decimal numbers: `mantissa * 10 ^ exponent` with a sign, so that zero has two of them.

namespace Vassal

structure Decimal where
  negative : Bool := false
  mantissa : Nat
  exponent : Int := 0
deriving DecidableEq, Repr

namespace Decimal

def dropZeros (mantissa : Nat) (exponent : Int) : Nat × Int :=
  if mantissa = 0 then (0, 0)
  else if mantissa % 10 = 0 then dropZeros (mantissa / 10) (exponent + 1)
  else (mantissa, exponent)

-- The same number with a mantissa that does not end in a zero.
def normalize (d : Decimal) : Decimal :=
  let (mantissa, exponent) := dropZeros d.mantissa d.exponent
  { d with mantissa, exponent }

-- Half a step above the largest number of 64 bits: from here on a number is rounded to infinity.
def roundsToInfinity : Nat :=
  Nat.pow 2 1024 - Nat.pow 2 970

-- Whether the magnitude is that large. The count of digits settles it but for numbers of 309
-- digits before the point, which are compared exactly.
def overflows (d : Decimal) : Bool :=
  let magnitude := (Nat.toDigits 10 d.mantissa).length + d.exponent
  if d.mantissa = 0 || magnitude < 309 then false
  else if 309 < magnitude then true
  else if 0 ≤ d.exponent then roundsToInfinity ≤ d.mantissa * Nat.pow 10 d.exponent.toNat
  else roundsToInfinity * Nat.pow 10 (-d.exponent).toNat ≤ d.mantissa

-- The digits with a point after so many of them, which may be none or more than there are.
def withPoint (digits : List Char) (whole : Int) : List Char :=
  let n := whole.toNat
  if whole ≤ 0 then '0' :: '.' :: (List.replicate (-whole).toNat '0' ++ digits)
  else if n < digits.length then digits.take n ++ '.' :: digits.drop n
  else digits ++ List.replicate (n - digits.length) '0' ++ ['.', '0']

-- The digits with a point after the first of them, and the power of ten that makes up for it.
def withPower (digits : List Char) (whole : Int) : List Char :=
  let power := 'e' :: (toString (whole - 1)).toList
  match digits with
  | first :: [] => first :: power
  | first :: rest => first :: '.' :: rest ++ power
  | [] => power

-- Numbers with up to sixteen digits before the point, and up to four zeros after it, are
-- written out.
def renderMagnitude (mantissa : Nat) (exponent : Int) : List Char :=
  let digits := Nat.toDigits 10 mantissa
  let whole := digits.length + exponent
  if -5 < whole && whole ≤ 16 then withPoint digits whole else withPower digits whole

def render (d : Decimal) : String :=
  let d := d.normalize
  (if d.negative then "-" else "") ++ String.ofList (renderMagnitude d.mantissa d.exponent)

end Decimal

end Vassal
