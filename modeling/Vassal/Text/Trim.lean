-- Cutting characters off both ends of a text.
--
-- `trim` drops the blanks of the Unicode property White_Space; `trimMatches` drops whatever a
-- predicate accepts. Both work on the list of characters, which is where statements about them
-- are made.

namespace Vassal.Text

-- The property White_Space, as closed ranges of code points in ascending order.
def blankRanges : List (Nat × Nat) :=
  [(0x09, 0x0D), (0x20, 0x20), (0x85, 0x85), (0xA0, 0xA0), (0x1680, 0x1680), (0x2000, 0x200A),
   (0x2028, 0x2029), (0x202F, 0x202F), (0x205F, 0x205F), (0x3000, 0x3000)]

def inRanges (ranges : List (Nat × Nat)) (c : Char) : Bool :=
  ranges.any fun r => r.1 ≤ c.toNat && c.toNat ≤ r.2

def isBlank (c : Char) : Bool :=
  inRanges blankRanges c

-- Dropping from the end is dropping from the front of the reversed list.
def dropEnd (p : Char → Bool) (cs : List Char) : List Char :=
  (cs.reverse.dropWhile p).reverse

def dropEnds (p : Char → Bool) (cs : List Char) : List Char :=
  dropEnd p (cs.dropWhile p)

def trimMatches (p : Char → Bool) (s : String) : String :=
  String.ofList (dropEnds p s.toList)

def trim (s : String) : String :=
  trimMatches isBlank s

end Vassal.Text
