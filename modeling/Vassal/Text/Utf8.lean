-- Bytes read as UTF-8, with what is not UTF-8 kept apart.
--
-- `pieces` cuts any byte string into characters and stray runs; a stray run is the longest
-- beginning of a character that the bytes go on to break, or one byte that begins none. Bytes
-- in which nothing is stray are the text `decode?`; `lossy` puts the replacement character for
-- each run.

namespace Vassal.Text

inductive Piece
  | char (c : Char)
  | stray (bytes : List UInt8)
deriving DecidableEq, Repr

namespace Utf8

-- How many bytes complete a character that begins with this one.
def tailLength? (first : UInt8) : Option Nat :=
  if first < 0x80 then some 0
  else if 0xC2 ≤ first && first ≤ 0xDF then some 1
  else if 0xE0 ≤ first && first ≤ 0xEF then some 2
  else if 0xF0 ≤ first && first ≤ 0xF4 then some 3
  else none

def isContinuation (b : UInt8) : Bool :=
  0x80 ≤ b && b ≤ 0xBF

-- After some first bytes only a part of the continuation bytes may follow: the rest would spell
-- a surrogate, an overlong form or a number past the last code point.
def mayFollow (first second : UInt8) : Bool :=
  match first with
  | 0xE0 => 0xA0 ≤ second && second ≤ 0xBF
  | 0xED => 0x80 ≤ second && second ≤ 0x9F
  | 0xF0 => 0x90 ≤ second && second ≤ 0xBF
  | 0xF4 => 0x80 ≤ second && second ≤ 0x8F
  | _ => isContinuation second

-- The bytes that carry on a character begun with `first`, as far as they do.
def tail (first : UInt8) : Nat → List UInt8 → List UInt8
  | n + 1, second :: rest =>
    if mayFollow first second then second :: (rest.take n).takeWhile isContinuation else []
  | _, _ => []

-- Each byte of the tail gives six bits, the first byte what its own mark leaves over.
def compose (first : UInt8) (tail : List UInt8) : Char :=
  let lead := if tail.isEmpty then first.toNat else first.toNat % Nat.pow 2 (6 - tail.length)
  Char.ofNat (tail.foldl (fun n b => n * 64 + b.toNat % 64) lead)

def scan : List UInt8 → List Piece
  | [] => []
  | first :: rest =>
    match tailLength? first with
    | none => .stray [first] :: scan rest
    | some n =>
      let tail := tail first n rest
      let piece := if tail.length = n then Piece.char (compose first tail) else .stray (first :: tail)
      piece :: scan (rest.drop tail.length)
termination_by bytes => bytes.length

-- The text the bytes spell, when all of them do.
def decode? (bytes : ByteArray) : Option String :=
  String.fromUTF8? bytes

-- A text is its characters; only bytes that are no text need the scan.
def pieces (bytes : ByteArray) : List Piece :=
  match decode? bytes with
  | some s => s.toList.map .char
  | none => scan bytes.toList

def replacement : Char :=
  Char.ofNat 0xFFFD

def readable : Piece → Char
  | .char c => c
  | .stray _ => replacement

-- Reading that cannot fail: each stray run becomes one replacement character.
def lossy (bytes : ByteArray) : String :=
  String.ofList ((pieces bytes).map readable)

end Utf8

end Vassal.Text
