import Vassal.Text.Invisible
import Vassal.Text.Utf8

-- Texts inside double quotes, as messages show file names and other bytes from outside.
--
-- Quotes, the backslash and what cannot be seen are escaped, so that a message shows where such
-- a text begins, where it ends and which bytes it has.

namespace Vassal.Text.Quoted

def hex (n : Nat) : String :=
  String.ofList (Nat.toDigits 16 n)

def escapeChar (c : Char) : String :=
  match c with
  | '\x00' => "\\0"
  | '\t' => "\\t"
  | '\n' => "\\n"
  | '\r' => "\\r"
  | '"' => "\\\""
  | '\'' => "\\'"
  | '\\' => "\\\\"
  | c => if isInvisible c then "\\u\x7b" ++ hex c.toNat ++ "\x7d" else c.toString

-- A byte that is no text is at least `0x80`, so it always has two digits.
def escapeByte (b : UInt8) : String :=
  "\\x" ++ String.ofList ((Nat.toDigits 16 b.toNat).map Char.toUpper)

def escapePiece : Piece → String
  | .char c => escapeChar c
  | .stray bytes => String.join (bytes.map escapeByte)

def encode (pieces : List Piece) : String :=
  "\"" ++ String.join (pieces.map escapePiece) ++ "\""

end Vassal.Text.Quoted
