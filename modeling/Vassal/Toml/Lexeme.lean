import Vassal.Text.Reader

-- The texts of TOML: blanks, comments, line ends, quoted texts and keys.

namespace Vassal.Toml

open Text Text.Reader

def isSpace (c : Char) : Bool :=
  c == ' ' || c == '\t'

-- What may stand in comments and quotes: no control character but the tab.
def isPlain (c : Char) : Bool :=
  c == '\t' || (0x20 ≤ c.toNat && c.toNat ≤ 0x7E) || 0x80 ≤ c.toNat

def spaces : Reader Char Unit := do
  discard (run isSpace)

def newline : Reader Char Unit := do
  discard (optional (unit '\r'))
  unit '\n'

def comment : Reader Char Unit := do
  unit '#'
  discard (run isPlain)

-- The rest of a line that says no more, up to its end or the end of the document.
def lineEnd : Reader Char Unit := do
  spaces
  discard (optional comment)
  newline <|> atEnd

-- Blanks, comments and line ends, as they may stand between the elements of an array.
def gaps : Reader Char Unit := do
  discard (many ((do discard (one isSpace)) <|> newline <|> comment))

-- A code point by its digits, unless it is a surrogate or past the last one.
def codePoint (digits : Nat) : Reader Char Char := do
  let n := number 16 (← exactly isHexDigit digits)
  if n < 0xD800 || (0xDFFF < n && n ≤ 0x10FFFF) then return Char.ofNat n else failure

def escaped : Reader Char Char := do
  unit '\\'
  match ← one fun _ => true with
  | 'b' => return Char.ofNat 8
  | 't' => return '\t'
  | 'n' => return '\n'
  | 'f' => return Char.ofNat 12
  | 'r' => return '\r'
  | '"' => return '"'
  | '\\' => return '\\'
  | 'u' => codePoint 4
  | 'U' => codePoint 8
  | _ => failure

def basicText : Reader Char String := do
  unit '"'
  let cs ← many (one (fun c => isPlain c && c != '"' && c != '\\') <|> escaped)
  unit '"'
  return String.ofList cs

def literalText : Reader Char String := do
  unit '\''
  let cs ← run fun c => isPlain c && c != '\''
  unit '\''
  return String.ofList cs

def lineBreak : Reader Char (List Char) := do
  newline
  return ['\n']

-- A backslash at the end of a line takes the line end and all blanks after it away.
def continuation : Reader Char (List Char) := do
  unit '\\'
  spaces
  newline
  discard (many ((do discard (one isSpace)) <|> newline))
  return []

-- One or two quotes that do not begin the closing three.
def innerQuotes (quote : Char) : Reader Char (List Char) :=
  fun cs =>
    let quotes := cs.takeWhile (· == quote)
    if quotes.length = 1 || quotes.length = 2 then some (quotes, cs.drop quotes.length) else none

-- The closing three quotes, after up to two that belong to the text.
def closingQuotes (quote : Char) : Reader Char (List Char) :=
  fun cs =>
    let quotes := cs.takeWhile (· == quote)
    if 3 ≤ quotes.length then
      let inner := min 2 (quotes.length - 3)
      some (List.replicate inner quote, cs.drop (inner + 3))
    else none

def longText (quote : Char) (piece : Reader Char (List Char)) : Reader Char String := do
  word [quote, quote, quote]
  discard (optional newline)
  let pieces ← many (piece <|> lineBreak <|> innerQuotes quote)
  let last ← closingQuotes quote
  return String.ofList (pieces.flatten ++ last)

def longBasicText : Reader Char String :=
  longText '"'
    ((do return [← one fun c => isPlain c && c != '"' && c != '\\'])
      <|> continuation <|> (do return [← escaped]))

def longLiteralText : Reader Char String :=
  longText '\'' (do return [← one fun c => isPlain c && c != '\''])

def text : Reader Char String :=
  longBasicText <|> basicText <|> longLiteralText <|> literalText

def isBareKey (c : Char) : Bool :=
  c.isAlphanum || c == '-' || c == '_'

def simpleKey : Reader Char String := do
  match ← peek with
  | some '"' => basicText
  | some '\'' => literalText
  | _ =>
    let cs ← run isBareKey
    if cs.isEmpty then failure else return String.ofList cs

-- How many names a dotted key may have, and how deep values may be nested.
def depthLimit : Nat :=
  80

def key : Reader Char (List String) := do
  let names ← separated
    (do
      spaces
      let name ← simpleKey
      spaces
      return name)
    (unit '.')
  if names.length < depthLimit then return names else failure

end Vassal.Toml
