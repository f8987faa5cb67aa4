import SearchQuery.Text.Hex
import SearchQuery.Toml.Scan

namespace SearchQuery.Toml.Scan

-- A character that may stand in a comment or in a string: a tab, but no other control character.
def isPrintable (c : Char) : Bool :=
  c = '\t' || (0x20 ≤ c.toNat && c.toNat ≠ 0x7F)

def isSpace (c : Char) : Bool :=
  c = ' ' || c = '\t'

def space : Scan Unit := do
  let _ ← run isSpace

def newline : Scan Unit :=
  literal ['\n'] <|> literal ['\r', '\n']

def comment : Scan Unit := do
  literal ['#']
  let _ ← run isPrintable

-- What may stand between the elements of an array.
def filler : Scan Unit := do
  let _ ← many ((do let _ ← run1 isSpace) <|> newline <|> comment)

def lineEnd : Scan Unit := do
  space
  let _ ← optional comment
  newline <|> atEnd

def ofCode? (n : Nat) : Option Char :=
  if n.isValidChar then some (Char.ofNat n) else none

-- A character which is written with a backslash.
def escape : Scan Char := do
  literal ['\\']
  match ← char fun _ => true with
  | 'b'  => return '\x08'
  | 't'  => return '\t'
  | 'n'  => return '\n'
  | 'f'  => return '\x0c'
  | 'r'  => return '\r'
  | '"'  => return '"'
  | '\\' => return '\\'
  | 'u'  => code 4
  | 'U'  => code 8
  | _    => failure
where
  code (digits : Nat) : Scan Char := do
    let n ← ofOption <| Text.hexNumber? (← count digits fun _ => true)
    ofOption (ofCode? n)

def isBasic (c : Char) : Bool :=
  isPrintable c && c ≠ '"' && c ≠ '\\'

def isLiteral (c : Char) : Bool :=
  isPrintable c && c ≠ '\''

def basicString : Scan (List Char) := do
  literal ['"']
  let text ← many (escape <|> char isBasic)
  literal ['"']
  return text

def literalString : Scan (List Char) := do
  literal ['\'']
  let text ← run isLiteral
  literal ['\'']
  return text

-- A string between three quotes at each end. Up to two more of them may end its text.
def multiline (quote : Char) (piece : Scan (List Char)) : Scan (List Char) := do
  literal [quote, quote, quote]
  let _ ← optional newline
  let text ← many (lineBreak <|> quotes <|> piece)
  let ending ← run (· = quote)
  if 3 ≤ ending.length ∧ ending.length ≤ 5 then
    return text.flatten ++ ending.drop 3
  else
    failure
where
  lineBreak : Scan (List Char) := do
    newline
    return ['\n']
  quotes : Scan (List Char) := do
    let run ← run1 (· = quote)
    if run.length < 3 then return run else failure

-- A backslash at the end of a line drops the line break and all white space behind it.
def continuation : Scan (List Char) := do
  literal ['\\']
  space
  newline
  let _ ← many ((do let _ ← run1 isSpace) <|> newline)
  return []

def multilineBasic : Scan (List Char) :=
  multiline '"' (continuation <|> (do return [← escape]) <|> run1 isBasic)

def multilineLiteral : Scan (List Char) :=
  multiline '\'' (run1 isLiteral)

def string : Scan String := do
  return String.ofList (← multilineBasic <|> basicString <|> multilineLiteral <|> literalString)

def isBareKeyChar (c : Char) : Bool :=
  c.isAlphanum || c = '_' || c = '-'

def simpleKey : Scan String := do
  return String.ofList (← basicString <|> literalString <|> run1 isBareKeyChar)

-- How many segments a dotted key may have less than, and how deep values may be nested less than.
def nestingLimit : Nat :=
  80

def key : Scan (List String) := do
  let path ← sepBy1 (space *> simpleKey <* space) (literal ['.'])
  if path.length < nestingLimit then return path else failure

end SearchQuery.Toml.Scan
