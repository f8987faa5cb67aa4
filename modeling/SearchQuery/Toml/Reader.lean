import SearchQuery.Toml.Number
import SearchQuery.Toml.Text
import SearchQuery.Toml.Tree

namespace SearchQuery.Toml

namespace Scan

def scalar : Scan Toml :=
  (.string <$> string) <|>
  (do literal ['t', 'r', 'u', 'e']; return .boolean true) <|>
  (do literal ['f', 'a', 'l', 's', 'e']; return .boolean false) <|>
  (.dateTime <$> dateTime) <|>
  (.float <$> float) <|>
  (.integer <$> integer)

def array (value : Scan Toml) : Scan Toml := do
  literal ['[']
  let items ← sepBy (filler *> value <* filler) (literal [','])
  unless items.isEmpty do
    let _ ← optional (literal [','])
  filler
  literal [']']
  return .array items

-- A pair, by the segments of its key before the last one, the last one, and the value.
def pair (value : Scan Toml) : Scan (List String × String × Toml) := do
  let path ← key
  literal ['=']
  space
  let v ← value
  return (path.dropLast, path.getLastD "", v)

def inlineTable (value : Scan Toml) : Scan Toml := do
  literal ['{']
  let pairs ← sepBy (pair value <* space) (literal [','])
  space
  literal ['}']
  ofOption <| inlineTable? pairs

-- A value in which arrays and inline tables nest `levels` deep at most.
def value : (levels : Nat) → Scan Toml
  | 0          => scalar
  | levels + 1 => scalar <|> array (value levels) <|> inlineTable (value levels)

def header (opening closing : List Char) : Scan (List String × String) := do
  literal opening
  let path ← key
  literal closing
  lineEnd
  return (path.dropLast, path.getLastD "")

def statement : Scan Statement :=
  (do let (path, key) ← header ['[', '['] [']', ']']; return .element path key) <|>
  (do let (path, key) ← header ['['] [']']; return .table path key) <|>
  (do let (path, key, v) ← pair (value (nestingLimit - 1)) <* lineEnd; return .pair path key v)

-- A line, which need not hold a statement.
def line : Scan (Option Statement) := do
  space
  (some <$> statement) <|> (do let _ ← optional comment; newline; return none)

def document : Scan (List Statement) := do
  let _ ← optional (literal ['\uFEFF'])
  let lines ← many line
  space
  let _ ← optional comment
  atEnd
  return lines.filterMap id

end Scan

-- The table which a text denotes.
def read? (text : String) : Option Toml := do
  let (statements, _) ← Scan.document text.toList
  ofStatements? statements

end SearchQuery.Toml
