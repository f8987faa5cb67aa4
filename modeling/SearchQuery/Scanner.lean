import Mathlib.Data.Nat.PSub
import SearchQuery.Session
import SearchQuery.Text.Slice

namespace SearchQuery

open Text Cursor

-- A reader of queries which knows its place in the text only as a number of bytes, and which has to
-- slice the text at such numbers to see what it reads. It has no result, not even an error, where there
-- is no slice, where a count would fall below zero, and where it would go on forever.
structure Scanner where
  input    : List Char
  position : Nat
  maxDepth : Nat
  depth    : Nat

abbrev Scan := StateT Scanner Option

-- A scan which may find an error. The scanner is then left where it stopped.
abbrev Reading := ExceptT ParseError Scan

namespace Scan

-- There is no result.
def stuck : Scan α :=
  fun _ => none

def position : Scan Nat :=
  return (← get).position

def reset (position : Nat) : Scan Unit :=
  modify fun s => { s with position }

def advance (n : Nat) : Scan Unit :=
  modify fun s => { s with position := s.position + n }

def rest : Scan (List Char) := do
  let s ← get
  behind? s.position s.input

-- The slice of the input from byte `m` on, before byte `n`.
def slice (m n : Nat) : Scan (List Char) := do
  slice? m n (← get).input

def atEnd : Scan Bool := do
  let s ← get
  return size s.input ≤ s.position

def peek : Scan (Option Char) :=
  return (← rest).head?

-- The index of the first character which is not kept, or else of the end.
def endOfRun (keep : Char → Bool) : List Char → Nat
  | []      => 0
  | c :: cs => if keep c then c.utf8Size + endOfRun keep cs else 0

def readWhile (keep : Char → Bool) : Scan (List Char) := do
  let text ← rest
  let n := endOfRun keep text
  advance n
  before? n text

def skipBlank : Scan Bool :=
  return !(← readWhile isBlank).isEmpty

def punct (c : Char) : Scan Bool := do
  if (← peek) = some c then
    advance c.utf8Size
    return true
  else
    return false

def eat (literal : List Char) : Scan Bool := do
  if literal.isPrefixOf (← rest) then
    advance (size literal)
    return true
  else
    return false

def word (keep : Char → Bool) : Scan (Option String) := do
  let w ← readWhile keep
  return if w.isEmpty then none else some (String.ofList w)

def operator : Scan (Option Operator) := do
  match Operator.at? (← rest) with
  | none    => return none
  | some op =>
    advance (size op.chars)
    return some op

-- Whether the text starts with the connector as a whole word. The word is sliced at a place which
-- may be wrong, but what is behind it only if it is the connector.
def spells (k : Connector) (text : List Char) : Scan Bool := do
  match before? k.chars.length text with
  | none      => return false
  | some word =>
    if word.map Char.toUpper = k.chars then
      let next ← behind? k.chars.length text
      return next.head?.all fun c => isBlank c || c = '(' || c = ')'
    else
      return false

def peekConnector : Scan (Option (Connector × Nat)) := do
  let text ← rest
  if ← spells .and text then
    return some (.and, 3)
  else if ← spells .or text then
    return some (.or, 2)
  else
    return none

def connector : Scan (Option Connector) := do
  match ← peekConnector with
  | none        => return none
  | some (k, n) =>
    advance n
    return some k

-- The connector as it is written.
def peekSpelling : Scan (Option (Connector × String)) := do
  match ← peekConnector with
  | none        => return none
  | some (k, n) =>
    let word ← before? n (← rest)
    return some (k, String.ofList word)

def peekBracket : Scan (Option Bracket) :=
  return Bracket.at? (← rest)

-- The index of the closing quote behind `i` bytes which were read as `text`, and the whole text.
def endOfPhrase (escaped : Bool) (i : Nat) (text : List Char) : List Char → Option (Nat × List Char)
  | []      => none
  | c :: cs =>
    if escaped then
      endOfPhrase false (i + c.utf8Size) (text ++ [c]) cs
    else if c = '\\' then
      endOfPhrase true (i + c.utf8Size) text cs
    else if c = '"' then
      some (i, text)
    else
      endOfPhrase false (i + c.utf8Size) (text ++ [c]) cs

end Scan

namespace Reading

-- Fails where it is called if nothing is found.
def expect (found : Scan Bool) (missing : Expected) : Reading Unit := do
  let start ← Scan.position
  if ← found then
    return ()
  else
    throw ⟨start, missing⟩

def quoted : Reading Atom := do
  let start ← Scan.position
  expect (Scan.punct '"') .value
  match Scan.endOfPhrase false 0 [] (← Scan.rest) with
  | none           => throw ⟨size (← get).input, .closingQuote⟩
  | some (i, text) =>
    let stop := (← Scan.position) + i + 1
    let literal ← Scan.slice start stop
    Scan.reset stop
    return .phrase (String.ofList literal) (String.ofList text)

def bareWord : Reading Atom := do
  let start ← Scan.position
  match ← Scan.word isWordChar with
  | none      => throw ⟨start, .value⟩
  | some word => return .word word

def enter (position : Nat) : Reading Unit := do
  let s ← get
  if s.maxDepth ≤ s.depth then
    throw ⟨position, .shallowerNesting⟩
  else
    set { s with depth := s.depth + 1 }

def leave : Scan Unit := do
  let s ← get
  set { s with depth := ← s.depth.ppred }

def atSequenceEnd (scope : Scope) : Scan Bool := do
  match ← Scan.peek with
  | none | some ')' => return true
  | some _          =>
    if scope = .query then
      return (← Scan.peekBracket).isSome
    else
      return false

def junction? (scope : Scope) : Reading (Option Junction) := do
  let spaced ← Scan.skipBlank
  if ← atSequenceEnd scope then
    return none
  else
    match ← Scan.connector with
    | none   => return some (if spaced then .adjacent else .touching)
    | some k =>
      let _ ← Scan.skipBlank
      if ← atSequenceEnd scope then
        throw ⟨← Scan.position, .expression⟩
      else
        return some (.connector k)

def operand (group : Reading Fragment) : Reading Operand := do
  let start ← Scan.position
  match ← Scan.peek with
  | some '"' => return .atom (← quoted)
  | some '(' => return .group (← group)
  | some c   =>
    if isBlank c || c = ')' then
      throw ⟨start, .value⟩
    else
      return .atom (← bareWord)
  | none     => throw ⟨start, .value⟩

def item (group : Reading Fragment) : Reading Item := do
  let start ← Scan.position
  match ← Scan.peek with
  | none | some ')' => throw ⟨start, .expression⟩
  | some '('        => return .group (← group)
  | some '"'        => return .free (← quoted)
  | some _          =>
    match ← Scan.word isKeyChar with
    | none     => return .free (← bareWord)
    | some key =>
      match ← Scan.operator with
      | none    => return .free (.word key)
      | some op => return .compare key op (← operand group)

def itemsIn (item : Reading Item) (scope : Scope) : (rounds : Nat) → Reading Fragment
  | 0          => Scan.stuck
  | rounds + 1 => do
    let first ← item
    match ← junction? scope with
    | none   => return .single first
    | some j => return .join first j (← itemsIn item scope rounds)

-- A loop which gets on at each round does not go round more often than there are bytes.
def sequence (item : Reading Item) (scope : Scope) : Reading Fragment := do
  itemsIn item scope (size (← get).input + 1)

def enclosed (inside : Reading Fragment) : Reading Fragment := do
  let start ← Scan.position
  expect (Scan.punct '(') .openParen
  enter start
  let _ ← Scan.skipBlank
  let inner ← inside
  let _ ← Scan.skipBlank
  expect (Scan.punct ')') .closingParen
  leave
  return inner

def groupIn : (levels : Nat) → Reading Fragment
  | 0          => enclosed Scan.stuck
  | levels + 1 => enclosed (sequence (item (groupIn levels)) .group)

-- A group which may be entered at all stands in less than `maxDepth` others.
def group : Reading Fragment := do
  groupIn (← get).maxDepth

def facetName : Reading String := do
  let start ← Scan.position
  match ← Scan.word isNameChar with
  | none      => throw ⟨start, .facetName⟩
  | some name => if Parser.isDotted name.toList then return name else throw ⟨start, .facetName⟩

-- The blanks in front of a filter are given back if there is none.
def filter? : Reading (Option Fragment) := do
  let save ← Scan.position
  let _ ← Scan.skipBlank
  if (← Scan.peek) = some '(' then
    return some (← group)
  else
    Scan.reset save
    return none

def facet : Reading FacetSpec := do
  let name ← facetName
  return .ofName name (← filter?)

def nested : Reading NestedSpec := do
  let path ← facetName
  let _ ← Scan.skipBlank
  return { path, filter := ← group }

def separator : Reading Bool := do
  let _ ← Scan.skipBlank
  let _ ← Scan.punct ','
  let _ ← Scan.skipBlank
  Scan.punct ']'

-- The closing bracket is looked for behind an entry only.
def entriesIn (entry : Reading α) : (rounds : Nat) → Reading (List α)
  | 0          => Scan.stuck
  | rounds + 1 => do
    if ← Scan.atEnd then
      throw ⟨← Scan.position, .closingBracket⟩
    else
      let first ← entry
      if ← separator then
        return [first]
      else
        return first :: (← entriesIn entry rounds)

def entries (entry : Reading α) : Reading (List α) := do
  entriesIn entry (size (← get).input + 1)

def clause (b : Bracket) (entry : Reading α) : Reading (List α) := do
  expect (Scan.eat b.keyword) .expression
  let _ ← Scan.skipBlank
  let start ← Scan.position
  expect (Scan.punct '[') .openBracket
  enter start
  let _ ← Scan.skipBlank
  let xs ← entries entry
  leave
  return xs

-- The blanks behind a type are given back if there is no `AND` behind them.
def dropAnd : Scan Unit := do
  let save ← Scan.position
  let _ ← Scan.skipBlank
  match ← Scan.peekConnector with
  | some (.and, _) => let _ ← Scan.connector
  | _              => Scan.reset save

def typeClause : Reading (Option String) := do
  if Parser.opensTypeClause (← Scan.rest) then
    let _ ← Scan.eat Parser.typeKeyword
    let start ← Scan.position
    match ← Scan.word isTypeChar with
    | none       => throw ⟨start, .typeValue⟩
    | some value =>
      if (← Scan.peek).any (!isBlank ·) then
        throw ⟨← Scan.position, .typeValue⟩
      else
        dropAnd
        return some value
  else
    return none

end Reading

-- The answer to an operation, and how it leaves the scanner.
def Scanner.perform : Operation α → Scanner → Option (α × Scanner)
  | .position       => Scan.position
  | .rest           => String.ofList <$> Scan.rest
  | .atEnd          => Scan.atEnd
  | .peek           => Scan.peek
  | .reset position => Scan.reset position
  | .skipBlank      => Scan.skipBlank
  | .eat text       => Scan.eat text.toList
  | .key            => Scan.word isKeyChar
  | .word           => Scan.word isWordChar
  | .name           => Scan.word isNameChar
  | .typeWord       => Scan.word isTypeChar
  | .operator       => Scan.operator
  | .connector      => Scan.connector
  | .peekConnector  => Scan.peekSpelling
  | .phrase         => Reading.quoted
  | .sequence scope => Reading.sequence (Reading.item Reading.group) scope
  | .group          => Reading.group
  | .typeClause     => Reading.typeClause
  | .facetsClause   => Reading.clause .facets Reading.facet
  | .nestedClause   => Reading.clause .nested Reading.nested
  | .peekClause     => Scan.peekBracket

end SearchQuery
