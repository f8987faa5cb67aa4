import SearchQuery.Text.Hex

namespace SearchQuery.Json.Literal

open Text

-- The characters which have an escape of one letter when they are written.
def shortEscapes : List (Char × Char) :=
  [('"', '"'), ('\\', '\\'), ('\x08', 'b'), ('\x0c', 'f'), ('\n', 'n'), ('\r', 'r'), ('\t', 't')]

-- Only quotes, backslashes and control characters are escaped.
def escapeChar (c : Char) : List Char :=
  match shortEscapes.lookup c with
  | some e => ['\\', e]
  | none   =>
    if c.toNat < 0x20 then ['\\', 'u', '0', '0', hexDigit (c.toNat / 16), hexDigit c.toNat] else [c]

def ofText (s : String) : String :=
  String.ofList <| s.toList.flatMap escapeChar

-- A literal is made of characters, some of which are written as escapes, and of escaped UTF-16 code
-- units, which may or may not form characters.
inductive Piece
  | char (c : Char)
  | unit (n : Nat)
  deriving DecidableEq, Repr

-- The character which a letter stands for behind a backslash. A slash may be escaped.
def escaped? (letter : Char) : Option Char :=
  (('/', '/') :: shortEscapes).findSome? fun (c, e) => if e = letter then some c else none

-- The pieces of a literal. A control character has to be escaped.
def pieces? : List Char → Option (List Piece)
  | [] => some []
  | '\\' :: 'u' :: a :: b :: c :: d :: cs => do
    return .unit (← hexNumber? [a, b, c, d]) :: (← pieces? cs)
  | '\\' :: e :: cs => do
    return .char (← escaped? e) :: (← pieces? cs)
  | c :: cs => do
    if c = '\\' ∨ c = '"' ∨ c.toNat < 0x20 then none else return .char c :: (← pieces? cs)

def isHighSurrogate (n : Nat) : Bool :=
  0xD800 ≤ n && n < 0xDC00

def isLowSurrogate (n : Nat) : Bool :=
  0xDC00 ≤ n && n < 0xE000

-- The characters which the pieces form. A surrogate without its other half forms none.
def chars? : List Piece → Option (List Char)
  | [] => some []
  | .char c :: ps => (chars? ps).map (c :: ·)
  | .unit h :: .unit l :: ps =>
    if isHighSurrogate h then
      if isLowSurrogate l then
        (chars? ps).map (Char.ofNat (0x10000 + (h - 0xD800) * 0x400 + (l - 0xDC00)) :: ·)
      else none
    else if isLowSurrogate h then none
    else (chars? (.unit l :: ps)).map (Char.ofNat h :: ·)
  | .unit n :: ps =>
    if isHighSurrogate n || isLowSurrogate n then none else (chars? ps).map (Char.ofNat n :: ·)

-- The text which a literal denotes.
def text? (literal : String) : Option String := do
  return String.ofList (← chars? (← pieces? literal.toList))

end SearchQuery.Json.Literal
