namespace SearchQuery

-- What was looked for at the place where reading stopped.
inductive Expected
  | expression
  | value
  | typeValue
  | closingQuote
  | closingParen
  | openParen
  | openBracket
  | closingBracket
  | facetName
  | shallowerNesting
  | endOfInput
  deriving DecidableEq, Repr

def Expected.text : Expected → String
  | expression       => "an expression"
  | value            => "a value"
  | typeValue        => "a type value"
  | closingQuote     => "a closing '\"'"
  | closingParen     => "')'"
  | openParen        => "'('"
  | openBracket      => "'['"
  | closingBracket   => "']'"
  | facetName        => "a facet name"
  | shallowerNesting => "less deeply nested groups"
  | endOfInput       => "end of query"

-- The offset counts bytes from the start of the text that was read.
structure ParseError where
  offset   : Nat
  expected : Expected
  deriving DecidableEq, Repr

def ParseError.message (e : ParseError) : String :=
  "invalid query syntax at offset " ++ toString e.offset ++ ": expected " ++ e.expected.text

end SearchQuery
