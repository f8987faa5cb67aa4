import SearchQuery.Query

namespace SearchQuery

-- A parser at work on one text, driven by one operation at a time. An operation which fails leaves
-- the parser where it stopped, and the next one goes on from there.
structure Session where
  input    : List Char
  maxDepth : Nat
  state    : State

-- Operations, by the type of their answers.
inductive Operation : Type → Type
  | position                 : Operation Nat
  | rest                     : Operation String
  | atEnd                    : Operation Bool
  | peek                     : Operation (Option Char)
  | reset (offset : Nat)     : Operation Unit
  | skipBlank                : Operation Bool
  | eat (text : String)      : Operation Bool
  | key                      : Operation (Option String)
  | word                     : Operation (Option String)
  | name                     : Operation (Option String)
  | typeWord                 : Operation (Option String)
  | operator                 : Operation (Option Operator)
  | connector                : Operation (Option Connector)
  | peekConnector            : Operation (Option (Connector × String))
  | phrase                   : Operation (Except ParseError Atom)
  | sequence (scope : Scope) : Operation (Except ParseError Fragment)
  | group                    : Operation (Except ParseError Fragment)
  | typeClause               : Operation (Except ParseError (Option String))
  | facetsClause             : Operation (Except ParseError (List FacetSpec))
  | nestedClause             : Operation (Except ParseError (List NestedSpec))
  | peekClause               : Operation (Option Bracket)

namespace Session

def start (input : String) (maxDepth : Nat) : Session where
  input    := input.toList
  maxDepth := maxDepth
  state    := .start input.toList

def cursor (s : Session) : Cursor :=
  s.state.cursor

def moveTo (s : Session) (c : Cursor) : Session :=
  { s with state := { s.state with cursor := c } }

-- How many more groups and brackets may be opened.
def levels (s : Session) : Nat :=
  s.maxDepth - s.state.depth

-- Lets a parser go on from here.
def run (p : Parser α) (s : Session) : Except ParseError α × Session :=
  match p s.state with
  | .ok a s'    => (.ok a, { s with state := s' })
  | .error e s' => (.error e, { s with state := s' })

-- Takes the token which `find` finds, or stays here if there is none.
def take? (find : Cursor → Option (α × Cursor)) (s : Session) : Option α × Session :=
  match find s.cursor with
  | some (a, c) => (some a, s.moveTo c)
  | none        => (none, s)

def perform : Operation α → Session → α × Session
  | .position, s       => (s.cursor.offset, s)
  | .rest, s           => (String.ofList s.cursor.rest, s)
  | .atEnd, s          => (s.cursor.atEnd, s)
  | .peek, s           => (s.cursor.peek, s)
  | .reset offset, s   => ((), s.moveTo (.seek s.input offset))
  | .skipBlank, s      => (s.cursor.atBlank, s.moveTo s.cursor.skipBlank)
  | .eat text, s       =>
    match s.cursor.eat? text.toList with
    | some c => (true, s.moveTo c)
    | none   => (false, s)
  | .key, s            => s.take? Cursor.key?
  | .word, s           => s.take? Cursor.word?
  | .name, s           => s.take? Cursor.name?
  | .typeWord, s       => s.take? Cursor.typeWord?
  | .operator, s       => s.take? Cursor.operator?
  | .connector, s      => s.take? Cursor.connector?
  | .peekConnector, s  => ((Connector.at? s.cursor.rest).map fun (k, w) => (k, String.ofList w), s)
  | .phrase, s         => s.run Parser.phrase
  | .sequence scope, s => s.run <| Parser.sequence (Parser.items (Parser.group s.levels)) scope
  | .group, s          => s.run (Parser.group s.levels).run
  | .typeClause, s     => s.run Parser.typeClause
  | .facetsClause, s   => s.run (Parser.facetsClause s.levels).run
  | .nestedClause, s   => s.run (Parser.nestedClause s.levels).run
  | .peekClause, s     => (Bracket.at? s.cursor.rest, s)

end Session

end SearchQuery
