import SearchQuery.Parser.Bracket
import SearchQuery.Parser.TypeClause

namespace SearchQuery

inductive Part
  | facets (specs : List FacetSpec)
  | nested (specs : List NestedSpec)
  | text (fragment : Fragment)
  deriving DecidableEq, Repr

-- A query may name the type of the documents to search, and lists its parts in any order.
structure Query where
  docType : Option String
  parts   : List Part
  deriving DecidableEq, Repr

namespace Parser

-- Reads the items up to the next clause.
def text (levels : Nat) : Parser Fragment := do
  let c ← here
  if c.peek = some ')' then
    throw ⟨c.offset, .endOfInput⟩
  else
    let f ← sequence (items (group levels)) .query
    note <| .fragment f
    return f

theorem text_advances : (text levels).Advances := by
  refine here_forward.bind_advances fun _ => ?_
  split
  case isTrue  => exact .throw
  case isFalse =>
    exact (sequence_advances _).bind_forward fun _ => note_forward.bind fun _ => .pure

def part (levels : Nat) : Parser Part := do
  match Bracket.at? (← here).rest with
  | some .facets => .facets <$> (facetsClause levels).run
  | some .nested => .nested <$> (nestedClause levels).run
  | none         => .text <$> text levels

theorem part_advances : (part levels).Advances := by
  refine here_forward.bind_advances fun _ => ?_
  split
  · exact (facetsClause levels).advances.map
  · exact (nestedClause levels).advances.map
  · exact text_advances.map

-- Reads parts, and the blanks before each of them, until the text ends.
def parts (levels : Nat) : Parser (List Part) := fun s =>
  let s := { s with cursor := s.cursor.skipBlank }
  if s.cursor.atEnd then
    .ok [] s
  else
    match _h : part levels s with
    | .error e s₁  => .error e s₁
    | .ok first s₁ =>
      match parts levels s₁ with
      | .error e s₂ => .error e s₂
      | .ok rest s₂ => .ok (first :: rest) s₂
termination_by s => s.cursor.rest.length
decreasing_by
  exact Cursor.length_lt_of_lt <| Cursor.lt_of_le_of_lt Cursor.le_skipBlank (part_advances _h)

def query (levels : Nat) : Parser Query := do
  let docType ← typeClause
  let parts ← parts levels
  return { docType, parts }

end Parser

namespace Query

-- Line ends have no meaning in a query, not even that of a blank, and neither have outer blanks.
def normalize (text : String) : List Char :=
  Text.trim <| text.toList.filter (· ≠ '\n')

-- Reads a query in which groups and brackets may nest `maxDepth` deep. The notes come in the order
-- in which they were taken.
def parse (maxDepth : Nat) (text : String) : Except ParseError Query × List Note :=
  match Parser.query maxDepth (.start <| normalize text) with
  | .ok q s    => (.ok q, s.notes.reverse)
  | .error e s => (.error e, s.notes.reverse)

end Query

end SearchQuery
