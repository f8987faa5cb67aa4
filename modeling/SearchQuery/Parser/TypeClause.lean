import SearchQuery.Parser

namespace SearchQuery.Parser

def typeKeyword : List Char :=
  ['t', 'y', 'p', 'e', ':']

-- `type` with any other operator than `:` is a comparison.
def opensTypeClause (cs : List Char) : Bool :=
  typeKeyword.isPrefixOf cs && !(cs.drop typeKeyword.length).head?.any (· ∈ ['>', '<', '='])

-- Drops an `AND`, and the blanks in front of it.
def dropAnd : Parser Unit := fun s =>
  match s.cursor.skipBlank.connector? with
  | some (.and, c) => .ok () { s with cursor := c }
  | _              => .ok () s

-- Reads the type of the documents to search, if the query gives one. An `AND` behind it has no
-- meaning of its own.
def typeClause : Parser (Option String) := do
  if opensTypeClause (← here).rest then
    expect typeKeyword .typeValue
    let c ← here
    match ← take? Cursor.typeWord? with
    | none => throw ⟨c.offset, .typeValue⟩
    | some value =>
      let c ← here
      if c.atEnd || c.atBlank then
        dropAnd
        note <| .typeFilter value
        return some value
      else
        throw ⟨c.offset, .typeValue⟩
  else
    return none

end SearchQuery.Parser
