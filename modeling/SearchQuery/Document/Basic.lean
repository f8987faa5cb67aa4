import SearchQuery.Fields

namespace SearchQuery

-- How the backend joins words that have no connector between them.
inductive DefaultOperator
  | and | or
  deriving DecidableEq, Repr

-- A text in the query language of the backend.
structure QueryString where
  query           : String
  defaultOperator : DefaultOperator
  deriving DecidableEq, Repr

-- Words without connector all have to match.
def QueryString.ofText (text : String) : QueryString where
  query           := text
  defaultOperator := .and

-- A condition on the documents to search.
inductive Clause
  | term (fields : Fields String)
  | terms (fields : Fields (List String))
  | type (value : String)
  | nested (path : String) (query : QueryString)
  deriving DecidableEq

-- A count of the values of a field, which may be restricted to nested objects and by a filter.
structure Facet where
  nested : Option String
  field  : String
  size   : UInt32
  filter : Option QueryString
  deriving DecidableEq, Repr

namespace Facet

-- The number of values which are asked for.
def defaultSize : UInt32 :=
  20

-- The field which holds the whole values of `leaf`, and not pieces of them.
def wholeField (leaf : String) : String :=
  leaf ++ "_nonngram"

def ofLeaf (leaf : String) (nested : Option String) (filter : Option QueryString) : Facet where
  nested
  field := wholeField leaf
  size  := defaultSize
  filter

end Facet

-- The request for the search backend, into which a query is compiled: a boolean filter, a query
-- string for the free text, and the facets to count.
structure Document where
  must    : List Clause
  should  : List Clause
  mustNot : List Clause
  text    : Option QueryString
  facets  : Option (Fields Facet)
  deriving DecidableEq

namespace Document

def empty : Document where
  must    := []
  should  := []
  mustNot := []
  text    := none
  facets  := none

instance : EmptyCollection Document where
  emptyCollection := empty

def freeText (d : Document) : Option String :=
  d.text.map (·.query)

end Document

end SearchQuery
