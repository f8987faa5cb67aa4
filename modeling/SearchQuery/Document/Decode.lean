import SearchQuery.Document.Basic
import SearchQuery.Json.Access

namespace SearchQuery

open Json

-- A bare case is written as its name, or as an object which gives null for it.
def DefaultOperator.decode? (j : Json) : Option DefaultOperator :=
  match j.text?, j.case? with
  | some name, _       => ofName? name
  | _, some (name, .null) => ofName? name
  | _, _               => none
where
  ofName? : String → Option DefaultOperator
    | "and" => some and
    | "or"  => some or
    | _     => none

def QueryString.decode? (j : Json) : Option QueryString := do
  let [inner] ← j.record? ["query_string"] | none
  let [query, defaultOperator] ← (← inner).record? ["query", "default_operator"] | none
  return {
    query           := ← required? Json.text? query
    defaultOperator := ← required? DefaultOperator.decode? defaultOperator
  }

namespace Clause

def decodeType? (j : Json) : Option Clause := do
  let [value] ← j.record? ["value"] | none
  return .type (← required? Json.text? value)

def decodeNested? (j : Json) : Option Clause := do
  let [path, query] ← j.record? ["path", "query"] | none
  return .nested (← required? Json.text? path) (← required? QueryString.decode? query)

def decode? (j : Json) : Option Clause := do
  match ← j.case? with
  | ("term", j)   => return .term (← j.fields? Json.text?)
  | ("terms", j)  => return .terms (← j.fields? (list? Json.text?))
  | ("type", j)   => decodeType? j
  | ("nested", j) => decodeNested? j
  | _             => none

end Clause

namespace Facet

def decodeFilter? (j : Json) : Option QueryString := do
  let [query] ← j.record? ["query"] | none
  required? QueryString.decode? query

def decodeTerms? (j : Json) : Option (String × UInt32) := do
  let [field, size] ← j.record? ["field", "size"] | none
  return (← required? Json.text? field, .ofNat (← required? (nat? UInt32.size) size))

def decode? (j : Json) : Option Facet := do
  let [nested, terms, filter] ← j.record? ["nested", "terms", "facet_filter"] | none
  let nested ← optional? Json.text? nested
  let (field, size) ← required? decodeTerms? terms
  let filter ← optional? decodeFilter? filter
  return { nested, field, size, filter }

end Facet

namespace Document

-- The lists of clauses which have to match, should match, and must not match.
def decodeLists? (j : Json) : Option (List Clause × List Clause × List Clause) := do
  let [must, should, mustNot] ← j.record? ["must", "should", "must_not"] | none
  return (← clauses? must, ← clauses? should, ← clauses? mustNot)
where
  clauses? : Option Json → Option (List Clause) :=
    orElse? [] (list? Clause.decode?)

def decode? (j : Json) : Option Document := do
  let [query, facets] ← j.record? ["query", "facets"] | none
  let [filtered] ← (← query).record? ["filtered"] | none
  let [filter, text] ← (← filtered).record? ["filter", "query"] | none
  let [lists] ← (← filter).record? ["bool"] | none
  let (must, should, mustNot) ← required? decodeLists? lists
  return {
    must, should, mustNot
    text   := ← optional? QueryString.decode? text
    facets := ← optional? (fields? Facet.decode?) facets
  }

end Document

end SearchQuery
