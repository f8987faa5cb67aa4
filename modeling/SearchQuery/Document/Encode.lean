import SearchQuery.Document.Basic
import SearchQuery.Json.Basic

namespace SearchQuery

open Json

def DefaultOperator.text : DefaultOperator → String
  | and => "and"
  | or  => "or"

def QueryString.encode (q : QueryString) : Json :=
  record [
    ("query_string", record [
      ("query", .text q.query),
      ("default_operator", .text q.defaultOperator.text)
    ])
  ]

def Fields.encode (value : α → Json) (fs : Fields α) : Json :=
  record <| fs.entries.map fun (name, v) => (name, value v)

def Clause.encode : Clause → Json
  | term fields       => record [("term", fields.encode Json.text)]
  | terms fields      => record [("terms", fields.encode fun vs => .array (vs.map Json.text))]
  | type value        => record [("type", record [("value", .text value)])]
  | nested path query => record [("nested", record [("path", .text path), ("query", query.encode)])]

-- The terms which a facet counts.
def Facet.encodeTerms (f : Facet) : Json :=
  record [("field", .text f.field), ("size", .nat f.size.toNat)]

-- A member which is left out if it has no value.
def optionalMember (name : String) (value : α → Json) (v : Option α) : List (String × Json) :=
  (v.map fun v => (name, value v)).toList

def Facet.encode (f : Facet) : Json :=
  record <|
    optionalMember "nested" Json.text f.nested ++
    [("terms", f.encodeTerms)] ++
    optionalMember "facet_filter" (fun q => record [("query", q.encode)]) f.filter

namespace Document

def encodeFilter (d : Document) : Json :=
  record [
    ("bool", record [
      ("must", .array (d.must.map Clause.encode)),
      ("should", .array (d.should.map Clause.encode)),
      ("must_not", .array (d.mustNot.map Clause.encode))
    ])
  ]

def encode (d : Document) : Json :=
  record <|
    [
      ("query", record [
        ("filtered", record <|
          [("filter", d.encodeFilter)] ++ optionalMember "query" QueryString.encode d.text)
      ])
    ] ++
    optionalMember "facets" (Fields.encode Facet.encode) d.facets

end Document

end SearchQuery
