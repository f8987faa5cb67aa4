import SearchQuery.Query
import SearchQuery.Options
import SearchQuery.Document.Basic

namespace SearchQuery

def FacetSpec.facet (spec : FacetSpec) : Facet :=
  .ofLeaf spec.leaf spec.path <| spec.filter.map fun f => .ofText (f.render .filter)

def NestedSpec.clause (spec : NestedSpec) : Clause :=
  .nested spec.path <| .ofText (spec.filter.render .filter)

namespace Part

def facetSpecs? : Part → Option (List FacetSpec)
  | facets specs => some specs
  | _            => none

def nestedSpecs : Part → List NestedSpec
  | nested specs => specs
  | _            => []

def fragment? : Part → Option Fragment
  | text f => some f
  | _      => none

end Part

namespace Query

def facetClauses (q : Query) : List (List FacetSpec) :=
  q.parts.filterMap Part.facetSpecs?

def nestedSpecs (q : Query) : List NestedSpec :=
  q.parts.flatMap Part.nestedSpecs

def fragments (q : Query) : List Fragment :=
  q.parts.filterMap Part.fragment?

-- The type comes first, and then the nested clauses as they are written.
def must (q : Query) : List Clause :=
  (q.docType.map Clause.type).toList ++ q.nestedSpecs.map NestedSpec.clause

-- The texts between the clauses, joined as if nothing stood between them.
def text (q : Query) : String :=
  " ".intercalate <| q.fragments.map (Fragment.render .query)

-- Facets are present if there is a clause for them. The last one of a name counts.
def facets (q : Query) : Option (Fields Facet) :=
  if q.facetClauses.isEmpty then
    none
  else
    some <| .ofList <| q.facetClauses.flatten.map fun spec => (spec.name, spec.facet)

def document (q : Query) : Document where
  must    := q.must
  should  := []
  mustNot := []
  text    := if q.text.isEmpty then none else some <| .ofText q.text
  facets  := q.facets

end Query

-- Compiles a query, and lists the notes that were taken on the way.
def compileNoting (options : CompilerOptions) (text : String) :
    Except ParseError Document × List Note :=
  let (result, notes) := Query.parse options.maxDepth text
  (result.map Query.document, notes)

def compile (options : CompilerOptions) (text : String) : Except ParseError Document :=
  (compileNoting options text).1

end SearchQuery
