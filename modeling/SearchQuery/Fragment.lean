import SearchQuery.Token
import SearchQuery.Escaping

namespace SearchQuery

-- What stands between two items.
inductive Junction
  | adjacent -- white space only
  | touching -- nothing at all
  | connector (k : Connector)
  deriving DecidableEq, Repr

mutual

inductive Item
  | compare (key : String) (op : Operator) (value : Operand)
  | free (atom : Atom)
  | group (inner : Fragment)

-- The right-hand side of a comparison.
inductive Operand
  | atom (atom : Atom)
  | group (inner : Fragment)

-- At least one item, from left to right with the junctions between them.
inductive Fragment
  | single (item : Item)
  | join (first : Item) (junction : Junction) (rest : Fragment)

end

deriving instance DecidableEq, Repr for Item, Operand, Fragment

-- Where the text of a fragment goes.
inductive Target
  | query  -- the query string of the document
  | filter -- the filter of a facet or of a nested clause
  deriving DecidableEq, Repr

namespace Target

-- The text of a bare word which is compared with a key.
def value : Target → String → String
  | query  => Escaping.value.apply
  | filter => Escaping.facetValue.apply

-- The text of a bare free word. The backend takes the free words of a filter as they are written.
def freeWord : Target → String → String
  | query  => Escaping.freeText.apply
  | filter => id

-- A phrase in a query is quoted anew around its escaped text, while one in a filter stays as it is
-- written.
def phrase : Target → (literal text : String) → String
  | query,  _,       text => "\"" ++ Escaping.value.apply text ++ "\""
  | filter, literal, _    => literal

end Target

def Junction.text : Junction → String
  | adjacent    => " "
  | touching    => ""
  | connector k => " " ++ k.text ++ " "

mutual

def Item.render (t : Target) : Item → String
  | .compare key op value         => key ++ op.text ++ value.render t
  | .free (.word text)            => t.freeWord text
  | .free (.phrase literal text)  => t.phrase literal text
  | .group inner                  => "(" ++ inner.render t ++ ")"

def Operand.render (t : Target) : Operand → String
  | .atom (.word text)            => t.value text
  | .atom (.phrase literal text)  => t.phrase literal text
  | .group inner                  => "(" ++ inner.render t ++ ")"

def Fragment.render (t : Target) : Fragment → String
  | .single item      => item.render t
  | .join item j rest => item.render t ++ j.text ++ rest.render t

end

end SearchQuery
