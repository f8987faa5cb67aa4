import SearchQuery.Json.Literal

namespace SearchQuery

-- Numbers and strings are kept as they are written, so a value can also hold a string literal which
-- denotes no text.
inductive Json
  | null
  | bool (value : Bool)
  | number (literal : String)
  | string (literal : String) -- without its quotes
  | array (items : List Json)
  | object (members : List (String × Json))

namespace Json

def text (s : String) : Json :=
  .string (Literal.ofText s)

def nat (n : Nat) : Json :=
  .number (toString n)

def record (members : List (String × Json)) : Json :=
  .object <| members.map fun (name, value) => (Literal.ofText name, value)

end Json

end SearchQuery
