import SearchQuery.Json.Token

namespace SearchQuery.Json

-- A list or an object which is not closed yet, with what it holds so far, the latest first.
inductive Frame
  | array (items : List Json)
  | object (members : List (String × Json)) (name : String) -- the value of `name` is next

-- How far a text is read, and what may follow.
inductive Reading
  | value (stack : List Frame)
  | firstItem (stack : List Frame)
  | firstName (stack : List Frame)
  | name (stack : List Frame) (members : List (String × Json))
  | colon (stack : List Frame) (members : List (String × Json)) (name : String)
  | after (stack : List Frame) (value : Json)

namespace Reading

-- Starts the value which is next.
def start? (stack : List Frame) : Token → Option Reading
  | .scalar v       => some <| after stack v
  | .string literal => some <| after stack (.string literal)
  | .openBracket    => some <| firstItem stack
  | .openBrace      => some <| firstName stack
  | _               => none

def next? : Reading → Token → Option Reading
  | value st, t                              => start? st t
  | firstItem st, .closeBracket              => some <| after st (.array [])
  | firstItem st, t                          => start? (.array [] :: st) t
  | firstName st, .closeBrace                => some <| after st (.object [])
  | firstName st, .string n                  => some <| colon st [] n
  | name st ms, .string n                    => some <| colon st ms n
  | colon st ms n, .colon                    => some <| value (.object ms n :: st)
  | after (.array is :: st) v, .comma        => some <| value (.array (v :: is) :: st)
  | after (.array is :: st) v, .closeBracket => some <| after st (.array (v :: is).reverse)
  | after (.object ms n :: st) v, .comma     => some <| name st ((n, v) :: ms)
  | after (.object ms n :: st) v, .closeBrace =>
    some <| after st (.object ((n, v) :: ms).reverse)
  | _, _                                     => none

end Reading

-- Reads a text which holds a single value.
def read? (s : String) : Option Json := do
  match ← (← Token.list? s.toList).foldlM Reading.next? (.value []) with
  | .after [] v => some v
  | _           => none

end SearchQuery.Json
