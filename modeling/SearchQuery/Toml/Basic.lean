namespace SearchQuery

-- Floats and dates are kept as they are written.
inductive Toml
  | string (text : String)
  | integer (value : Int)
  | float (literal : String)
  | boolean (value : Bool)
  | dateTime (literal : String)
  | array (items : List Toml)
  | table (entries : List (String × Toml))

namespace Toml

def entry? (name : String) : Toml → Option Toml
  | table es => es.lookup name
  | _        => none

end Toml

end SearchQuery
