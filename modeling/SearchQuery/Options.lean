import SearchQuery.Json.Access

namespace SearchQuery

structure CompilerOptions where
  -- How deep groups and brackets may be nested.
  maxDepth : Nat
  deriving DecidableEq, Repr

namespace CompilerOptions

def default : CompilerOptions where
  maxDepth := 32

def encode (o : CompilerOptions) : Json :=
  .record [("max_depth", .nat o.maxDepth)]

-- A setting which is left out has its default.
def decode? (j : Json) : Option CompilerOptions := do
  let [maxDepth] ← j.record? ["max_depth"] | none
  return { maxDepth := ← Json.orElse? default.maxDepth (Json.nat? UInt64.size) maxDepth }

end CompilerOptions

end SearchQuery
