import SearchQuery.Options
import SearchQuery.Toml.Reader

namespace SearchQuery

-- The settings which a TOML file may give.
structure Config where
  compiler : CompilerOptions
  pretty   : Option Bool -- whether documents are printed over several lines
  color    : Option Bool -- whether output is coloured
  deriving DecidableEq, Repr

namespace Config

def default : Config where
  compiler := .default
  pretty   := none
  color    := none

-- The deepest nesting that can be asked for, in a file or as an argument.
def depthLimit : Nat :=
  256

def acceptsDepth (n : Nat) : Bool :=
  1 ≤ n && n ≤ depthLimit

-- The contents of a fresh configuration file. They leave every setting at its default.
def template : String :=
  "# plq - query compiler configuration\n" ++
  "\n" ++
  "# Config schema version (do not modify)\n" ++
  "version = 1\n" ++
  "\n" ++
  "[compiler]\n" ++
  "# max_depth = 32           # Deepest allowed nesting of (...) and [...]\n" ++
  "\n" ++
  "[output]\n" ++
  "# pretty = true            # Pretty-print compiled documents\n" ++
  "# color = true             # Enable colors (respects NO_COLOR env)\n"

def nat? (bound : Nat) : Toml → Option Nat
  | .integer n => if 0 ≤ n ∧ n < bound then some n.toNat else none
  | _          => none

def bool? : Toml → Option Bool
  | .boolean b => some b
  | _          => none

-- The version has no meaning yet, but it has to be one.
def checkVersion? : Option Toml → Option Unit
  | none   => some ()
  | some v => do let _ ← nat? UInt32.size v

-- A section may also be a list of its settings in order, and a date counts as an empty section.
def compiler? : Option Toml → Option CompilerOptions
  | none | some (.array []) | some (.dateTime _) => some .default
  | some (.array (depth :: _)) => CompilerOptions.mk <$> nat? UInt64.size depth
  | some (.table es) =>
    match es.lookup "max_depth" with
    | none       => some .default
    | some depth => CompilerOptions.mk <$> nat? UInt64.size depth
  | some _ => none

-- The settings `pretty` and `color`.
def output? : Option Toml → Option (Option Bool × Option Bool)
  | none | some (.dateTime _) => some (none, none)
  | some (.array (pretty :: color :: _)) => do return (← bool? pretty, ← bool? color)
  | some (.table es) => do
    return (← (es.lookup "pretty").mapM bool?, ← (es.lookup "color").mapM bool?)
  | some _ => none

-- The configuration which a text gives. Settings that are not known are ignored.
def parse? (text : String) : Option Config := do
  let t ← Toml.read? text
  checkVersion? (t.entry? "version")
  let compiler ← compiler? (t.entry? "compiler")
  let (pretty, color) ← output? (t.entry? "output")
  return { compiler, pretty, color }

def setting (name : String) (value : Option Bool) : String :=
  match value with
  | none   => ""
  | some b => name ++ " = " ++ (if b then "true" else "false") ++ "\n"

-- The settings in effect, as lines of a configuration file.
def text (c : Config) : String :=
  "version = 1\n\n[compiler]\nmax_depth = " ++ toString c.compiler.maxDepth ++ "\n\n[output]\n" ++
    setting "pretty" c.pretty ++ setting "color" c.color

end Config

end SearchQuery
