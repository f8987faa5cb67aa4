import SearchQuery.Toml.Basic

namespace SearchQuery.Toml

-- A table can be defined only once, and how it came to be decides what may still be added to it.
inductive Origin
  | header -- by its own header
  | path   -- by the header of a table below it
  | dotted -- by a dotted key
  deriving DecidableEq, Repr

-- An entry of a table. The elements of an array of tables stand in reverse order.
inductive Node
  | value (v : Toml)
  | table (origin : Origin) (entries : List (String × Node))
  | array (elements : List (List (String × Node)))

abbrev Entries := List (String × Node)

namespace Entries

def set (key : String) (n : Node) : Entries → Entries
  | []      => [(key, n)]
  | e :: es => if e.1 = key then (key, n) :: es else e :: set key n es

-- Adds an entry for a key that has none.
def add? (key : String) (n : Node) (es : Entries) : Option Entries :=
  if (es.lookup key).isSome then none else some (es ++ [(key, n)])

-- Changes the table at a path, and creates the tables on the way with the given origin. The last
-- element of an array of tables stands for the array. Dotted keys cannot reach into a table which
-- has a header. The change is told the origin of its table, or none if that is the start of the
-- path.
def update? (origin : Origin) (change : Option Origin → Entries → Option Entries) :
    (here : Option Origin) → (path : List String) → Entries → Option Entries
  | here, [], es => change here es
  | _, key :: path, es =>
    match es.lookup key with
    | none => do
      return es.set key <| .table origin (← update? origin change (some origin) path [])
    | some (.table o sub) =>
      if origin = .dotted ∧ o = .header then none
      else do return es.set key <| .table o (← update? origin change (some o) path sub)
    | some (.array (last :: before)) => do
      return es.set key <| .array ((← update? origin change (some .header) path last) :: before)
    | some _ => none

-- Adds a pair under a dotted key, of which `path` are the segments before the last one. All tables
-- on the path have to come from dotted keys.
def addPair? (path : List String) (key : String) (v : Toml) (es : Entries) : Option Entries :=
  es.update? .dotted add none path
where
  add (here : Option Origin) (es : Entries) : Option Entries :=
    if here.all (· = .dotted) then es.add? key (.value v) else none

-- Opens the table with a header. It may exist as part of a path only.
def openTable? (path : List String) (key : String) (es : Entries) : Option Entries :=
  es.update? .path (fun _ => open?) none path
where
  open? (es : Entries) : Option Entries :=
    match es.lookup key with
    | none                    => es.add? key (.table .header [])
    | some (.table .path sub) => some <| es.set key (.table .header sub)
    | some _                  => none

-- Adds an element to an array of tables.
def openElement? (path : List String) (key : String) (es : Entries) : Option Entries :=
  es.update? .path (fun _ => open?) none path
where
  open? (es : Entries) : Option Entries :=
    match es.lookup key with
    | none                   => es.add? key (.array [[]])
    | some (.array elements) => some <| es.set key (.array ([] :: elements))
    | some _                 => none

end Entries

mutual

def Node.toml : Node → Toml
  | .value v        => v
  | .table _ es     => .table (entriesToml es)
  | .array elements => .array (elementsToml elements).reverse

def entriesToml : List (String × Node) → List (String × Toml)
  | []             => []
  | (key, n) :: es => (key, n.toml) :: entriesToml es

def elementsToml : List (List (String × Node)) → List Toml
  | []      => []
  | e :: es => .table (entriesToml e) :: elementsToml es

end

-- The table which an inline table denotes.
def inlineTable? (pairs : List (List String × String × Toml)) : Option Toml := do
  return .table <| entriesToml <|
    ← pairs.foldlM (fun es (path, key, v) => Entries.addPair? path key v es) []

inductive Statement
  | pair (path : List String) (key : String) (v : Toml)
  | table (path : List String) (key : String)
  | element (path : List String) (key : String)

-- A document as far as it is read, and the path of the table to which pairs are added.
structure Tree where
  entries : Entries
  current : List String

namespace Tree

def empty : Tree where
  entries := []
  current := []

def add? (t : Tree) : Statement → Option Tree
  | .pair path key v => do
    let add _ := Entries.addPair? path key v
    return { t with entries := ← t.entries.update? .path add none t.current }
  | .table path key => do
    return { entries := ← t.entries.openTable? path key, current := path ++ [key] }
  | .element path key => do
    return { entries := ← t.entries.openElement? path key, current := path ++ [key] }

end Tree

-- The table which a list of statements defines.
def ofStatements? (ss : List Statement) : Option Toml := do
  return .table <| entriesToml (← ss.foldlM Tree.add? .empty).entries

end SearchQuery.Toml
