namespace SearchQuery

-- A path is cut at its slashes. Nothing stands in front of the first slash of an absolute path.
structure Path where
  head  : String      -- what stands in front of the first slash
  parts : List String -- what stands behind each slash
  deriving DecidableEq, Repr

namespace Path

def empty : Path where
  head  := ""
  parts := []

instance : EmptyCollection Path where
  emptyCollection := empty

def cut : List Char → List Char × List (List Char)
  | []      => ([], [])
  | c :: cs =>
    let (head, parts) := cut cs
    if c = '/' then ([], head :: parts) else (c :: head, parts)

def ofString (s : String) : Path where
  head  := String.ofList (cut s.toList).1
  parts := (cut s.toList).2.map String.ofList

def text (p : Path) : String :=
  p.head ++ String.join (p.parts.map ("/" ++ ·))

def isAbsolute (p : Path) : Bool :=
  p.head = "" && !p.parts.isEmpty

-- A path which ends with a slash can lead to nothing but a directory.
def endsWithSlash (p : Path) : Bool :=
  p.parts.getLast? = some ""

-- The names which lead from the start of the path to its end. A single dot leads nowhere, but only
-- from a directory.
def names (p : Path) : List String :=
  (p.head :: p.parts).filter (· ≠ "")

-- Parts which name no place of their own.
def isBlank (part : String) : Bool :=
  part = "" || part = "."

def dropBlankEnd (parts : List String) : List String :=
  (parts.reverse.dropWhile isBlank).reverse

-- The path of the directory in which the last place of a path is named. There is none above a root,
-- and it is not written for a single name.
def above (p : Path) : Path :=
  let parts := dropBlankEnd p.parts
  if parts.isEmpty then
    ∅
  else
    let parts := dropBlankEnd parts.dropLast
    if p.head = "" && parts.isEmpty then { p with parts := [""] } else { p with parts }

-- Appends a relative path.
def join (s t : String) : String :=
  if s.isEmpty || s.toList.getLast? = some '/' then s ++ t else s ++ "/" ++ t

end Path

end SearchQuery
