import SearchQuery.CommandLine.Path

namespace SearchQuery

inductive FileError
  | notFound
  | alreadyExists
  | notDirectory
  | isDirectory
  | nameTooLong
  | notText -- what a file holds is no text in UTF-8
  | other (message : String)
  deriving DecidableEq, Repr

def FileError.message : FileError → String
  | notFound      => "No such file or directory (os error 2)"
  | alreadyExists => "File exists (os error 17)"
  | notDirectory  => "Not a directory (os error 20)"
  | isDirectory   => "Is a directory (os error 21)"
  | nameTooLong   => "File name too long (os error 36)"
  | notText       => "stream did not contain valid UTF-8"
  | other message => message

-- A place in a tree is given by the names on the way from the root.
abbrev Place := List String

inductive FileTree.Entry
  | directory
  | file (content : ByteArray)

-- There are only files and directories. Links and permissions are left out, and what is written to a
-- file is written as a whole. The root is a directory which always exists. Relative paths start from the
-- working directory.
structure FileTree where
  entries : List (Place × FileTree.Entry)
  working : Place

namespace FileTree

def at? (t : FileTree) (p : Place) : Option Entry :=
  if p = [] then some .directory else t.entries.lookup p

def put (t : FileTree) (p : Place) (e : Entry) : FileTree :=
  { t with entries := (p, e) :: t.entries.filter (·.1 ≠ p) }

def erase (t : FileTree) (p : Place) : FileTree :=
  { t with entries := t.entries.filter (·.1 ≠ p) }

-- How many bytes a name may have, and how many a path has to stay below.
def nameLimit : Nat :=
  255

def pathLimit : Nat :=
  4096

-- Goes from a directory to what a name in it stands for, which need not exist.
def step (t : FileTree) (p : Place) (name : String) : Except FileError Place :=
  match t.at? p with
  | none            => .error .notFound
  | some (.file _)  => .error .notDirectory
  | some .directory =>
    if name = "." then .ok p
    else if name = ".." then .ok p.dropLast
    else if name.utf8ByteSize ≤ nameLimit then .ok (p ++ [name])
    else .error .nameTooLong

-- Goes along names from where a path starts.
def walk (t : FileTree) (path : Path) (names : List String) : Except FileError Place :=
  if path = ∅ then .error .notFound
  else if path.text.utf8ByteSize < pathLimit then
    names.foldlM t.step (if path.isAbsolute then [] else t.working)
  else .error .nameTooLong

def locate (t : FileTree) (path : Path) : Except FileError Place :=
  t.walk path path.names

-- The place of a file, which cannot be one that the path takes for a directory.
def locateFile (t : FileTree) (path : Path) : Except FileError Place := do
  if path.endsWithSlash then
    let _ ← t.step (← t.walk path path.names.dropLast) "."
    .error .isDirectory
  else
    t.locate path

-- What a path leads to.
def find (t : FileTree) (path : Path) : Except FileError Entry := do
  match t.at? (← t.locate path) with
  | none           => .error .notFound
  | some .directory => .ok .directory
  | some (.file c) => if path.endsWithSlash then .error .notDirectory else .ok (.file c)

def contains (t : FileTree) (path : Path) : Bool :=
  t.find path |>.isOk

def isDirectory (t : FileTree) (path : Path) : Bool :=
  match t.find path with
  | .ok .directory => true
  | _              => false

def read (t : FileTree) (path : Path) : Except FileError ByteArray := do
  match ← t.find path with
  | .directory => .error .isDirectory
  | .file c    => .ok c

-- Actions on a tree. An action which fails may have changed the tree before.
abbrev Action := EStateM FileError FileTree

namespace Action

-- Sets what a file holds, and creates the file if it does not exist.
def write (path : Path) (content : ByteArray) : Action Unit := do
  let p ← ofExcept ((← get).locateFile path)
  match (← get).at? p with
  | some .directory => throw .isDirectory
  | _               => modify (·.put p (.file content))

def createDirectory (path : Path) : Action Unit := do
  let p ← ofExcept ((← get).locate path)
  if ((← get).at? p).isSome then
    throw .alreadyExists
  else
    modify (·.put p .directory)

-- Creates a directory, or takes the one that exists already.
def ensureDirectory (path : Path) : Action Unit := do
  try
    createDirectory path
  catch e =>
    unless (← get).isDirectory path do
      throw e

-- Creates a directory, and the ones above it as far as they are missing.
def createDirectories (path : Path) : Action Unit :=
  go path.parts.reverse
where
  go : List String → Action Unit
    | [] => do
      unless path.head = "" do
        ensureDirectory { path with parts := [] }
    | part :: above =>
      if Path.isBlank part then
        go above
      else
        let path := { path with parts := (part :: above).reverse }
        try
          ensureDirectory path
        catch
          | .notFound => do
            go above
            ensureDirectory path
          | e => throw e

end Action

end FileTree

end SearchQuery
