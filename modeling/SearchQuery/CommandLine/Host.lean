import SearchQuery.CommandLine.FileTree

namespace SearchQuery

structure Environment where
  configPath  : Option String -- the path of the configuration file
  configHome  : Option String -- the directory for configuration files
  home        : Option String -- the home directory, if one is set
  accountHome : Option String -- the home directory which the system knows for the user
  noColor     : Option String
  logFilter   : Option String
  -- What else a log may be coloured by.
  logStyle    : Option String := none -- whether it is to have colours
  colorForced : Option String := none -- whether programs show colours even without a terminal
  colorWanted : Option String := none -- whether they show them on a terminal
  terminal    : Option String := none -- the kind of terminal
  onTerminal  : Bool := false         -- whether the standard error is one
  build       : Option String := none -- whether the run is a part of a build
  deriving DecidableEq, Repr

namespace Environment

-- The directory for configuration files is below the home directory unless another one is set. An
-- empty home directory does not count.
def configPath? (env : Environment) : Option String :=
  match env.configPath, env.configHome with
  | some path, _    => some path
  | none, some base => some (below base)
  | none, none      => do
    let home ← (env.home.filter (· ≠ "")) <|> env.accountHome
    return below (Path.join home ".config")
where
  below (base : String) : String :=
    Path.join (Path.join base "plq") "config.toml"

end Environment

-- What a run needs from the system that it runs on.
class Host (m : Type → Type) where
  input             : m ByteArray
  contains          : Path → m Bool
  read              : Path → m (Except FileError ByteArray)
  createDirectories : Path → m (Except FileError Unit)
  write             : Path → ByteArray → m (Except FileError Unit)

-- A system which consists of a file tree and of what stands on the standard input.
structure Machine where
  files : FileTree
  input : ByteArray

namespace Machine

def act (action : FileTree.Action α) : StateM Machine (Except FileError α) :=
  modifyGet fun m =>
    match action m.files with
    | .ok a t    => (.ok a, { m with files := t })
    | .error e t => (.error e, { m with files := t })

instance : Host (StateM Machine) where
  input                  := return (← get).input
  contains path          := return (← get).files.contains path
  read path              := return (← get).files.read path
  createDirectories path := act (FileTree.Action.createDirectories path)
  write path content     := act (FileTree.Action.write path content)

end Machine

end SearchQuery
