import SearchQuery.CommandLine.Library
import SearchQuery.Config
import SearchQuery.Document.Encode
import SearchQuery.Json.Printer

namespace SearchQuery

inductive ConfigError
  | noPath
  | unreadable (e : FileError)
  | unparsable (detail : String)
  | depthOutOfRange (depth : Nat)
  | alreadyExists (path : String)
  | directoryNotCreated (e : FileError)
  | notWritten (e : FileError)
  deriving DecidableEq, Repr

def ConfigError.message : ConfigError → String
  | noPath                => "Could not determine config directory"
  | unreadable e          => "Failed to read config: " ++ e.message
  | unparsable detail     => "Failed to parse config: " ++ detail
  | depthOutOfRange depth =>
    "compiler.max_depth must be between 1 and " ++ toString Config.depthLimit ++
      ", got " ++ toString depth
  | alreadyExists path    => path ++ " already exists (use --force to overwrite)"
  | directoryNotCreated e => "Failed to create config directory: " ++ e.message
  | notWritten e          => "Failed to write config: " ++ e.message

-- Why a run fails.
inductive Failure
  | query (e : ParseError)
  | config (e : ConfigError)
  | input (e : FileError)
  deriving DecidableEq, Repr

namespace Failure

def message : Failure → String
  | query e  => e.message
  | config e => "configuration error: " ++ e.message
  | input e  => "I/O error: " ++ e.message

def code : Failure → UInt8
  | query _  => 1
  | config _ => 5
  | input _  => 3

end Failure

structure Report where
  code   : UInt8
  stdout : String
  stderr : String
  deriving DecidableEq, Repr

-- What a command has put out so far.
structure Output where
  text : String
  log  : List Log.Record

def Output.empty : Output where
  text := ""
  log  := []

abbrev CommandM (m : Type → Type) := ExceptT Failure (StateT Output m)

namespace Style

def green (s : String) : String :=
  "\x1b[32m" ++ s ++ "\x1b[39m"

def red (s : String) : String :=
  "\x1b[31m" ++ s ++ "\x1b[39m"

def bold (s : String) : String :=
  "\x1b[1m" ++ s ++ "\x1b[0m"

end Style

namespace Run

variable {m : Type → Type} [Monad m] [Host m]

def write (text : String) : CommandM m Unit :=
  modify fun out => { out with text := out.text ++ text }

def print (line : String) : CommandM m Unit :=
  write (line ++ "\n")

def log (rs : List Log.Record) : CommandM m Unit :=
  modify fun out => { out with log := out.log ++ rs }

def debug (target text : String) : CommandM m Unit :=
  log [{ level := .debug, target, text }]

def host (action : m α) : CommandM m α :=
  ExceptT.lift (StateT.lift action)

def attempt (failure : FileError → Failure) (action : m (Except FileError α)) : CommandM m α := do
  match ← host action with
  | .ok a    => return a
  | .error e => throw (failure e)

def decode (failure : FileError → Failure) (bytes : ByteArray) : CommandM m String :=
  match String.fromUTF8? bytes with
  | some s => return s
  | none   => throw (failure .notText)

def configPath (env : Environment) : CommandM m String :=
  match env.configPath? with
  | some path => return path
  | none      => throw (.config .noPath)

-- The configuration in effect. Without a file it is the default one.
def loadConfig [Library] (env : Environment) : CommandM m Config := do
  let path ← configPath env
  if ← host (Host.contains (Path.ofString path)) then
    let failure e := Failure.config (.unreadable e)
    let text ← decode failure (← attempt failure (Host.read (Path.ofString path)))
    match Config.parse? text with
    | none => throw (.config (.unparsable (Library.tomlError text)))
    | some c =>
      debug "plq::commands::config" ("loaded config from " ++ path)
      if Config.acceptsDepth c.compiler.maxDepth then
        return c
      else
        throw (.config (.depthOutOfRange c.compiler.maxDepth))
  else
    debug "plq::commands::config" ("no config file at " ++ path ++ ", using defaults")
    return .default

-- How a run prints, by its flags before the environment before the configuration.
structure Context where
  pretty : Bool
  color  : Bool
  quiet  : Bool
  deriving DecidableEq, Repr

def context (flags : Flags) (env : Environment) (c : Config) : Context where
  pretty := !flags.compact && c.pretty.getD true
  color  := !flags.noColor && env.noColor.all (· = "") && c.color.getD true
  quiet  := flags.quiet

-- The text of the query. It is read from the input if it is not given, or given as `-`.
def queryText : Option String → CommandM m String
  | some text => if text = "-" then input else return text
  | none      => input
where
  input : CommandM m String := do
    decode .input (← host Host.input)

def compileQuery (options : CompilerOptions) (text : String) : CommandM m Document := do
  let result := compileNoting options text
  log <| Log.ofCompilation text result
  match result.1 with
  | .ok d    => return d
  | .error e => throw (.query e)

def runCompile (ctx : Context) (c : Config) (query : Option String) (maxDepth : Option Nat) :
    CommandM m Unit := do
  let text ← queryText query
  debug "plq::commands::compile" ("read " ++ toString text.utf8ByteSize ++ " byte(s) of query text")
  let options : CompilerOptions := { maxDepth := maxDepth.getD c.compiler.maxDepth }
  debug "plq::commands::compile" ("compiling with max_depth " ++ toString options.maxDepth)
  let d ← compileQuery options text
  print <| if ctx.pretty then d.encode.pretty else d.encode.compact

def runCheck (ctx : Context) (c : Config) (query : Option String) : CommandM m Unit := do
  let _ ← compileQuery c.compiler (← queryText query)
  unless ctx.quiet do
    print <| if ctx.color then Style.green "ok" else "ok"

-- The configuration is loaded anew to be shown.
def runShow [Library] (ctx : Context) (env : Environment) : CommandM m Unit := do
  let c ← loadConfig env
  let path ← configPath env
  unless ctx.quiet do
    let title := "Configuration"
    print <| (if ctx.color then Style.bold (Style.green title) else title) ++ "\n"
    print <| "File: " ++ path
    let found ← host (Host.contains (Path.ofString path))
    print <| "Exists: " ++ toString found ++ "\n"
    print <| c.text.trimAsciiEnd.toString
    unless found do
      print "\n(No config file exists. Run 'plq config init' to create one.)"

def runInit (quiet : Bool) (env : Environment) (force : Bool) : CommandM m Unit := do
  let path ← configPath env
  let place := Path.ofString path
  if (← host (Host.contains place)) && !force then
    throw (.config (.alreadyExists path))
  else
    attempt (fun e => .config (.directoryNotCreated e)) (Host.createDirectories place.above)
    attempt (fun e => .config (.notWritten e)) (Host.write place Config.template.toUTF8)
    unless quiet do
      print <| "Created default config at: " ++ path

-- Completions, and commands that repair the configuration, work without loading it.
def execute [Library] (flags : Flags) (env : Environment) : Command → CommandM m Unit
  | .completions shell => write (Library.completions shell)
  | .configPath        => do print (← configPath env)
  | .initConfig force  => runInit flags.quiet env force
  | .showConfig => do
    let c ← loadConfig env
    runShow (context flags env c) env
  | .check query => do
    let c ← loadConfig env
    runCheck (context flags env c) c query
  | .compile query maxDepth => do
    let c ← loadConfig env
    runCompile (context flags env c) c query maxDepth

-- Warnings are shown unless the environment has another filter, and flags win over it.
def logSettings (flags : Flags) : Log.Settings where
  fallback := .warn
  level    := if flags.verbose then some .debug else if flags.quiet then some .error else none

-- A failure is reported in colour unless the environment or a flag forbids this. What the
-- configuration says does not count here.
def errorLine (flags : Flags) (env : Environment) (e : Failure) : String :=
  let colored := !flags.noColor && env.noColor.isNone
  (if colored then Style.bold (Style.red "Error:") else "Error:") ++ " " ++ e.message ++ "\n"

def report [Library] (flags : Flags) (env : Environment)
    (result : Except Failure Unit × Output) : Report :=
  let log := Library.log (logSettings flags) env result.2.log
  match result.1 with
  | .ok _    => { code := 0, stdout := result.2.text, stderr := log }
  | .error e => { code := e.code, stdout := result.2.text, stderr := log ++ errorLine flags env e }

end Run

-- Runs the command line.
def run {m : Type → Type} [Monad m] [Host m] [Library] (env : Environment) (args : List String) :
    m Report := do
  match Invocation.ofArguments args with
  | .help            => return { code := 0, stdout := Library.help args, stderr := "" }
  | .version program => return { code := 0, stdout := program ++ " 0.1.0\n", stderr := "" }
  | .invalid         => return { code := 2, stdout := "", stderr := Library.usageError args }
  | .run flags command =>
    return Run.report flags env (← (Run.execute flags env command).run.run .empty)

end SearchQuery
