import SearchQuery.CommandLine.Arguments
import SearchQuery.CommandLine.Host
import SearchQuery.CommandLine.Log

namespace SearchQuery

-- What a run asks of the library that writes its log.
structure Log.Settings where
  fallback : Log.Level        -- the level that is shown if the environment has no filter
  level    : Option Log.Level -- the level that is shown whatever the environment says
  deriving DecidableEq, Repr

-- What a run leaves to libraries: its log, and texts of which it does not choose the wording.
class Library where
  colorsLog   : Environment → Bool
  log         : Log.Settings → Environment → List Log.Record → String
  help        : (args : List String) → String
  usageError  : (args : List String) → String
  completions : Shell → String
  tomlError   : (text : String) → String

namespace Log

-- The most detailed level that is shown, or none if nothing is.
abbrev Filter := Option Level

def Filter.ofName? (name : List Char) : Option Filter :=
  match String.ofList (name.map Char.toLower) with
  | "off"   => some none
  | "error" => some (some .error)
  | "warn"  => some (some .warn)
  | "info"  => some (some .info)
  | "debug" => some (some .debug)
  | "trace" => some (some .trace)
  | _       => none

def Filter.shows (f : Filter) (r : Record) : Bool :=
  f.any fun l => r.level.rank ≤ l.rank

-- A filter for the records whose target starts with a name.
structure Directive where
  target : String
  filter : Filter
  deriving DecidableEq, Repr

namespace Directive

def all (f : Filter) : Directive where
  target := ""
  filter := f

def everything (target : List Char) : Directive where
  target := String.ofList target
  filter := some .trace

-- A level alone is meant for all targets, and a target alone shows everything of it. An error is
-- what cannot be read.
def read (cs : List Char) : Except (List Char) Directive :=
  match cs.splitOn '=' with
  | [word] => .ok <| (Filter.ofName? word).elim (everything word) all
  | [target, value] =>
    match Text.trim value with
    | []    => .ok <| everything target
    | value => (Filter.ofName? value).elim (.error value) fun f => .ok ⟨String.ofList target, f⟩
  | _ => .error cs

-- The directives of a filter. A pattern may follow them.
def readAll (filter : String) : List (Except (List Char) Directive) :=
  let words := (filter.toList.takeWhile (· ≠ '/')).splitOn ','
  ((words.map Text.trim).filter (· ≠ [])).map read

def error? : Except (List Char) Directive → Option (List Char)
  | .ok _     => none
  | .error cs => some cs

def warning (cs : List Char) : String :=
  "warning: invalid logging spec '" ++ String.ofList cs ++ "', ignoring it\n"

def covers (d : Directive) (r : Record) : Bool :=
  d.target.toList.isPrefixOf r.target.toList

end Directive

-- The longest directive for a target counts, and of equally long ones the last one. Without any
-- directive there are only errors to be seen.
def shows (ds : List Directive) (r : Record) : Bool :=
  if ds.isEmpty then
    Filter.shows (some .error) r
  else
    (ds.foldl longer none).any (·.filter.shows r)
where
  longer (best : Option Directive) (d : Directive) : Option Directive :=
    if d.covers r && best.all (·.target.length ≤ d.target.length) then some d else best

def Settings.directives (s : Settings) (filter : Option String) :
    List (Except (List Char) Directive) :=
  filter.elim [.ok (.all (some s.fallback))] Directive.readAll ++
    (s.level.map fun l => .ok (.all (some l))).toList

def Level.style : Level → String
  | error => "\x1b[1m\x1b[31m"
  | warn  => "\x1b[33m"
  | info  => "\x1b[32m"
  | debug => "\x1b[34m"
  | trace => "\x1b[36m"

namespace Record

def painted (colored : Bool) (style s : String) : String :=
  if colored then style ++ s ++ "\x1b[0m" else s

@[simp]
theorem painted_false (style s : String) : painted false style s = s :=
  rfl

-- Further lines of a text are indented.
def line (colored : Bool) (r : Record) : String :=
  painted colored "\x1b[90m" "[" ++ painted colored r.level.style r.level.label ++ " " ++ r.target ++
    painted colored "\x1b[90m" "]" ++ " " ++ String.ofList (r.text.toList.flatMap indent) ++ "\n"
where
  indent (c : Char) : List Char :=
    if c = '\n' then ['\n', ' ', ' ', ' ', ' '] else [c]

end Record

end Log

-- The log can be styled by name. Otherwise it is coloured on terminals which show colours, or if this is
-- forced, but never against `noColor`.
def Environment.colorsLog (env : Environment) : Bool :=
  match env.logStyle with
  | some "always" => true
  | some "never"  => false
  | _             =>
    if env.noColor.any (· ≠ "") then false
    else if env.colorForced.any (· ≠ "") then true
    else if env.colorWanted = some "0" then false
    else
      env.onTerminal &&
        (env.terminal.any (· ≠ "dumb") || env.colorWanted.isSome || env.build.isSome)

namespace Library

def usage : String :=
  "Usage: plq [OPTIONS] [COMMAND]\n\n" ++
  "Commands:\n" ++
  "  compile [QUERY]      Compile a query and print the document\n" ++
  "  check [QUERY]        Check that a query compiles\n" ++
  "  config [COMMAND]     View or manage configuration: show, path, init\n" ++
  "  completions <SHELL>  Generate shell completions: bash, zsh, fish, powershell\n" ++
  "  help [COMMAND]       Print this message\n\n" ++
  "Options:\n" ++
  "  -v, --verbose        Show debug logging\n" ++
  "  -q, --quiet          Show errors only\n" ++
  "      --compact        Print JSON on a single line\n" ++
  "      --no-color       Disable colors in output\n" ++
  "      --max-depth <N>  Override the maximum nesting depth (compile)\n" ++
  "      --force          Overwrite an existing file (config init)\n" ++
  "  -h, --help           Print help\n" ++
  "  -V, --version        Print version\n"

-- A library which stands in where no other one is linked. Its texts are short, it has no completions,
-- and it does not look at patterns in filters of the log.
instance : Library where
  colorsLog                := Environment.colorsLog
  log settings env records :=
    let directives := settings.directives env.logFilter
    let shown := records.filter <| Log.shows <| directives.filterMap Except.toOption
    String.join ((directives.filterMap Log.Directive.error?).map Log.Directive.warning) ++
      String.join (shown.map <| Log.Record.line env.colorsLog)
  help _                   := usage
  usageError _             := usage
  completions _            := ""
  tomlError _              := "no TOML text, or a setting of the wrong type"

end Library

end SearchQuery
