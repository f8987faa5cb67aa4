import SearchQuery.Config

namespace SearchQuery

-- The flags which every command takes.
structure Flags where
  verbose : Bool
  quiet   : Bool
  compact : Bool
  noColor : Bool
  deriving DecidableEq, Repr

namespace Flags

def none : Flags where
  verbose := false
  quiet   := false
  compact := false
  noColor := false

-- A flag counts wherever it is given, before or after a command.
def or (f g : Flags) : Flags where
  verbose := f.verbose || g.verbose
  quiet   := f.quiet || g.quiet
  compact := f.compact || g.compact
  noColor := f.noColor || g.noColor

end Flags

inductive Shell
  | bash | zsh | fish | powershell
  deriving DecidableEq, Repr

inductive Command
  | compile (query : Option String) (maxDepth : Option Nat)
  | check (query : Option String)
  | showConfig
  | configPath
  | initConfig (force : Bool)
  | completions (shell : Shell)
  deriving DecidableEq, Repr

inductive Invocation
  | help
  | version (program : String)
  | invalid
  | run (flags : Flags) (command : Command)
  deriving DecidableEq, Repr

namespace Arguments

-- The commands, as far as their names have been read.
inductive Level
  | root | compile | check | config | configShow | configPath | configInit | completions
  deriving DecidableEq, Repr

namespace Level

def program : Level → String
  | root        => "plq"
  | compile     => "plq-compile"
  | check       => "plq-check"
  | config      => "plq-config"
  | configShow  => "plq-config-show"
  | configPath  => "plq-config-path"
  | configInit  => "plq-config-init"
  | completions => "plq-completions"

def subcommand? : Level → String → Option Level
  | root, "compile"     => some compile
  | root, "c"           => some compile
  | root, "check"       => some check
  | root, "config"      => some config
  | root, "completions" => some completions
  | config, "show"      => some configShow
  | config, "path"      => some configPath
  | config, "init"      => some configInit
  | _, _                => none

-- Levels with subcommands have one for help.
def hasHelp : Level → Bool
  | root | config => true
  | _             => false

-- Names of subcommands lead to the one whose help is shown. Help itself has no subcommands.
def helpFor : Level → List String → Invocation
  | _, []          => .help
  | l, name :: names =>
    match l.subcommand? name with
    | some l => l.helpFor names
    | none   => if l.hasHelp && name = "help" && names.isEmpty then .help else .invalid

end Level

-- What has been read at one level.
structure Seen where
  flags    : Flags
  force    : Bool
  maxDepth : Option Nat
  word     : Option String
  deriving DecidableEq, Repr

def Seen.nothing : Seen where
  flags    := .none
  force    := false
  maxDepth := none
  word     := none

def shell? : String → Option Shell
  | "bash"       => some .bash
  | "zsh"        => some .zsh
  | "fish"       => some .fish
  | "powershell" => some .powershell
  | _            => none

-- A depth is written in decimal, and may have a plus sign and leading zeros.
def depth? (s : String) : Option Nat :=
  let digits := match s.toList with
    | '+' :: cs => cs
    | cs        => cs
  let n := Nat.ofDigitChars 10 digits 0
  if !digits.isEmpty && digits.all Char.isDigit && Config.acceptsDepth n then some n else none

-- The effect of an argument: more is seen, or the invocation is settled.
abbrev Effect := Except Invocation Seen

-- Sets a flag, which may be given only once at a level.
def once (isSet : Bool) (set : Seen) : Effect :=
  if isSet then .error .invalid else .ok set

def flag (l : Level) (s : Seen) (name : String) : Effect :=
  match l, name with
  | _, "verbose"        => once s.flags.verbose { s with flags.verbose := true }
  | _, "quiet"          => once s.flags.quiet { s with flags.quiet := true }
  | _, "compact"        => once s.flags.compact { s with flags.compact := true }
  | _, "no-color"       => once s.flags.noColor { s with flags.noColor := true }
  | .configInit, "force" => once s.force { s with force := true }
  | _, "help"           => .error .help
  | l, "version"        => .error <| .version l.program
  | _, _                => .error .invalid

-- Flags of one letter, which may be written together.
def shortFlag (l : Level) (s : Seen) (letter : Char) : Effect :=
  match letter with
  | 'v' => flag l s "verbose"
  | 'q' => flag l s "quiet"
  | 'h' => flag l s "help"
  | 'V' => flag l s "version"
  | _   => .error .invalid

def depth (s : Seen) (value : String) : Effect :=
  match s.maxDepth, depth? value with
  | none, some n => .ok { s with maxDepth := n }
  | _, _         => .error .invalid

-- A word which names no subcommand.
def word (l : Level) (s : Seen) (w : String) : Effect :=
  match l, s.word with
  | .compile, none | .check, none => .ok { s with word := w }
  | .completions, none =>
    if (shell? w).isSome then .ok { s with word := w } else .error .invalid
  | _, _ => .error .invalid

def command? (l : Level) (s : Seen) : Option Command :=
  match l with
  | .root                 => none
  | .compile              => some <| .compile s.word s.maxDepth
  | .check                => some <| .check s.word
  | .config | .configShow => some .showConfig
  | .configPath           => some .configPath
  | .configInit           => some <| .initConfig s.force
  | .completions          => (s.word.bind shell?).map .completions

-- At no level flags for more and for less output go together.
def Seen.conflicts (s : Seen) : Bool :=
  s.flags.verbose && s.flags.quiet

-- Without a command there is nothing to do but to show the help.
def finish (l : Level) (s : Seen) : Invocation :=
  if s.conflicts then .invalid
  else if l = .root then .help
  else
    match command? l s with
    | some c => .run s.flags c
    | none   => .invalid

-- Combines the flags of a level with what the arguments behind its subcommand ask for.
def Seen.around (s : Seen) : Invocation → Invocation
  | .run flags c => if s.conflicts then .invalid else .run (s.flags.or flags) c
  | i            => i

-- Behind `--` there are only words.
def words (l : Level) (s : Seen) : List String → Invocation
  | []      => finish l s
  | w :: ws =>
    match word l s w with
    | .ok s    => words l s ws
    | .error i => i

def letters (l : Level) (s : Seen) : List Char → Effect
  | []      => .ok s
  | c :: cs => do letters l (← shortFlag l s c) cs

inductive Argument
  | separator
  | long (name : String) (value : Option String)
  | short (letters : List Char)
  | word (text : String)

-- A single `-` is a word.
def Argument.ofString (arg : String) : Argument :=
  match arg.toList with
  | ['-', '-']       => separator
  | '-' :: '-' :: cs =>
    let value := match cs.dropWhile (· ≠ '=') with
      | _ :: value => some (String.ofList value)
      | []         => none
    long (String.ofList (cs.takeWhile (· ≠ '='))) value
  | '-' :: c :: cs   => short (c :: cs)
  | _                => word arg

-- An option's value cannot look like an option.
def isValue (arg : String) : Bool :=
  match Argument.ofString arg with
  | .word _ => true
  | _       => false

def parse (l : Level) (s : Seen) : List String → Invocation
  | [] => finish l s
  | arg :: args =>
    match Argument.ofString arg with
    | .separator => words l s args
    | .short cs =>
      match letters l s cs with
      | .ok s    => parse l s args
      | .error i => i
    | .long name value =>
      if l = .compile && name = "max-depth" then
        match value, args with
        | some v, args =>
          match depth s v with
          | .ok s    => parse l s args
          | .error i => i
        | none, v :: args =>
          if isValue v then
            match depth s v with
            | .ok s    => parse l s args
            | .error i => i
          else .invalid
        | none, [] => .invalid
      else if value.isSome then .invalid
      else
        match flag l s name with
        | .ok s    => parse l s args
        | .error i => i
    | .word w =>
      match l.subcommand? w with
      | some l => s.around <| parse l .nothing args
      | none   =>
        if l.hasHelp && w = "help" then l.helpFor args
        else
          match word l s w with
          | .ok s    => parse l s args
          | .error i => i

end Arguments

def Invocation.ofArguments (args : List String) : Invocation :=
  Arguments.parse .root .nothing args

end SearchQuery
