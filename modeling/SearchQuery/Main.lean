import SearchQuery.CommandLine.Run

namespace SearchQuery

def FileError.ofSystem : IO.Error → FileError
  | .noFileOrDirectory ..      => .notFound
  | .alreadyExists ..          => .alreadyExists
  | .inappropriateType _ 20 .. => .notDirectory
  | .inappropriateType ..      => .isDirectory
  | .invalidArgument _ 36 ..   => .nameTooLong
  | e                          => .other e.toString

def attemptOnSystem (action : IO α) : IO (Except FileError α) := do
  try
    return .ok (← action)
  catch e =>
    return .error (.ofSystem e)

partial def readAll (input : IO.FS.Stream) (sofar : ByteArray) : IO ByteArray := do
  let bytes ← input.read 65536
  if bytes.isEmpty then return sofar else readAll input (sofar ++ bytes)

instance : Host IO where
  input                  := do readAll (← IO.getStdin) .empty
  contains path          := return (← attemptOnSystem (IO.FS.realPath path.text)).isOk
  read path              := attemptOnSystem (IO.FS.readBinFile path.text)
  createDirectories path :=
    if path.names.isEmpty then return .ok () else attemptOnSystem (IO.FS.createDirAll path.text)
  write path content     := attemptOnSystem (IO.FS.writeBinFile path.text content)

-- The number of the user who runs the program.
def userNumber? : IO (Option String) := do
  let status ← attemptOnSystem (IO.FS.lines "/proc/self/status")
  return status.toOption.bind fun lines =>
    lines.findSome? fun line =>
      match line.splitOn "\t" with
      | "Uid:" :: number :: _ => some number
      | _                     => none

-- The home directory which the system has on file for the user.
def accountHome? : IO (Option String) := do
  let number ← userNumber?
  let accounts ← attemptOnSystem (IO.FS.lines "/etc/passwd")
  return accounts.toOption.bind fun lines =>
    lines.findSome? fun line =>
      match line.splitOn ":" with
      | [_, _, user, _, _, home, _] => if some user = number then some home else none
      | _                           => none

end SearchQuery

open SearchQuery

def main (args : List String) : IO UInt32 := do
  let env : Environment := {
    configPath  := ← IO.getEnv "PLQ_CONFIG"
    configHome  := ← IO.getEnv "XDG_CONFIG_HOME"
    home        := ← IO.getEnv "HOME"
    accountHome := ← accountHome?
    noColor     := ← IO.getEnv "NO_COLOR"
    logFilter   := ← IO.getEnv "RUST_LOG"
    logStyle    := ← IO.getEnv "RUST_LOG_STYLE"
    colorForced := ← IO.getEnv "CLICOLOR_FORCE"
    colorWanted := ← IO.getEnv "CLICOLOR"
    terminal    := ← IO.getEnv "TERM"
    onTerminal  := ← (← IO.getStderr).isTty
    build       := ← IO.getEnv "CI"
  }
  let report : Report ← run env args
  IO.print report.stdout
  IO.eprint report.stderr
  return report.code.toUInt32
