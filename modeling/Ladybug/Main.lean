import Ladybug.CommandLine

/-!
# The program

Reads commands from standard input, one line at a time, and writes what they have to say.
Everything that is decided is decided elsewhere; this module moves bytes.

Two things that go to standard error are left out, since nothing is decided by them: diagnostics,
which the option `--log-level` is about, and what is said of arguments that make no sense.
-/

namespace Ladybug.Main

/-- What the system says about a file that cannot be read. -/
def reasonOf : IO.Error → String
  | .noFileOrDirectory _ code details => details ++ " (os error " ++ toString code ++ ")"
  | .permissionDenied _ code details => details ++ " (os error " ++ toString code ++ ")"
  | .inappropriateType _ code details => details ++ " (os error " ++ toString code ++ ")"
  | error => toString error

/-- Reads the files that a command is going to ask for. -/
def fetch (paths : List String) : IO Source := do
  let contents ← paths.mapM fun (path : String) => do
    try
      return (path, Except.ok (← IO.FS.readBinFile path))
    catch error => return (path, Except.error (reasonOf error))
  return fun path =>
    match contents.find? fun (name, _) => name == path with
    | some (_, content) => content
    | none => .error "file not found"

/-- Writes what a session has said since the last time, and forgets it. -/
def flush (s : Session) : IO Session := do
  let out ← IO.getStdout
  let err ← IO.getStderr
  out.write s.out.written
  out.flush
  err.putStr s.err
  err.flush
  return { s with out := .unlimited, err := "" }

/-- The files that the command on a line reads. -/
def pathsOfLine (line : String) : List String :=
  match Command.parse line with
  | .ok command => command.paths
  | .error _ => []

/-- The line without the characters that end it. -/
def content (line : String) : String :=
  match Text.lines line.toList with
  | first :: _ => String.ofList first
  | [] => line

/-- Runs the lines of standard input. -/
partial def loop (input : IO.FS.Stream) (s : Session) : IO UInt32 := do
  let line ← try
      pure (some (← input.getLine))
    catch _ => pure none
  match line with
  | none =>
    let _ ← flush { s with err := CommandLine.scriptReport .input }
    return 1
  | some "" => return 0
  | some line =>
    let line := content line
    let files ← fetch (pathsOfLine line)
    match (Session.handleLine files line).run s with
    | .ok flow s =>
      let s ← flush s
      if flow = .quit then return 0 else loop input s
    | .error error s =>
      let text := CommandLine.scriptReport (.output (error.cause?.getD error.message))
      let _ ← flush { s with err := s.err ++ text }
      return 1

/-- Loads what was named on the command line, then runs the lines of standard input. -/
def session (p : Preload) : IO UInt32 := do
  let commands := CommandLine.preloadCommands p
  let files ← fetch (commands.flatMap fun (_, command) => command.paths)
  match (CommandLine.preload files commands).run (Session.start .unlimited) with
  | .error text s =>
    let _ ← flush { s with err := s.err ++ text }
    return 1
  | .ok _ s =>
    let s ← flush s
    loop (← IO.getStdin) s

end Ladybug.Main

open Ladybug in
/-- The entry point. -/
def main (arguments : List String) : IO UInt32 := do
  match Request.parse arguments with
  | .run p => Main.session p
  | .answer i =>
    IO.print (CommandLine.answerText i)
    return 0
  | .misuse =>
    IO.eprint CommandLine.misuseText
    return 2
