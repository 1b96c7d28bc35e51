import Ladybug.Console.Command
import Ladybug.Console.Render
import Ladybug.Console.Sink
import Ladybug.Game
import Ladybug.Text.Lines

/-!
# Console sessions

A session runs commands against a game. What a command has to say goes to the product
output, which may be closed at any time; complaints about commands go to the error output,
which never is.

A command that fails is complained about and the session goes on. Only closed output and
input that is not text end a session early, apart from the command to quit.

A turn goes on even if the output closes while it is being shown, so what a turn does to
the game does not depend on who is watching. Loading, in contrast, shows the files first
and changes the game only after that went well.

## Main definitions

* `Session` — a game and two outputs, and `SessionM` — programs over it.
* `Source` — where files are read from.
* `Session.execute` — one command.
* `Session.handleLine` and `Session.run` — one line, and a whole script.
-/

namespace Ladybug

/-- The state of a session. -/
structure Session where
  game : Game
  out : Sink
  err : String

/-- Programs over the state of a session, which may stop with an error. -/
abbrev SessionM := EStateM ConsoleError Session

/-- Where files are read from: the bytes of a file, or the reason why there are none. -/
abbrev Source := String → Except String ByteArray

/-- Whether a session goes on after a command. -/
inductive Flow where
  | goOn
  | quit
deriving DecidableEq

/-- The reason given for bytes that are not text. -/
def notText : String := "stream did not contain valid UTF-8"

namespace Session

/-- The session before the first command. -/
def start (out : Sink) : Session := ⟨.new, out, ""⟩

/-! ### Steps of a command -/

/-- Stops with an error. -/
def fail {α : Type} (error : ConsoleError) : SessionM α := fun s => .error error s

/-- Writes lines to the product output. -/
def say (lines : List String) : SessionM Unit := fun s =>
  let (out, complete) := s.out.pushLines lines
  if complete then .ok () { s with out } else .error (.output Sink.refusal) { s with out }

/-- Runs a program of the game. -/
def play {α : Type} (program : GameM α) : SessionM α := fun s =>
  match program.run s.game with
  | .ok answer game => .ok answer { s with game }
  | .error error game => .error (.game error) { s with game }

/-- The lines of a file. -/
def linesOfFile (files : Source) (path : String) : Except ConsoleError (List String) :=
  match files path with
  | .error reason => .error (.read path reason)
  | .ok bytes =>
    match String.fromUTF8? bytes with
    | none => .error (.read path notText)
    | some text => .ok ((Text.lines text.toList).map String.ofList)

/-- Reads a file and shows its lines. -/
def showFile (files : Source) (path : String) : SessionM (List String) := do
  match linesOfFile files path with
  | .error error => fail error
  | .ok lines =>
    say lines
    return lines

/-- Reads several files and shows the lines of each as soon as it is read. -/
def showFiles (files : Source) : List String → SessionM (List (List String))
  | [] => return []
  | path :: rest => do
    let lines ← showFile files path
    let others ← showFiles files rest
    return lines :: others

/-! ### Turns -/

/-- An output together with whether everything so far has fit. -/
structure Printout where
  out : Sink
  complete : Bool

/-- Writes lines, unless something did not fit before. -/
def Printout.addLines (p : Printout) (lines : List String) : Printout :=
  if p.complete then
    let (out, complete) := p.out.pushLines lines
    ⟨out, complete⟩
  else p

/-- The observer who prints the records of a turn and the board after it. -/
def printer : TurnObserver Printout where
  onTrace := fun trace p => p.addLines (trace.map Render.traceLine)
  onTurnDone := fun _ w p => p.addLines (Render.board w w.colony.activeIds)

/-- Gives every active ladybug its turn and prints it. -/
def playTurn : SessionM Unit := do
  let s ← get
  let (_, printed) ← play (Game.nextAction printer ⟨s.out, true⟩)
  modify fun s => { s with out := printed.out }
  if !printed.complete then fail (.output Sink.refusal)

/-! ### Commands -/

/-- Shows the board with its active ladybugs, or with all of them as long as nobody has a
tree. -/
def showBoard : SessionM Unit := do
  let w ← play (Game.ask Game.world)
  let s ← get
  say (Render.board w (if s.game.treesLoaded then w.colony.activeIds else w.colony.ids))

/-- Runs one command. -/
def execute (files : Source) : Command → SessionM Flow
  | .loadBoard path => do
    let lines ← showFile files path
    let _ ← play (Game.loadBoard lines)
    return .goOn
  | .loadTrees paths => do
    let texts ← showFiles files paths
    let _ ← play (Game.loadTreeFiles texts)
    return .goOn
  | .listLadybugs => do
    let ids ← play (Game.ask Game.activeLadybugs)
    say [" ".intercalate (ids.map AgentId.text)]
    return .goOn
  | .nextAction => do
    playTurn
    return .goOn
  | .printPosition agent => do
    let (p, _) ← play (Game.ask fun g => g.position agent)
    say [Render.position p]
    return .goOn
  | .printBoard => do
    showBoard
    return .goOn
  | .head agent => do
    let head ← play (Game.ask fun g => g.head agent)
    say [head]
    return .goOn
  | .resetTree agent => do
    play (Game.resetTree agent)
    return .goOn
  | .jumpTo agent node => do
    play (Game.jumpTo agent node)
    return .goOn
  | .addSibling agent existing node => do
    play (Game.addSibling agent existing node)
    return .goOn
  | .quit => return .quit

/-- Reads and runs the command on a line. -/
def executeLine (files : Source) (line : String) : SessionM Flow :=
  match Command.parse line with
  | .ok command => execute files command
  | .error error => fail error

/-! ### Lines and scripts -/

/-- Runs one line and complains about a command that fails. A blank line does nothing, and
closed output is passed on. -/
def handleLine (files : Source) (line : String) : SessionM Flow := fun s =>
  if (Text.trim line.toList).isEmpty then .ok .goOn s
  else
    match (executeLine files line).run s with
    | .ok flow s => .ok flow s
    | .error (.output reason) s => .error (.output reason) s
    | .error error s => .ok .goOn { s with err := s.err ++ "Error, " ++ error.message ++ "\n" }

/-- Why a script ends early. -/
inductive ScriptError where
  | output (reason : String)
  /-- A line of input is not text. -/
  | input
deriving DecidableEq

/-- The message of the error. -/
def ScriptError.message : ScriptError → String
  | .output reason => reason
  | .input => notText

/-- Runs lines of bytes up to the one that quits. -/
def runLines (files : Source) : List (List UInt8) → EStateM ScriptError Session Unit
  | [], s => .ok () s
  | line :: rest, s =>
    match String.fromUTF8? ⟨line.toArray⟩ with
    | none => .error .input s
    | some text =>
      match (handleLine files text).run s with
      | .ok .goOn s => runLines files rest s
      | .ok .quit s => .ok () s
      | .error error s => .error (.output (error.cause?.getD error.message)) s

/-- Runs a script. -/
def run (files : Source) (script : ByteArray) : EStateM ScriptError Session Unit :=
  runLines files (Text.byteLines script.data.toList)

end Session

end Ladybug
