import Ladybug.Console.Session

/-!
# The command line

The program reads commands from its standard input. A board, and trees for it, may be
named on the command line and are then loaded before the first command is read; if that
fails, no command is read at all.

Options are read from left to right. An option that takes values must have got one before
the next option is read. Asking for the version or for help is answered at once, so whether
the question is reached decides between the answer and a misuse.

## Main definitions

* `Request` — what the arguments ask for, and `Request.parse`.
* `Exit` — what a run of the program leaves.
* `CommandLine.run` — the whole program.
-/

namespace Ladybug

/-! ### Options -/

/-- The options that take values. -/
inductive ProgramOption where
  | board
  | trees
  | logLevel
deriving DecidableEq

namespace ProgramOption

/-- All options that take values. -/
def all : List ProgramOption := [board, trees, logLevel]

/-- How the option is written. -/
def name : ProgramOption → String
  | board => "--board"
  | trees => "--trees"
  | logLevel => "--log-level"

/-- The option may be given more than once, each time with several values. -/
def isRepeatable : ProgramOption → Bool
  | trees => true
  | _ => false

/-- The option takes the value. A file has a name. -/
def takes (option : ProgramOption) (value : String) : Bool :=
  option = logLevel || !value.isEmpty

end ProgramOption

/-- The questions that are answered at once. -/
inductive Inquiry where
  | version
  | help
deriving DecidableEq

namespace Inquiry

/-- All questions. -/
def all : List Inquiry := [version, help]

/-- How the question is written. -/
def name : Inquiry → String
  | version => "--version"
  | help => "--help"

/-- The letter that asks the question after a single dash. -/
def letter : Inquiry → Char
  | version => 'V'
  | help => 'h'

end Inquiry

/-- The options that were given, in order, each with one of its values. -/
abbrev Given := List (ProgramOption × String)

/-- What an argument is. -/
inductive Argument where
  | value (text : String)
  | option (option : ProgramOption) (attached : Option String)
  | inquiry (inquiry : Inquiry)
  /-- Only values follow. -/
  | endOfOptions
  | unknown
deriving DecidableEq

namespace Argument

/-- The name and the attached value of an option written with an equals sign. -/
def splitAttached (cs : List Char) : String × Option String :=
  let name := String.ofList (cs.takeWhile (· != '='))
  match cs.dropWhile (· != '=') with
  | [] => (name, none)
  | _ :: attached => (name, some (String.ofList attached))

/-- Classifies an argument. -/
def ofText (text : String) : Argument :=
  match text.toList with
  | ['-', '-'] => .endOfOptions
  | '-' :: '-' :: cs =>
    let (name, attached) := splitAttached ('-' :: '-' :: cs)
    match Inquiry.all.find? fun i => i.name == name && attached.isNone with
    | some i => .inquiry i
    | none =>
      match ProgramOption.all.find? fun o => o.name == name with
      | some o => .option o attached
      | none => .unknown
  | ['-'] => .value text
  | '-' :: c :: _ =>
    match Inquiry.all.find? fun i => i.letter == c with
    | some i => .inquiry i
    | none => .unknown
  | _ => .value text

end Argument

/-! ### Requests -/

/-- What to load before the first command. -/
structure Preload where
  board : Option String
  trees : List String
deriving DecidableEq

/-- What the arguments ask for. -/
inductive Request where
  | run (preload : Preload)
  | answer (inquiry : Inquiry)
  | misuse
deriving DecidableEq

namespace Request

/-- The values of an option, in order. -/
def valuesOf (option : ProgramOption) (given : Given) : List String :=
  (given.filter fun (o, _) => o = option).map Prod.snd

/-- What is asked for once all arguments have been read. Trees need a board. -/
def ofGiven (given : Given) : Request :=
  let board := (valuesOf .board given).head?
  let trees := valuesOf .trees given
  if board.isNone && !trees.isEmpty then .misuse else .run { board, trees }

/-- An option that is waiting for values, and whether it already has one. -/
abbrev Waiting := Option (ProgramOption × Bool)

/-- No option lacks a value. -/
def settled : Waiting → Bool
  | some (_, hasValue) => hasValue
  | none => true

/-- The option may be given now. -/
def mayGive (option : ProgramOption) (given : Given) : Bool :=
  option.isRepeatable || (valuesOf option given).isEmpty

/-- Reads arguments, given the options read so far and the one waiting for values. -/
def parseFrom (given : Given) (waiting : Waiting) : List Argument → Request
  | [] => if settled waiting then ofGiven given else .misuse
  | .value text :: rest =>
    match waiting with
    | none => .misuse
    | some (option, _) =>
      if option.takes text then
        parseFrom (given ++ [(option, text)])
          (if option.isRepeatable then some (option, true) else none) rest
      else .misuse
  | .option option attached :: rest =>
    if settled waiting && mayGive option given then
      match attached with
      | none => parseFrom given (some (option, false)) rest
      | some text =>
        if option.takes text then parseFrom (given ++ [(option, text)]) none rest else .misuse
    else .misuse
  | .inquiry i :: _ => if settled waiting then .answer i else .misuse
  | .endOfOptions :: rest =>
    if settled waiting && rest.isEmpty then ofGiven given else .misuse
  | .unknown :: _ => .misuse

/-- What the arguments ask for. -/
def parse (arguments : List String) : Request :=
  parseFrom [] none (arguments.map Argument.ofText)

end Request

/-! ### Running -/

/-- What a run of the program leaves: the exit code and what it wrote. -/
structure Exit where
  code : Nat
  out : ByteArray
  err : String

namespace CommandLine

/-- The answers to questions. -/
def answerText : Inquiry → String
  | .version => "lb-shell 0.1.0\n"
  | .help => "Ladybug behavior-tree simulator shell\n\n" ++
    "Usage: lb-shell [OPTIONS]\n\n" ++
    "Options:\n" ++
    "      --board <PATH>        Board file to load before reading commands\n" ++
    "      --trees <PATH>...     Tree files to load after the board, assigned to ladybugs in order\n" ++
    "      --log-level <FILTER>  Tracing filter, e.g. `debug` or `lb_behavior=debug`.  " ++
      "Overrides `RUST_LOG`\n" ++
    "  -h, --help                Print help\n" ++
    "  -V, --version             Print version\n"

/-- The answer to arguments that cannot be read. -/
def misuseText : String :=
  "usage: lb-shell [--board <PATH>] [--trees <PATH>...] [--log-level <FILTER>]\n"

/-- A cause as a report shows it: after its number if there are several, and with its
later lines indented like the first. -/
def causeText (number : Option Nat) (cause : String) : String :=
  let lead :=
    match number with
    | some n => "    " ++ toString n ++ ": "
    | none => "    "
  let indent := "\n" ++ String.ofList (List.replicate lead.length ' ')
  lead ++ indent.intercalate ((cause.toList.splitOn '\n').map String.ofList) ++ "\n"

/-- The report of a failure: what was being done, and the causes behind each other. -/
def report (doing : String) (causes : List String) : String :=
  let numbered :=
    match causes with
    | [cause] => [causeText none cause]
    | _ => causes.zipIdx.map fun (cause, n) => causeText (some n) cause
  "Error: " ++ doing ++ "\n\nCaused by:\n" ++ String.join numbered

/-- The commands that load what was named on the command line, each with what a report says
was being done. -/
def preloadCommands (p : Preload) : List (String × Command) :=
  (p.board.toList.map fun path => ("preload board", Command.loadBoard path)) ++
    if p.trees.isEmpty then [] else [("preload trees", .loadTrees p.trees)]

/-- Runs the commands that load, up to the first that fails, which is reported. -/
def preload (files : Source) : List (String × Command) → EStateM String Session Unit
  | [], s => .ok () s
  | (doing, command) :: rest, s =>
    match (Session.execute files command).run s with
    | .ok _ s => preload files rest s
    | .error error s => .error (report doing (error.message :: error.cause?.toList)) s

/-- What a session leaves that ended without a failure. -/
def succeeded (s : Session) : Exit := ⟨0, s.out.written, s.err⟩

/-- What a session leaves that ended with a reported failure. -/
def failed (text : String) (s : Session) : Exit := ⟨1, s.out.written, s.err ++ text⟩

/-- The report of a script that ended early. -/
def scriptReport (error : Session.ScriptError) : String := report "read commands" [error.message]

/-- Loads what was named on the command line and runs the script. -/
def runSession (files : Source) (p : Preload) (script : ByteArray) : Exit :=
  match (preload files (preloadCommands p)).run (Session.start .unlimited) with
  | .error text s => failed text s
  | .ok _ s =>
    match (Session.run files script).run s with
    | .error error s => failed (scriptReport error) s
    | .ok _ s => succeeded s

/-- The whole program, given the files, the arguments and the standard input. -/
def run (files : Source) (arguments : List String) (script : ByteArray) : Exit :=
  match Request.parse arguments with
  | .misuse => ⟨2, ByteArray.empty, misuseText⟩
  | .answer i => ⟨0, (answerText i).toUTF8, ""⟩
  | .run p => runSession files p script

end CommandLine

end Ladybug
