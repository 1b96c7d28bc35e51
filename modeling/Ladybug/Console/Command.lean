import Ladybug.Agent
import Ladybug.Game.Error
import Ladybug.Text.Blank
import Ladybug.Text.Decimal

/-!
# Commands

A command is a line of words. It begins with a keyword of one or two words, and what
follows are its arguments. Only the words count, so the blanks between them do not. The
node that is to be added beside another may consist of several words, which are then
joined by single spaces.

A line that begins with a keyword but has the wrong number of arguments is answered with
the usage of that keyword. A number that names no ladybug is complained about only when
the number of arguments is right.

## Main definitions

* `Keyword` — what a command begins with, and `Keyword.usage`.
* `Command` — a command with its arguments, and `Command.parse`.
* `ConsoleError` — why a command fails.
-/

namespace Ladybug

/-! ### Why a command fails -/

/-- Why a command fails. -/
inductive ConsoleError where
  | unknownCommand (line : String)
  | usage (text : String)
  | invalidLadybug (text : String)
  /-- A file could not be read. -/
  | read (path reason : String)
  /-- What the command had to say could not be written. -/
  | output (reason : String)
  | game (error : GameError)
deriving DecidableEq

namespace ConsoleError

/-- The message shown to the user. -/
def message : ConsoleError → String
  | unknownCommand line => s!"unknown command '{line}'"
  | .usage text => s!"usage: {text}"
  | invalidLadybug text => s!"'{text}' is not a valid ladybug id"
  | read path reason => s!"could not read '{path}': {reason}"
  | output reason => s!"output failed: {reason}"
  | game error => error.message

/-- The message of the error behind this one, where there is one to report separately. -/
def cause? : ConsoleError → Option String
  | read _ reason => some reason
  | output reason => some reason
  | game error => error.cause?
  | _ => none

end ConsoleError

/-! ### Commands and keywords -/

/-- A command with its arguments. -/
inductive Command where
  | loadBoard (path : String)
  | loadTrees (paths : List String)
  | listLadybugs
  | nextAction
  | printPosition (agent : AgentId)
  | printBoard
  | head (agent : AgentId)
  | resetTree (agent : AgentId)
  | jumpTo (agent : AgentId) (node : String)
  | addSibling (agent : AgentId) (existing node : String)
  | quit
deriving DecidableEq

/-- What a command begins with. -/
inductive Keyword where
  | loadBoard
  | loadTrees
  | listLadybugs
  | nextAction
  | printPosition
  | printBoard
  | head
  | resetTree
  | jumpTo
  | addSibling
  | quit
deriving DecidableEq

namespace Keyword

/-- All keywords. None of them begins with another one. -/
def all : List Keyword :=
  [loadBoard, loadTrees, listLadybugs, nextAction, printPosition, printBoard, head, resetTree,
    jumpTo, addSibling, quit]

/-- The words of a keyword. -/
def words : Keyword → List String
  | loadBoard => ["load", "board"]
  | loadTrees => ["load", "trees"]
  | listLadybugs => ["list", "ladybugs"]
  | nextAction => ["next", "action"]
  | printPosition => ["print", "position"]
  | printBoard => ["print", "board"]
  | head => ["head"]
  | resetTree => ["reset", "tree"]
  | jumpTo => ["jump", "to"]
  | addSibling => ["add", "sibling"]
  | quit => ["quit"]

/-- How a command with this keyword is written. -/
def usage : Keyword → String
  | loadBoard => "load board <path>"
  | loadTrees => "load trees <path>..."
  | listLadybugs => "list ladybugs"
  | nextAction => "next action"
  | printPosition => "print position <id>"
  | printBoard => "print board"
  | head => "head <id>"
  | resetTree => "reset tree <id>"
  | jumpTo => "jump to <id> <node>"
  | addSibling => "add sibling <id> <existing> <node>"
  | quit => "quit"

/-- The keyword that a line of words begins with, and the words that follow it. -/
def ofWords? (ws : List String) : Option (Keyword × List String) :=
  (all.find? fun keyword => keyword.words.isPrefixOf ws).map fun keyword =>
    (keyword, ws.drop keyword.words.length)

end Keyword

/-! ### Reading a command -/

/-- The largest number of a ladybug. -/
def maxLadybug : Nat := 0xFFFFFFFF

/-- The ladybug that a word names: a positive number, perhaps after a plus sign. -/
def readLadybug (word : String) : Except ConsoleError AgentId :=
  let digits :=
    match word.toList with
    | '+' :: rest => rest
    | cs => cs
  match Text.readDigits? digits with
  | some n =>
    if 0 < n ∧ n ≤ maxLadybug then .ok ⟨n⟩ else .error (.invalidLadybug word)
  | none => .error (.invalidLadybug word)

/-- The command with a keyword and arguments. -/
def Keyword.command (keyword : Keyword) (arguments : List String) :
    Except ConsoleError Command :=
  match keyword, arguments with
  | loadBoard, [path] => .ok (.loadBoard path)
  | loadTrees, path :: paths => .ok (.loadTrees (path :: paths))
  | listLadybugs, [] => .ok .listLadybugs
  | nextAction, [] => .ok .nextAction
  | printPosition, [id] => (readLadybug id).map .printPosition
  | printBoard, [] => .ok .printBoard
  | head, [id] => (readLadybug id).map .head
  | resetTree, [id] => (readLadybug id).map .resetTree
  | jumpTo, [id, node] => (readLadybug id).map fun agent => .jumpTo agent node
  | addSibling, id :: existing :: word :: words =>
    (readLadybug id).map fun agent =>
      .addSibling agent existing (" ".intercalate (word :: words))
  | quit, [] => .ok .quit
  | _, _ => .error (.usage keyword.usage)

namespace Command

/-- The words of a line. -/
def wordsOf (line : String) : List String := (Text.words line.toList).map String.ofList

/-- Reads a command from a line. -/
def parse (line : String) : Except ConsoleError Command :=
  match Keyword.ofWords? (wordsOf line) with
  | some (keyword, arguments) => keyword.command arguments
  | none => .error (.unknownCommand (String.ofList (Text.trim line.toList)))

/-- The files that a command reads, in order. -/
def paths : Command → List String
  | loadBoard path => [path]
  | loadTrees paths => paths
  | _ => []

end Command

end Ladybug
