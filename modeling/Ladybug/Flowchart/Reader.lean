import Ladybug.Flowchart.Block

/-!
# Reading flowcharts

A text of flowcharts is a sequence of blocks. Each starts with a header, a line that says
`flowchart TD` and nothing else, and ends at the next header or at the end of the text.
Blank lines do not count. There must be at least one tree and no more trees than
ladybugs.

Reading goes through the lines once and stops at the first violation. A block is closed
when the next header is met, so what is wrong with a whole tree is found before anything
that is wrong with the header after it.

## Main definitions

* `Reader` — what has been read so far.
* `Reader.readLine` and `Reader.close` — one more line, and the end of the text.
* `readTrees` — the trees of a text.
-/

namespace Ladybug.Flowchart

open Text

/-- What a header says. -/
def header : String := "flowchart TD"

/-- What has been read of a text so far. -/
structure Reader where
  /-- How many trees there may be. -/
  ladybugs : Nat
  headers : Nat
  /-- The closed blocks, in order. -/
  trees : List Tree
  /-- The block being read, once there was a header. -/
  block : Option Block
deriving DecidableEq

namespace Reader

/-- Before the first line. -/
def start (ladybugs : Nat) : Reader where
  ladybugs := ladybugs
  headers := 0
  trees := []
  block := none

/-- Closes the block being read, if there is one. -/
def closeBlock (r : Reader) : Except FlowchartError Reader :=
  match r.block with
  | none => .ok r
  | some block => block.close.map fun tree =>
    { r with trees := r.trees ++ [tree], block := none }

/-- Opens a new block. -/
def openBlock (r : Reader) : Except FlowchartError Reader :=
  let headers := r.headers + 1
  if r.ladybugs < headers then .error (.tooManyTrees headers r.ladybugs)
  else .ok { r with headers, block := some (.start headers) }

/-- Reads one more line, given with its number. -/
def readLine (r : Reader) (number : Nat) (line : String) : Except FlowchartError Reader :=
  let cs := dropReturns line.toList
  let text := trim cs
  if text.isEmpty then .ok r
  else if text = header.toList then r.closeBlock >>= openBlock
  else
    match r.block with
    | none => .error (.atLine number .missingHeader)
    | some block =>
      match block.readLine cs with
      | .error fault => .error (.atLine number fault)
      | .ok block => .ok { r with block := some block }

/-- Reads more lines, counted on from `number`. -/
def readLines (r : Reader) (number : Nat) : List String → Except FlowchartError Reader
  | [] => .ok r
  | line :: rest => do
    let r ← r.readLine number line
    r.readLines (number + 1) rest

/-- The trees of the text, at its end. -/
def close (r : Reader) : Except FlowchartError (List Tree) := do
  let r ← r.closeBlock
  if r.trees.isEmpty then .error .noTrees else return r.trees

end Reader

/-- The trees of a text, of which there may be at most as many as ladybugs. -/
def readTrees (lines : List String) (ladybugs : Nat) : Except FlowchartError (List Tree) := do
  let r ← (Reader.start ladybugs).readLines 1 lines
  r.close

end Ladybug.Flowchart
