import Ladybug.Behavior.Node
import Ladybug.Flowchart.Coordinates
import Ladybug.Flowchart.Error
import Ladybug.Flowchart.Token

/-!
# What a bracket means

The signs of the composites mean the same in both forms of bracket. Everything else in
round and square brackets is a condition, and everything else in square brackets only is
an action. Both begin with a keyword, which ends at the first blank; positions follow it
where the keyword asks for them, and nothing follows it elsewhere.

Whatever stands between `=` and `>` is taken for the threshold of a parallel, which must be
a positive number of at most 32 bits without leading zeros.

## Main definitions

* `Bracket.kind` — the kind of node that a bracket denotes.
* `readSpec` — the node that a text declares by itself.
-/

namespace Ladybug.Flowchart

open Text

/-- The largest threshold of a parallel. -/
def maxThreshold : Nat := 0xFFFFFFFF

/-- The threshold written between `=` and `>`. -/
def readThreshold? (cs : List Char) : Option Nat :=
  if cs.head? = some '0' then none
  else (readDigits? cs).filter fun n => n ≤ maxThreshold

/-- The keyword of a text and the trimmed remainder. -/
def keywordAndRest (cs : List Char) : String × List Char :=
  let (keyword, rest) := splitAtBlank cs
  (String.ofList keyword, trim rest)

/-- The action that the text in a square bracket denotes. -/
def readAction (cs : List Char) : Except LineFault Action :=
  let (keyword, rest) := keywordAndRest cs
  if keyword = "fly" then
    match readPositions? rest with
    | some [goal] => .ok (.fly goal)
    | _ => .error (.invalidCoordinates (String.ofList rest))
  else
    match Action.plain.find? fun action => action.keyword == keyword with
    | none => .error (.unknownAction keyword)
    | some action =>
      if rest.isEmpty then .ok action else .error (.unexpectedArguments keyword)

/-- The condition that the text in a round bracket denotes. -/
def readCondition (cs : List Char) : Except LineFault Condition :=
  let (keyword, rest) := keywordAndRest cs
  if keyword = "existsPath" then
    match readPositions? rest with
    | some [goal] => .ok (.pathTo goal)
    | some [start, goal] => .ok (.pathBetween start goal)
    | _ => .error (.invalidCoordinates (String.ofList rest))
  else
    match Condition.plain.find? fun condition => condition.keyword == keyword with
    | some condition =>
      if rest.isEmpty then .ok condition
      else .error (.unknownCondition (String.ofList cs))
    | none => .error (.unknownCondition (String.ofList cs))

/-- The kind of node that a bracket denotes. -/
def Bracket.kind (b : Bracket) : Except LineFault NodeKind :=
  let inner := trim b.inner
  if inner = ['?'] then .ok (.composite .fallback)
  else if inner = ['-', '>'] then .ok (.composite .sequence)
  else if inner.head? = some '=' ∧ inner.getLast? = some '>' then
    match readThreshold? (inner.drop 1).dropLast with
    | some threshold => .ok (.composite (.parallel threshold))
    | none => .error (.invalidThreshold (String.ofList inner))
  else if b.round then (readCondition inner).map .condition
  else (readAction inner).map .action

/-- The node that a text declares by itself, up to blanks at its ends. The bracket must be
there. -/
def readSpec (text : String) : Except LineFault NodeSpec :=
  let token := trim text.toList
  match Token.read? token with
  | some ⟨id, some bracket⟩ =>
    bracket.kind.map fun kind => { id := String.ofList id, kind }
  | _ => .error (.invalidNode (String.ofList token))

/-- The node that a text declares by itself, with faults reported for line zero. -/
def readNode (text : String) : Except FlowchartError NodeSpec :=
  (readSpec text).mapError (.atLine 0)

end Ladybug.Flowchart
