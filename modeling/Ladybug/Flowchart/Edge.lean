import Ladybug.Flowchart.Token

/-!
# Edges

An edge is written on a line of its own, as the token of the parent, an arrow and the token
of the child. Blanks may stand around the arrow and at the ends of the line, but need not.
The child is always declared, that is, followed by a bracket.

The characters of the arrow may be part of an id, so a line can often be read in several
ways. The reading whose parent has the longest id is the one that counts. A line begins
with a run of id characters, and either the whole run is the id of the parent, or the arrow
lies in the run and the id ends before it. In the second case nothing but the end of the
run depends on where the arrow lies: what is left of the run behind the arrow is the id of
the child, whose bracket is the rest of the line. So the rest is read only once, and a line
is read in a time proportional to its length.

## Main definitions

* `Edge` — the two tokens.
* `Edge.readAfterRun?` — the edge whose parent has the whole run as its id.
* `Edge.splitRun?` — the edge whose arrow lies in the run, as far back as possible.
* `Edge.read?` — the edge that a line is.
-/

namespace Ladybug.Flowchart

open Text

/-- An edge as a flowchart writes it. -/
structure Edge where
  parent : Token
  child : Token
deriving DecidableEq

namespace Edge

/-- What follows an arrow, before which there may be blanks. -/
def afterArrow? (cs : List Char) : Option (List Char) :=
  match trimLeft cs with
  | '-' :: '-' :: '>' :: rest => some rest
  | _ => none

/-- The child that a whole text declares, up to blanks at its ends. -/
def readChild? (cs : List Char) : Option Token :=
  (Token.read? (trim cs)).filter fun child => child.bracket.isSome

/-! ### The arrow behind the run -/

/-- The edge whose parent has the whole run of id characters as its id, given the rest of
the line. Only here can the parent have a bracket. -/
def readAfterRun? (run rest : List Char) : Option Edge :=
  if run.isEmpty then none
  else
    let (bracket, rest) :=
      match Bracket.readFirst? rest with
      | some (bracket, rest) => (some bracket, rest)
      | none => (none, rest)
    match (afterArrow? rest).bind readChild? with
    | some child => some ⟨⟨run, bracket⟩, child⟩
    | none => none

/-! ### The arrow in the run -/

/-- The child behind an arrow in the run, given what is left of the run. If nothing is
left, the rest of the line declares the child. Otherwise the bracket must follow at once,
so it is the same wherever the arrow lies. -/
def childInRun? (rest : List Char) (bracket : Option Bracket) (left : List Char) :
    Option Token :=
  if left.isEmpty then readChild? rest else bracket.map fun b => ⟨left, some b⟩

/-- The edge whose arrow is what a part of the run ends with, given that part backwards,
what is left of the run behind it, and how the child is read. -/
def splitHere? (child? : List Char → Option Token) (backwards left : List Char) :
    Option Edge :=
  match backwards with
  | '>' :: '-' :: '-' :: id =>
    if id.isEmpty then none
    else (child? left).map fun child => ⟨⟨id.reverse, none⟩, child⟩
  | _ => none

/-- The edge whose arrow lies as far back in the run as possible. The run is given
backwards up to where the search has come, and forwards from there. -/
def splitRun? (child? : List Char → Option Token) : List Char → List Char → Option Edge
  | [], _ => none
  | c :: backwards, left =>
    match splitHere? child? (c :: backwards) left with
    | some edge => some edge
    | none => splitRun? child? backwards (c :: left)

/-! ### Whole lines -/

/-- The edge that a line is, read with the longest possible id of the parent. -/
def read? (line : List Char) : Option Edge :=
  let text := trimLeft line
  let run := text.takeWhile isIdChar
  let rest := text.dropWhile isIdChar
  match readAfterRun? run rest with
  | some edge => some edge
  | none => splitRun? (childInRun? rest (Bracket.read? (trimRight rest))) run.reverse []

end Edge

end Ladybug.Flowchart
