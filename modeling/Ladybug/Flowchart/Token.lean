import Ladybug.Text.Blank

/-!
# Node tokens

A flowchart names a node by its id, and where the node first occurs the id is followed at
once by a bracket that says what the node is: `A[move]`, `B([atEdge])`. An id is free of
blanks and of the two characters that open a bracket, and of nothing else; in particular
the arrow of edges may be part of an id. What a bracket holds is not empty and does not
contain a closing square bracket.

## Main definitions

* `Bracket` and `Token`, each with the text it stands for.
* `Bracket.readFirst?` and `Bracket.read?` — the bracket that a text starts with, and the
  one that a whole text is.
* `Token.read?` — the token that a whole text is.
-/

namespace Ladybug.Flowchart

open Text

/-! ### Brackets -/

/-- The bracketed part of a token. -/
structure Bracket where
  /-- The square brackets stand in round ones. -/
  round : Bool
  inner : List Char
deriving DecidableEq

namespace Bracket

/-- The text of the bracket. -/
def text (b : Bracket) : List Char :=
  if b.round then '(' :: '[' :: b.inner ++ [']', ')'] else '[' :: b.inner ++ [']']

/-- What stands before the first closing square bracket, and what follows from there. -/
def cut (cs : List Char) : List Char × List Char :=
  (cs.takeWhile (· != ']'), cs.dropWhile (· != ']'))

/-- The bracket that a text starts with, and the rest of the text. -/
def readFirst? : List Char → Option (Bracket × List Char)
  | '(' :: '[' :: cs =>
    match cut cs with
    | (c :: inner, ']' :: ')' :: rest) => some (⟨true, c :: inner⟩, rest)
    | _ => none
  | '[' :: cs =>
    match cut cs with
    | (c :: inner, ']' :: rest) => some (⟨false, c :: inner⟩, rest)
    | _ => none
  | _ => none

/-- The bracket that a whole text is. -/
def read? (cs : List Char) : Option Bracket :=
  match readFirst? cs with
  | some (bracket, []) => some bracket
  | _ => none

end Bracket

/-! ### Tokens -/

/-- The character may be part of an id. -/
def isIdChar (c : Char) : Bool := !isBlank c && c != '[' && c != '('

/-- A node as a flowchart names it: an id, and perhaps a bracket. -/
structure Token where
  id : List Char
  bracket : Option Bracket
deriving DecidableEq

namespace Token

/-- The text of the token. -/
def text (t : Token) : List Char := t.id ++ (t.bracket.map Bracket.text).getD []

/-- The token that a whole text is. -/
def read? (cs : List Char) : Option Token :=
  match cs.takeWhile isIdChar, cs.dropWhile isIdChar with
  | [], _ => none
  | id, [] => some ⟨id, none⟩
  | id, rest => (Bracket.read? rest).map fun bracket => ⟨id, some bracket⟩

end Token

end Ladybug.Flowchart
