import Ladybug.Position
import Ladybug.Text.Decimal

/-!
# Coordinates

Positions are written as pairs of integers with a comma between them, column first and
counted from one. Several pairs are separated by blanks or by a comma, so that `1,1 3,3`,
`1,1, 3,3` and `1,1,3,3` are the same two pairs. Blanks may stand around every comma.

A text of pairs is checked as a whole first. Then the pairs are picked out of it from left
to right, each where it starts. Both integers of a pair must have at most 32 bits, and the
smallest such integer is not allowed, so that counting from zero stays within 32 bits too.

## Main definitions

* `readPair?` — the pair that a text starts with.
* `isPairList` — a whole text is a list of pairs.
* `findPairs` — the pairs that occur in a text.
* `readPositions?` — the positions that a whole text lists.
-/

namespace Ladybug.Flowchart

open Text

/-! ### Integers and pairs -/

/-- The number that a text starts with, and the rest of the text. -/
def readNat? (cs : List Char) : Option (Nat × List Char) :=
  let digits := cs.takeWhile Char.isDigit
  if digits.isEmpty then none else some (digitsValue digits, cs.dropWhile Char.isDigit)

/-- The integer that a text starts with, and the rest of the text: a number, perhaps after
a minus sign. -/
def readInt? : List Char → Option (Int × List Char)
  | '-' :: cs => (readNat? cs).map fun (n, rest) => (-(n : Int), rest)
  | cs => (readNat? cs).map fun (n, rest) => ((n : Int), rest)

/-- The pair that a text starts with, and the rest of the text. -/
def readPair? (cs : List Char) : Option ((Int × Int) × List Char) := do
  let (x, rest) ← readInt? cs
  match trimLeft rest with
  | ',' :: rest =>
    let (y, rest) ← readInt? (trimLeft rest)
    return ((x, y), rest)
  | _ => none

/-- The text after the separator it starts with: a comma, perhaps with blanks around it, or
at least one blank. -/
def skipSeparator? (cs : List Char) : Option (List Char) :=
  match trimLeft cs with
  | ',' :: rest => some (trimLeft rest)
  | rest => if cs.head?.any isBlank then some rest else none

/-! ### What is read gets shorter -/

theorem length_trimLeft_le (cs : List Char) : (trimLeft cs).length ≤ cs.length :=
  (List.dropWhile_suffix isBlank).length_le

theorem length_lt_of_readNat? {cs rest : List Char} {n : Nat}
    (h : readNat? cs = some (n, rest)) : rest.length < cs.length := by
  simp only [readNat?, Option.ite_none_left_eq_some, Option.some.injEq, Prod.mk.injEq] at h
  obtain ⟨hne, -, rfl⟩ := h
  have hlen := congrArg List.length
    (List.takeWhile_append_dropWhile (p := Char.isDigit) (l := cs))
  have hpos : 0 < (cs.takeWhile Char.isDigit).length :=
    List.length_pos_iff.mpr (by simpa using hne)
  simp only [List.length_append] at hlen
  omega

theorem length_lt_of_readInt? {cs rest : List Char} {x : Int}
    (h : readInt? cs = some (x, rest)) : rest.length < cs.length := by
  unfold readInt? at h
  split at h
  · simp only [Option.map_eq_some_iff, Prod.mk.injEq] at h
    obtain ⟨⟨n, rest'⟩, hn, -, rfl⟩ := h
    have := length_lt_of_readNat? hn
    simp only [List.length_cons]
    omega
  · simp only [Option.map_eq_some_iff, Prod.mk.injEq] at h
    obtain ⟨⟨n, rest'⟩, hn, -, rfl⟩ := h
    exact length_lt_of_readNat? hn

theorem length_lt_of_readPair? {cs rest : List Char} {p : Int × Int}
    (h : readPair? cs = some (p, rest)) : rest.length < cs.length := by
  simp only [readPair?, Option.bind_eq_bind, Option.bind_eq_some_iff] at h
  obtain ⟨⟨x, afterX⟩, hx, h⟩ := h
  have hlt := length_lt_of_readInt? hx
  have hle := length_trimLeft_le afterX
  split at h
  · rename_i afterComma heq
    simp only [Option.bind_eq_some_iff] at h
    obtain ⟨⟨y, afterY⟩, hy, h⟩ := h
    simp only [Option.pure_def, Option.some.injEq, Prod.mk.injEq] at h
    obtain ⟨-, rfl⟩ := h
    have hlt' := length_lt_of_readInt? hy
    have hle' := length_trimLeft_le afterComma
    simp only [heq, List.length_cons] at hle
    omega
  · simp at h

theorem length_le_of_skipSeparator? {cs rest : List Char}
    (h : skipSeparator? cs = some rest) : rest.length ≤ cs.length := by
  have hle := length_trimLeft_le cs
  unfold skipSeparator? at h
  split at h
  · rename_i afterComma heq
    have hle' := length_trimLeft_le afterComma
    simp only [Option.some.injEq] at h
    subst h
    simp only [heq, List.length_cons] at hle
    omega
  · simp only [Option.ite_none_right_eq_some, Option.some.injEq] at h
    obtain ⟨-, rfl⟩ := h
    exact hle

/-! ### Lists of pairs -/

/-- The whole text is a list of pairs with separators between them. -/
def isPairList (cs : List Char) : Bool :=
  match _h : readPair? cs with
  | none => false
  | some (_, []) => true
  | some (_, rest) =>
    match _h' : skipSeparator? rest with
    | none => false
    | some next => isPairList next
termination_by cs.length
decreasing_by
  have := length_lt_of_readPair? _h
  have := length_le_of_skipSeparator? _h'
  omega

/-- The pairs that occur in a text, from left to right. Each begins where the search meets
it first, and the search goes on behind it. -/
def findPairs (cs : List Char) : List (Int × Int) :=
  match _h : readPair? cs with
  | some (p, rest) => p :: findPairs rest
  | none =>
    match cs with
    | [] => []
    | _ :: rest => findPairs rest
termination_by cs.length
decreasing_by
  · exact length_lt_of_readPair? _h
  · simp

/-! ### Positions -/

/-- The largest integer of 32 bits. -/
def maxCoordinate : Int := 0x7FFFFFFF

/-- The position with written coordinates, if they are small enough. -/
def position? : Int × Int → Option Position
  | (x, y) =>
    if -maxCoordinate ≤ x ∧ x ≤ maxCoordinate ∧ -maxCoordinate ≤ y ∧ y ≤ maxCoordinate then
      some (Position.ofDisplay x y)
    else none

/-- The positions that a whole text lists. -/
def readPositions? (cs : List Char) : Option (List Position) :=
  if isPairList cs then (findPairs cs).mapM position? else none

end Ladybug.Flowchart
