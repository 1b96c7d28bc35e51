/-!
# Blank characters

Board files, flowcharts and commands are split at blanks and trimmed of them. A blank is a
character with the White_Space property of the Unicode standard: twenty-five code points,
of which core's `Char.isWhitespace` knows only four.

Texts are lists of characters here, since every reader of this library works on them.

## Main definitions

* `isBlank` — the property itself.
* `trim` — a text without the blanks at its ends.
* `words` — the maximal runs of other characters, in order.
* `splitAtBlank` — a text cut at its first blank.
-/

namespace Ladybug.Text

/-- The code points with the White_Space property, as inclusive ranges in ascending
order. -/
def blankRanges : List (Nat × Nat) :=
  [(0x09, 0x0D), (0x20, 0x20), (0x85, 0x85), (0xA0, 0xA0), (0x1680, 0x1680),
    (0x2000, 0x200A), (0x2028, 0x2029), (0x202F, 0x202F), (0x205F, 0x205F), (0x3000, 0x3000)]

/-- The character has the White_Space property. -/
def isBlank (c : Char) : Bool :=
  blankRanges.any fun (first, last) => first ≤ c.toNat && c.toNat ≤ last

/-- The table names twenty-five code points. -/
example : (blankRanges.map fun (first, last) => last + 1 - first).sum = 25 := by decide

/-! ### Ends of a text -/

/-- The text without the blanks it starts with. -/
def trimLeft (cs : List Char) : List Char := cs.dropWhile isBlank

/-- The text without the blanks it ends with. -/
def trimRight (cs : List Char) : List Char := (cs.reverse.dropWhile isBlank).reverse

/-- The text without the blanks at either end. -/
def trim (cs : List Char) : List Char := trimRight (trimLeft cs)

/-- The text without the carriage returns it ends with. -/
def dropReturns (cs : List Char) : List Char := (cs.reverse.dropWhile (· == '\r')).reverse

/-! ### Parts of a text -/

/-- The maximal runs of characters that are not blank, in order. -/
def words (cs : List Char) : List (List Char) :=
  (cs.splitOnP isBlank).filter fun w => !w.isEmpty

/-- The text up to its first blank, and what follows that blank. The second part is empty
if there is no blank. -/
def splitAtBlank (cs : List Char) : List Char × List Char :=
  (cs.takeWhile fun c => !isBlank c, (cs.dropWhile fun c => !isBlank c).drop 1)

/-- Words joined by single spaces. -/
def joinWords (ws : List (List Char)) : List Char := [' '].intercalate ws

end Ladybug.Text
