/-!
# Lines

A line ends with a newline, or with a carriage return followed by a newline; neither
belongs to the line. What follows the last newline is a line of its own unless it is
empty, and then a carriage return at its end is kept. The same rule splits characters and
bytes, so it is stated for any alphabet with two such symbols.
-/

namespace Ladybug.Text

variable {α : Type} [DecidableEq α]

/-- The line without the carriage return it ends with, if it ends with one. -/
def chomp (ret : α) (line : List α) : List α :=
  if line.getLast? = some ret then line.dropLast else line

/-- The lines of a text, where `newline` ends a line and `ret` may stand before it. -/
def linesOf (newline ret : α) (text : List α) : List (List α) :=
  let pieces := text.splitOn newline
  let rest := pieces.getLast?.getD []
  pieces.dropLast.map (chomp ret) ++ if rest.isEmpty then [] else [rest]

/-- The lines of a text of characters. -/
def lines (text : List Char) : List (List Char) := linesOf '\n' '\r' text

/-- The lines of a text of bytes. -/
def byteLines (bytes : List UInt8) : List (List UInt8) := linesOf 10 13 bytes

example : lines "a\r\nb\n\nc\r".toList = ["a".toList, "b".toList, [], "c\r".toList] := by decide

end Ladybug.Text
