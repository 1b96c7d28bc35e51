import Ladybug.Text.Blank

/-!
# Decimal numbers

Numbers are written with the ten ASCII digits and without leading zeros; integers carry a
minus sign when negative. Readers take any number of leading zeros and have no upper
limit: the limits of a format are checked by the format, on the number read.

## Main definitions

* `digitsOf` and `signedDigitsOf` — the written forms.
* `readDigits?` — the value of a non-empty text of digits.
-/

namespace Ladybug.Text

/-- The decimal digits of a natural number, most significant first. -/
def digitsOf (n : Nat) : List Char := Nat.toDigits 10 n

/-- The decimal form of an integer. -/
def signedDigitsOf : Int → List Char
  | .ofNat n => digitsOf n
  | .negSucc n => '-' :: digitsOf (n + 1)

/-- The number that a run of digits stands for. -/
def digitsValue (cs : List Char) : Nat := Nat.ofDigitChars 10 cs 0

/-- The value of a text of one or more digits. -/
def readDigits? (cs : List Char) : Option Nat :=
  if !cs.isEmpty && cs.all Char.isDigit then some (digitsValue cs) else none

end Ladybug.Text
