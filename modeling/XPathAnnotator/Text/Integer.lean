/-
**Integers written in text.**

`parseInteger?` reads a decimal integer: white space around it, a sign, decimal digits of any script
and single underscores between digits are allowed, and no more than 4300 digits.
-/

import XPathAnnotator.Text.Blank
import XPathAnnotator.Text.Word

namespace XPathAnnotator.Text

/-- The most digits that an integer may be written with. -/
def maxIntegerDigits : Nat := 4300

/-- The value of a nonempty row of digits with single underscores between them; `value` and `count`
are the value and the number of the digits read so far. -/
def digitsValue? (value count : Nat) : List Char → Option Nat
  | [] => if count == 0 || maxIntegerDigits < count then none else some value
  | '_' :: c :: rest =>
    if count != 0 && isDigit c then digitsValue? (value * 10 + digitValue c) (count + 1) rest
    else none
  | c :: rest =>
    if isDigit c then digitsValue? (value * 10 + digitValue c) (count + 1) rest else none

/-- The integer that a text is written as, if it is one. -/
def parseInteger? (text : String) : Option Int :=
  match (trimSpaces text).toList with
  | '-' :: digits => (digitsValue? 0 0 digits).map fun value => -(value : Int)
  | '+' :: digits => (digitsValue? 0 0 digits).map Int.ofNat
  | digits => (digitsValue? 0 0 digits).map Int.ofNat

end XPathAnnotator.Text
