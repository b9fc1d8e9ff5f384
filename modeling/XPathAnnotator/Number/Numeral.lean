/-
**Numbers in text.**

How XPath reads a number (`ofText`: blanks, an optional minus sign, digits with an optional fraction,
and not a number for anything else) and how it writes one (`toText`: without exponent, an integer without
a fraction, both zeros as `0`). `shown` is the form of a number in messages, which keeps a `.0` on
integers and uses an exponent from `1e+16` up and below `0.0001`.
-/

import XPathAnnotator.Number.Shortest
import XPathAnnotator.Text.Blank
import XPathAnnotator.Text.Word

namespace XPathAnnotator.Number

open XPathAnnotator.Text

/-- The value that stands for what is not a number. -/
def notANumber : Float := 0.0 / 0.0

/-- Positive infinity. -/
def infinity : Float := 1.0 / 0.0

/-- The value of a row of decimal digits. -/
def digitsValue (digits : List Char) : Nat :=
  digits.foldl (fun value c => value * 10 + digitValue c) 0

/-- The whole and fractional digits of an unsigned numeral: digits with an optional fraction, or a
point followed by digits. -/
def splitNumeral? (cs : List Char) : Option (List Char × List Char) :=
  let whole := cs.takeWhile isDigit
  match whole, cs.dropWhile isDigit with
  | [], '.' :: rest => if !rest.isEmpty && rest.all isDigit then some ([], rest) else none
  | _ :: _, [] => some (whole, [])
  | _ :: _, '.' :: rest => if rest.all isDigit then some (whole, rest) else none
  | _, _ => none

/-- The number nearest to the one that whole and fractional digits denote. -/
def ofDigits (whole fraction : List Char) : Float :=
  Float.ofScientific (digitsValue (whole ++ fraction)) true fraction.length

/-- The number that a numeral denotes, without the blanks around it. -/
def ofNumeral (cs : List Char) : Float :=
  let negative := cs.head? == some '-'
  match splitNumeral? (if negative then cs.tail else cs) with
  | none => notANumber
  | some (whole, fraction) =>
    let size := ofDigits whole fraction
    if negative then -size else size

/-- The number that a text denotes in XPath; not a number if it is no numeral. -/
def ofText (text : String) : Float :=
  ofNumeral (trimBlanks text).toList

/-- The digits of a decimal with its point at a position counted from the first digit, and nothing
after the point for an integer. -/
def positional (digits : List Char) (point : Int) : List Char × List Char :=
  if point ≤ 0 then (['0'], List.replicate (-point).toNat '0' ++ digits)
  else if (digits.length : Int) ≤ point then
    (digits ++ List.replicate (point.toNat - digits.length) '0', [])
  else (digits.take point.toNat, digits.drop point.toNat)

/-- The shortest digits of a number that is not zero, and the position of the point among them. -/
def shortestDigits (d : Dyadic) : List Char × Int :=
  let decimal := shortest d
  let digits := Nat.toDigits 10 decimal.digits
  (digits, digits.length + decimal.exponent)

/-- The form of a number in XPath. -/
def toText (x : Float) : String :=
  match Dyadic.ofFloat? x with
  | none => if x.isNaN then "NaN" else if x > 0 then "Infinity" else "-Infinity"
  | some d =>
    if d.mantissa == 0 then "0"
    else
      let (digits, point) := shortestDigits d
      let (whole, fraction) := positional digits point
      let sign := if d.negative then ['-'] else []
      String.ofList (sign ++ whole ++ if fraction.isEmpty then [] else '.' :: fraction)

/-- A number with one digit before the point, the others after it, and a power of ten. -/
def scientific (digits : List Char) (point : Int) : List Char :=
  let power := point - 1
  let size := Nat.toDigits 10 power.natAbs
  let padded := if size.length < 2 then '0' :: size else size
  digits.take 1 ++ (if digits.length < 2 then [] else '.' :: digits.drop 1) ++
    ['e', if power < 0 then '-' else '+'] ++ padded

/-- The form of a number in messages. -/
def shown (x : Float) : String :=
  match Dyadic.ofFloat? x with
  | none => if x.isNaN then "nan" else if x > 0 then "inf" else "-inf"
  | some d =>
    let sign := if d.negative then ['-'] else []
    if d.mantissa == 0 then String.ofList (sign ++ ['0', '.', '0'])
    else
      let (digits, point) := shortestDigits d
      if point ≤ -4 || 16 < point then String.ofList (sign ++ scientific digits point)
      else
        let (whole, fraction) := positional digits point
        String.ofList (sign ++ whole ++ '.' :: if fraction.isEmpty then ['0'] else fraction)

end XPathAnnotator.Number
