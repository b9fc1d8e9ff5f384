/-
**Arithmetic of XPath numbers.**

The operations on IEEE doubles that need more than the hardware's: `round` (halves toward positive
infinity), `floor`, `ceiling`, `divide` and `modulo` (the remainder of a truncating division), and the
conversion of integers of any size, `ofInt?`.
-/

import XPathAnnotator.Number.Dyadic

namespace XPathAnnotator.Number

/-- The number nearest to an integer, none if it is beyond the largest finite one. -/
def ofInt? (n : Int) : Option Float :=
  let x := Float.ofInt n
  if x.isInf then none else some x

/-- Whether a number is zero with a minus sign. -/
def isNegativeZero (x : Float) : Bool :=
  x == 0 && x.toBits != 0

/-- The greatest integer that is not above a number; infinities and what is not a number stay. -/
def floor (x : Float) : Float :=
  match Dyadic.ofFloat? x with
  | none => x
  | some d => Float.ofInt d.floor

/-- The least integer that is not below a number, with a negative zero between minus one and zero. -/
def ceiling (x : Float) : Float :=
  match Dyadic.ofFloat? x with
  | none => x
  | some d => if -1 < x && x < 0 then -0.0 else Float.ofInt d.ceil

/-- The integer closest to a number, of two the greater; a negative zero from minus one half to zero. -/
def round (x : Float) : Float :=
  if x.isNaN || x.isInf then x
  else if (-0.5 ≤ x && x < 0) || isNegativeZero x then -0.0
  else floor (x + 0.5)

/-- The quotient of two numbers. -/
def divide (x y : Float) : Float := x / y

/-- The remainder of a truncating division, which has the sign of the dividend. -/
def modulo (x y : Float) : Float :=
  match Dyadic.ofFloat? x, Dyadic.ofFloat? y with
  | some d, some e => if e.mantissa == 0 then 0.0 / 0.0 else (d.remainder e).toFloat
  | some _, none => if y.isNaN then y else x
  | none, _ => 0.0 / 0.0

end XPathAnnotator.Number
