/-
**The shortest decimal that reads back.**

A positive finite number is written with the fewest decimal digits that still read back as the same
number. The reals that round to it form an interval, whose ends belong to it when the mantissa is
even. For one digit, two digits and so on, the two neighbours of the number on the decimal grid are
tested; the first grid with a neighbour in the interval wins, and of two neighbours the nearer one,
the even one on a tie.
-/

import XPathAnnotator.Number.Dyadic

namespace XPathAnnotator.Number

/-- The decimal `digits * 10 ^ exponent`. -/
structure Decimal where
  digits : Nat
  exponent : Int

/-- A nonnegative rational number, as a fraction. -/
structure Ratio where
  numerator : Nat
  denominator : Nat

namespace Ratio

/-- The ratio `n * base ^ exponent`. -/
def scaled (n base : Nat) (exponent : Int) : Ratio :=
  if exponent ≥ 0 then ⟨n * Nat.pow base exponent.toNat, 1⟩ else ⟨n, Nat.pow base (-exponent).toNat⟩

/-- Whether one ratio is at most another. -/
def le (a b : Ratio) : Bool :=
  a.numerator * b.denominator ≤ b.numerator * a.denominator

/-- Whether one ratio is less than another. -/
def lt (a b : Ratio) : Bool :=
  a.numerator * b.denominator < b.numerator * a.denominator

end Ratio

/-- The reals that round to a number. -/
structure RoundingInterval where
  low : Ratio
  high : Ratio
  closed : Bool

/-- Whether a ratio rounds to the number of an interval. -/
def RoundingInterval.contains (interval : RoundingInterval) (r : Ratio) : Bool :=
  if interval.closed then interval.low.le r && r.le interval.high
  else interval.low.lt r && r.lt interval.high

/-- The reals that round to a positive number. Below a power of two the numbers are twice as dense. -/
def RoundingInterval.of (d : Dyadic) : RoundingInterval :=
  let atPower := d.mantissa == twoTo 52 && d.exponent > -1074
  ⟨Ratio.scaled (4 * d.mantissa - if atPower then 1 else 2) 2 (d.exponent - 2),
    Ratio.scaled (4 * d.mantissa + 2) 2 (d.exponent - 2),
    d.mantissa % 2 == 0⟩

/-- The position of the decimal point before the first digit: the least `e`, sought upwards from
`guess`, with the ratio below `10 ^ e`. -/
def pointPosition (r : Ratio) (guess : Int) : Nat → Int
  | 0 => guess
  | fuel + 1 =>
    if r.lt (Ratio.scaled 1 10 guess) then guess else pointPosition r (guess + 1) fuel

/-- The neighbour of a ratio on the grid of step `10 ^ exponent` that lies in the interval. -/
def onGrid? (interval : RoundingInterval) (r : Ratio) (exponent : Int) : Option Decimal :=
  let step := Ratio.scaled 1 10 exponent
  let numerator := r.numerator * step.denominator
  let denominator := r.denominator * step.numerator
  let below := numerator / denominator
  let inside (n : Nat) : Bool := interval.contains (Ratio.scaled n 10 exponent)
  let twice := 2 * (numerator % denominator)
  let upper := denominator < twice || (denominator == twice && below % 2 == 1)
  match inside below, inside (below + 1) with
  | true, true => some ⟨if upper then below + 1 else below, exponent⟩
  | true, false => some ⟨below, exponent⟩
  | false, true => some ⟨below + 1, exponent⟩
  | false, false => none

/-- The first grid with a hit, from the grid of step `10 ^ exponent` on to finer ones. -/
def firstOnGrid (interval : RoundingInterval) (r : Ratio) (exponent : Int) : Nat → Decimal
  | 0 => ⟨0, 0⟩
  | fuel + 1 =>
    match onGrid? interval r exponent with
    | some decimal => decimal
    | none => firstOnGrid interval r (exponent - 1) fuel

/-- A decimal without zeros at the end of its digits. -/
def dropZeros (d : Decimal) : Nat → Decimal
  | 0 => d
  | fuel + 1 =>
    if d.digits != 0 && d.digits % 10 == 0 then dropZeros ⟨d.digits / 10, d.exponent + 1⟩ fuel
    else d

/-- The shortest decimal that reads back as the size of a finite number that is not zero. -/
def shortest (d : Dyadic) : Decimal :=
  let r := Ratio.scaled d.mantissa 2 d.exponent
  let binary := (Dyadic.bitLength d.mantissa : Int) + d.exponent
  let guess := (binary * 30103).fdiv 100000 - 1
  let point := pointPosition r guess 4
  dropZeros (firstOnGrid (RoundingInterval.of d) r (point - 1) 18) 20

end XPathAnnotator.Number
