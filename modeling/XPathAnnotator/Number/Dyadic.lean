/-
**Exact values of floating-point numbers.**

A finite number is a sign and `mantissa * 2 ^ exponent`. `Dyadic.ofFloat?` reads the three parts off the
bits, `Dyadic.toFloat` writes them back, and operations that have to be exact (`Dyadic.floor`,
`Dyadic.ceil`, `Dyadic.remainder`) work on naturals and integers in between.
-/

namespace XPathAnnotator.Number

/-- The power of two with an exponent. -/
def twoTo (exponent : Nat) : Nat := Nat.pow 2 exponent

/-- A finite binary number: its sign, and its size as a multiple of a power of two. -/
structure Dyadic where
  negative : Bool
  mantissa : Nat
  exponent : Int

namespace Dyadic

/-- The parts of a finite number, none for infinities and for what is not a number. -/
def ofFloat? (x : Float) : Option Dyadic :=
  let bits := x.toBits.toNat
  let fraction : Nat := bits % twoTo 52
  let field : Nat := bits / twoTo 52 % twoTo 11
  let negative := bits / twoTo 63 == 1
  if field == 2047 then none
  else if field == 0 then some ⟨negative, fraction, -1074⟩
  else some ⟨negative, twoTo 52 + fraction, (field : Int) - 1075⟩

/-- The number of binary digits of a natural number. -/
def bitLength (n : Nat) : Nat :=
  if n == 0 then 0 else n.log2 + 1

/-- The number with the given parts. Bits below the precision of the format are dropped. -/
def toFloat (d : Dyadic) : Float :=
  let sign := if d.negative then twoTo 63 else 0
  let length := bitLength d.mantissa
  let top := (length : Int) + d.exponent
  let shifted (places : Int) : Nat :=
    if places ≥ 0 then d.mantissa * twoTo places.toNat else d.mantissa / twoTo (-places).toNat
  let size :=
    if d.mantissa == 0 then 0
    else if top > 1024 then 2047 * twoTo 52
    else if top ≥ -1021 then
      (top + 1022).toNat * twoTo 52 + (shifted (53 - length) - twoTo 52)
    else shifted (d.exponent + 1074)
  Float.ofBits (UInt64.ofNat (sign + size))

/-- The size of a number rounded down to a natural number. -/
def wholePart (d : Dyadic) : Nat :=
  if d.exponent ≥ 0 then d.mantissa * twoTo d.exponent.toNat
  else d.mantissa / twoTo (-d.exponent).toNat

/-- Whether a number is an integer. -/
def isInteger (d : Dyadic) : Bool :=
  d.exponent ≥ 0 || d.mantissa % twoTo (-d.exponent).toNat == 0

/-- The greatest integer that is not above a number. -/
def floor (d : Dyadic) : Int :=
  if d.negative then
    -((d.wholePart : Int) + if d.isInteger then 0 else 1)
  else d.wholePart

/-- The least integer that is not below a number. -/
def ceil (d : Dyadic) : Int :=
  if d.negative then -(d.wholePart : Int)
  else (d.wholePart : Int) + if d.isInteger then 0 else 1

/-- The integer between a number and zero that is nearest to the number. -/
def truncate (d : Dyadic) : Int :=
  if d.negative then -(d.wholePart : Int) else d.wholePart

/-- What remains of `d` after taking away the size of a nonzero `e` as often as it fits; it has the
sign of `d`. -/
def remainder (d e : Dyadic) : Dyadic :=
  let common := min d.exponent e.exponent
  let scaled (f : Dyadic) : Nat := f.mantissa * twoTo (f.exponent - common).toNat
  ⟨d.negative, scaled d % scaled e, common⟩

end Dyadic

end XPathAnnotator.Number
