/-
**Sets of code points.**

A set of characters is kept as the ascending array of its ranges, and a character is looked up by
bisection (`CodePoints.rangeOf?`, `CodePoints.contains`). The tables of character classes are values
of this type.
-/

namespace XPathAnnotator.Text

/-- A set of code points: its ranges `(first, last)`, disjoint and in ascending order. -/
structure CodePoints where
  ranges : Array (Nat × Nat)

namespace CodePoints

/-- The range that holds a code point, sought among the ranges from `low` up to `high`. -/
def rangeBetween? (set : CodePoints) (code low high : Nat) : Option (Nat × Nat) :=
  if _nonempty : low < high then
    let middle := (low + high) / 2
    match set.ranges[middle]? with
    | none => none
    | some (first, last) =>
      if code < first then set.rangeBetween? code low middle
      else if last < code then set.rangeBetween? code (middle + 1) high
      else some (first, last)
  else none
termination_by high - low

/-- The range that holds a character. -/
def rangeOf? (set : CodePoints) (c : Char) : Option (Nat × Nat) :=
  set.rangeBetween? c.toNat 0 set.ranges.size

/-- Whether a character belongs to the set. -/
def contains (set : CodePoints) (c : Char) : Bool :=
  (set.rangeOf? c).isSome

end CodePoints

end XPathAnnotator.Text
