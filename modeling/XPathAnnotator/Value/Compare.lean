/-
**Comparison of values.**

`Value.compare` decides the six comparisons of XPath. A node-set compares by its members: the comparison
holds if it holds for the string value of one of them, read as a number if the other side is a number or
the comparison is one of order; with a truth value the whole set counts as one. Other values are compared
for equality as truth values, numbers or texts, whichever comes first among their types, and by order
always as numbers.
-/

import XPathAnnotator.Value.Basic

namespace XPathAnnotator

/-- A comparison of two values. -/
inductive Comparison where
  | equal
  | notEqual
  | less
  | greater
  | lessOrEqual
  | greaterOrEqual
deriving DecidableEq, Inhabited

namespace Comparison

/-- Whether a comparison is one of equality and not one of order. -/
def isEquality : Comparison → Bool
  | equal | notEqual => true
  | _ => false

/-- The comparison with its sides exchanged. -/
def converse : Comparison → Comparison
  | equal => equal
  | notEqual => notEqual
  | less => greater
  | greater => less
  | lessOrEqual => greaterOrEqual
  | greaterOrEqual => lessOrEqual

/-- A comparison of two numbers; what is not a number is unequal and without order. -/
def numbers : Comparison → Float → Float → Bool
  | equal, x, y => x == y
  | notEqual, x, y => x != y
  | less, x, y => x < y
  | greater, x, y => y < x
  | lessOrEqual, x, y => x ≤ y
  | greaterOrEqual, x, y => y ≤ x

/-- A comparison of two truth values, false being the lesser. -/
def truths : Comparison → Bool → Bool → Bool
  | equal, p, q => p == q
  | notEqual, p, q => p != q
  | less, p, q => !p && q
  | greater, p, q => p && !q
  | lessOrEqual, p, q => !p || q
  | greaterOrEqual, p, q => p || !q

/-- A comparison of two texts: as such for equality, by their numbers for order. -/
def texts : Comparison → String → String → Bool
  | equal, s, t => s == t
  | notEqual, s, t => s != t
  | c, s, t => c.numbers (Number.ofText s) (Number.ofText t)

end Comparison

namespace Value

/-- A comparison of two values that are no node-sets. -/
def compareSimple (f : Forest) (c : Comparison) (left right : Value) : Bool :=
  if !c.isEquality then c.numbers (left.toNumber f) (right.toNumber f)
  else match left, right with
    | truth p, _ => c.truths p right.toTruth
    | _, truth q => c.truths left.toTruth q
    | number x, _ => c.numbers x (right.toNumber f)
    | _, number y => c.numbers (left.toNumber f) y
    | _, _ => c.texts (left.toText f) (right.toText f)

/-- A comparison of a node-set with a value that is none. -/
def compareNodes (f : Forest) (c : Comparison) (set : NodeSet) (right : Value) : Bool :=
  match right with
  | truth q => c.truths (nodes set).toTruth q
  | number y => (set.stringValues f).any fun s => c.numbers (Number.ofText s) y
  | right => (set.stringValues f).any fun s => c.texts s (right.toText f)

/-- A comparison of two values. -/
def compare (f : Forest) (c : Comparison) (left right : Value) : Bool :=
  match left, right with
  | nodes s, nodes t =>
    (s.stringValues f).any fun x => (t.stringValues f).any fun y => c.texts x y
  | nodes s, right => compareNodes f c s right
  | left, nodes t => compareNodes f c.converse t left
  | left, right => compareSimple f c left right

end Value

end XPathAnnotator
