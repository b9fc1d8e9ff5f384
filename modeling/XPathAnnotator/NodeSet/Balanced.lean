/-
**Balanced search trees.**

A binary tree that keeps values in an order and stays balanced: a node knows its depth, and after an
insertion the depths of its two sides differ by at most one, which single and double rotations restore.

* `Balanced.add?` — inserts a value, none if it is there already;
* `Balanced.toList` — the values in order;
* `Balanced.least?` — the first of them.
-/

namespace XPathAnnotator

/-- A tree of values, each node with the depth of its tree. -/
inductive Balanced (α : Type) where
  | empty
  | node (left : Balanced α) (value : α) (right : Balanced α) (depth : Nat)
deriving Inhabited

namespace Balanced

variable {α : Type}

/-- The depth of a tree. -/
def depth : Balanced α → Nat
  | empty => 0
  | node _ _ _ depth => depth

/-- The tree of a value and its two sides. -/
def join (left : Balanced α) (value : α) (right : Balanced α) : Balanced α :=
  node left value right (max left.depth right.depth + 1)

/-- The tree of one value. -/
def single (value : α) : Balanced α := join empty value empty

/-- Moves the root of the left side up. -/
def rotateRight (left : Balanced α) (value : α) (right : Balanced α) : Balanced α :=
  match left with
  | empty => join left value right
  | node outer above inner _ => join outer above (join inner value right)

/-- Moves the root of the right side up. -/
def rotateLeft (left : Balanced α) (value : α) (right : Balanced α) : Balanced α :=
  match right with
  | empty => join left value right
  | node inner above outer _ => join (join left value inner) above outer

/-- A left side whose own left side is not the shallower one. -/
def leanLeft : Balanced α → Balanced α
  | empty => empty
  | node left value right depth =>
    if left.depth < right.depth then rotateLeft left value right else node left value right depth

/-- A right side whose own right side is not the shallower one. -/
def leanRight : Balanced α → Balanced α
  | empty => empty
  | node left value right depth =>
    if right.depth < left.depth then rotateRight left value right else node left value right depth

/-- The tree of a value and two sides whose depths may differ by two. -/
def balance (left : Balanced α) (value : α) (right : Balanced α) : Balanced α :=
  if right.depth + 1 < left.depth then rotateRight left.leanLeft value right
  else if left.depth + 1 < right.depth then rotateLeft left value right.leanRight
  else join left value right

/-- A tree with one more value, none if the order finds an equal one. -/
def add? (order : α → α → Ordering) (new : α) : Balanced α → Option (Balanced α)
  | empty => some (single new)
  | node left value right _ =>
    match order new value with
    | .eq => none
    | .lt => (left.add? order new).map fun left => balance left value right
    | .gt => (right.add? order new).map fun right => balance left value right

/-- A tree with one more value, if it is not there already. -/
def add (order : α → α → Ordering) (tree : Balanced α) (new : α) : Balanced α :=
  (tree.add? order new).getD tree

/-- The tree of values added one after the other. -/
def ofList (order : α → α → Ordering) (values : List α) : Balanced α :=
  values.foldl (add order) empty

/-- The values of a tree in order. -/
def toList : Balanced α → List α
  | empty => []
  | node left value right _ => left.toList ++ value :: right.toList

/-- The first value of a tree. -/
def least? : Balanced α → Option α
  | empty => none
  | node empty value _ _ => some value
  | node left _ _ _ => left.least?

/-- The form of a tree in messages: the value at its root and its depth. -/
def shown (shownValue : α → String) : Balanced α → String
  | empty => "None"
  | node _ value _ depth => "AVLTree(" ++ shownValue value ++ ", depth=" ++ toString depth ++ ")"

end Balanced

end XPathAnnotator
