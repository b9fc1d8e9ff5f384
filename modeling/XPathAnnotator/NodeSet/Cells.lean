/-
**Search trees that are changed in place.**

The nodes of a search tree are kept in cells, each with the references of its two sides. A rotation moves the contents
of cells, so that the tree at a reference stays there while it is balanced.

* `Cells.plant` — a tree of one value at a new reference;
* `Cells.add` — inserts a value into the tree at a reference, and tells whether it was not there yet;
* `Cells.tree` — the tree that stands at a reference.
-/

import XPathAnnotator.NodeSet.Balanced

namespace XPathAnnotator

/-- A node of a search tree: its value, the references of its sides, and the depth of its tree. -/
structure Cell (α : Type) where
  value : α
  left : Option Nat
  right : Option Nat
  depth : Nat

/-- The nodes of search trees by their references. -/
abbrev Cells (α : Type) := Array (Cell α)

namespace Cells

variable {α : Type}

/-- The cell of a side with its reference, none if the side is missing. -/
def side? (cells : Cells α) (side : Option Nat) : Option (Nat × Cell α) := do
  let r ← side
  let cell ← cells[r]?
  return (r, cell)

/-- The depth of a side, zero if it is missing. -/
def depthAt (cells : Cells α) (side : Option Nat) : Nat := (cells.side? side).elim 0 fun (_, cell) => cell.depth

/-- Puts a value between two sides into the cell at a reference. -/
def put (cells : Cells α) (r : Nat) (left : Option Nat) (value : α) (right : Option Nat) : Cells α :=
  cells.setIfInBounds r ⟨value, left, right, max (cells.depthAt left) (cells.depthAt right) + 1⟩

/-- Moves the root of the left side up, into the cell at the reference. -/
def rotateRight (cells : Cells α) (r : Nat) : Cells α :=
  match cells[r]? with
  | none => cells
  | some top =>
    match cells.side? top.left with
    | none => cells
    | some (l, inner) =>
      (cells.put l inner.right top.value top.right).put r inner.left inner.value (some l)

/-- Moves the root of the right side up, into the cell at the reference. -/
def rotateLeft (cells : Cells α) (r : Nat) : Cells α :=
  match cells[r]? with
  | none => cells
  | some top =>
    match cells.side? top.right with
    | none => cells
    | some (l, inner) =>
      (cells.put l top.left top.value inner.left).put r (some l) inner.value inner.right

/-- Makes the left side of a left side not the shallower one. -/
def leanLeft (cells : Cells α) (side : Option Nat) : Cells α :=
  match cells.side? side with
  | none => cells
  | some (l, cell) => if cells.depthAt cell.left < cells.depthAt cell.right then cells.rotateLeft l else cells

/-- Makes the right side of a right side not the shallower one. -/
def leanRight (cells : Cells α) (side : Option Nat) : Cells α :=
  match cells.side? side with
  | none => cells
  | some (l, cell) => if cells.depthAt cell.right < cells.depthAt cell.left then cells.rotateRight l else cells

/-- Rotates the tree at a reference whose sides differ in depth by more than one. -/
def balance (cells : Cells α) (r : Nat) : Cells α :=
  match cells[r]? with
  | none => cells
  | some top =>
    if cells.depthAt top.right + 1 < cells.depthAt top.left then (cells.leanLeft top.left).rotateRight r
    else if cells.depthAt top.left + 1 < cells.depthAt top.right then (cells.leanRight top.right).rotateLeft r
    else cells

/-- Corrects the depth in the cell at a reference. -/
def updateDepth (cells : Cells α) (r : Nat) : Cells α :=
  match cells[r]? with
  | none => cells
  | some top => cells.put r top.left top.value top.right

/-- The cell of a value without sides. -/
def single (value : α) : Cell α := ⟨value, none, none, 1⟩

/-- What becomes of the tree at a reference when a value has been inserted into one of its sides, or has not. -/
def rebalanced (r : Nat) : Bool × Cells α → Bool × Cells α
  | (true, cells) => (true, (cells.balance r).updateDepth r)
  | (false, cells) => (false, cells)

/-- Inserts a value into the tree at a reference, going down a bounded number of cells, and tells whether it was not
there yet. -/
def addWithin (order : α → α → Ordering) (new : α) : Nat → Cells α → Nat → Bool × Cells α
  | 0, cells, _ => (false, cells)
  | fuel + 1, cells, r =>
    match cells[r]? with
    | none => (false, cells)
    | some top =>
      match order new top.value with
      | .eq => (false, cells)
      | .lt =>
        match top.left with
        | none => (true, put (cells.push (single new)) r (some cells.size) top.value top.right)
        | some l => rebalanced r (addWithin order new fuel cells l)
      | .gt =>
        match top.right with
        | none => (true, put (cells.push (single new)) r top.left top.value (some cells.size))
        | some l => rebalanced r (addWithin order new fuel cells l)

/-- Inserts a value into the tree at a reference, and tells whether it was not there yet. A way down passes no cell
twice. -/
def add (order : α → α → Ordering) (cells : Cells α) (r : Nat) (new : α) : Bool × Cells α :=
  addWithin order new cells.size cells r

/-- Inserts values one after the other. -/
def addAll (order : α → α → Ordering) (cells : Cells α) (r : Nat) (values : List α) : Cells α :=
  values.foldl (fun cells value => (cells.add order r value).2) cells

/-- A tree of one value at a new reference. -/
def plant (cells : Cells α) (value : α) : Nat × Cells α := (cells.size, cells.push (single value))

/-- The tree of a side, down to a bounded depth. -/
def treeWithin (cells : Cells α) : Nat → Option Nat → Balanced α
  | 0, _ => .empty
  | fuel + 1, side =>
    match cells.side? side with
    | none => .empty
    | some (_, cell) =>
      .node (treeWithin cells fuel cell.left) cell.value (treeWithin cells fuel cell.right) cell.depth

/-- The tree that stands at a reference. -/
def tree (cells : Cells α) (r : Nat) : Balanced α := cells.treeWithin cells.size (some r)

end Cells

end XPathAnnotator
