/-
**Linked forests.**

In a linked forest the records agree with each other: children and attributes know their parent and their
place there, a node with a parent stands among its children or its attributes, and no node is above itself.

* `Linked.ancestors_eq`, `Linked.root_eq` — ancestors and roots climb from parent to parent;
* `Linked.climb` — what holds of a node if it holds of its parent holds of every node;
* `address` — the spots on the way down from the root to a node, with `Linked.address_eq`.
-/

import Mathlib
import XPathAnnotator.Tree.Order

namespace XPathAnnotator

namespace Forest

/-- Whether a node is among the attributes of its parent. -/
def listed (f : Forest) (n : Node) : Bool :=
  match f.parent? n with
  | none => false
  | some p => (f.attributes (.item p)).contains n

/-- A forest whose records agree with each other. -/
structure Linked (f : Forest) : Prop where
  ofChild : ∀ (p i : Nat) (c : Node), (f.children (.item p))[i]? = some c →
    ∃ id, c = .item id ∧ f.parent? c = some p ∧ f.index c = i ∧ f.listed c = false
  ofAttribute : ∀ (p i : Nat) (c : Node), (f.attributes (.item p))[i]? = some c →
    ∃ id, c = .item id ∧ f.parent? c = some p ∧ f.index c = i ∧ f.kind c = NodeKind.attribute
  held : ∀ (id p : Nat), f.parent? (.item id) = some p →
    (f.children (.item p))[f.index (.item id)]? = some (.item id) ∨
      (f.attributes (.item p))[f.index (.item id)]? = some (.item id)
  height : ∃ height : Nat → Nat, ∀ id p : Nat, f.parent? (.item id) = some p → height p < height id

variable {f : Forest}

theorem listed_eq_true {n : Node} {p : Nat} (parent : f.parent? n = some p) :
    f.listed n = true ↔ n ∈ f.attributes (.item p) := by
  unfold listed
  rw [parent]
  exact Array.contains_iff_mem

/-! ### Nodes with a record -/

theorem lt_size_of_parent? {id p : Nat} (parent : f.parent? (.item id) = some p) : id < f.nodes.size := by
  by_contra beyond
  simp [parent?, record?, Array.getElem?_eq_none (Nat.le_of_not_lt beyond)] at parent

theorem lt_size_of_mem_children {p i : Nat} {c : Node} (found : (f.children (.item p))[i]? = some c) :
    p < f.nodes.size := by
  by_contra beyond
  simp [children, record?, Array.getElem?_eq_none (Nat.le_of_not_lt beyond)] at found

theorem lt_size_of_mem_attributes {p i : Nat} {c : Node} (found : (f.attributes (.item p))[i]? = some c) :
    p < f.nodes.size := by
  by_contra beyond
  simp [attributes, element?, record?, Array.getElem?_eq_none (Nat.le_of_not_lt beyond)] at found

namespace Linked

theorem parent_lt_size (linked : f.Linked) {id p : Nat} (parent : f.parent? (.item id) = some p) :
    p < f.nodes.size := by
  rcases linked.held _ _ parent with found | found
  · exact lt_size_of_mem_children found
  · exact lt_size_of_mem_attributes found

/-- **Induction along the parents.** -/
theorem climb (linked : f.Linked) {P : Node → Prop}
    (step : ∀ n, (∀ p, f.parent? n = some p → P (.item p)) → P n) (n : Node) : P n := by
  obtain ⟨height, lower⟩ := linked.height
  have items : ∀ id, P (.item id) := by
    intro id
    induction measured : height id using Nat.strong_induction_on generalizing id with
    | _ k ih =>
      refine step _ fun p parent => ih (height p) ?_ p rfl
      rw [← measured]
      exact lower _ _ parent
  exact step n fun p _ => items p

end Linked

/-! ### Ancestors -/

theorem ancestorsWithin_eq_nil {n : Node} (parent : f.parent? n = none) (fuel : Nat) :
    f.ancestorsWithin fuel n = [] := by
  cases fuel with
  | zero => rfl
  | succ fuel => simp only [ancestorsWithin, parent]

theorem ancestorsWithin_eq_cons {n : Node} {p : Nat} (parent : f.parent? n = some p) (fuel : Nat) :
    f.ancestorsWithin (fuel + 1) n = .item p :: f.ancestorsWithin fuel (.item p) := by
  simp only [ancestorsWithin, parent]

namespace Linked

/-- The ancestors of a record are different records below it in height. -/
theorem exists_ids (linked : f.Linked) {height : Nat → Nat}
    (lower : ∀ id p : Nat, f.parent? (.item id) = some p → height p < height id) (fuel id : Nat) :
    ∃ ids : List Nat, f.ancestorsWithin fuel (.item id) = ids.map Node.item ∧ ids.Nodup ∧
      ∀ k ∈ ids, k < f.nodes.size ∧ height k < height id := by
  induction fuel generalizing id with
  | zero => exact ⟨[], rfl, List.nodup_nil, fun _ member => absurd member List.not_mem_nil⟩
  | succ fuel ih =>
    cases parent : f.parent? (.item id) with
    | none =>
      exact ⟨[], ancestorsWithin_eq_nil parent _, List.nodup_nil,
        fun _ member => absurd member List.not_mem_nil⟩
    | some p =>
      obtain ⟨ids, same, distinct, below⟩ := ih p
      refine ⟨p :: ids, by rw [ancestorsWithin_eq_cons parent, same]; rfl, List.nodup_cons.mpr ⟨fun again => ?_, distinct⟩, ?_⟩
      · exact absurd (below p again).2 (Nat.lt_irrefl _)
      · intro k member
        rcases List.mem_cons.mp member with rfl | member
        · exact ⟨linked.parent_lt_size parent, lower _ _ parent⟩
        · exact ⟨(below k member).1, (below k member).2.trans (lower _ _ parent)⟩

/-- A record has fewer ancestors than there are records. -/
theorem length_ancestorsWithin_lt (linked : f.Linked) {id : Nat} (inside : id < f.nodes.size) (fuel : Nat) :
    (f.ancestorsWithin fuel (.item id)).length < f.nodes.size := by
  obtain ⟨height, lower⟩ := linked.height
  obtain ⟨ids, same, distinct, below⟩ := linked.exists_ids lower fuel id
  have new : (id :: ids).Nodup :=
    List.nodup_cons.mpr ⟨fun again => absurd (below id again).2 (Nat.lt_irrefl _), distinct⟩
  have inRange : id :: ids ⊆ List.range f.nodes.size := by
    intro k member
    rcases List.mem_cons.mp member with rfl | member
    · exact List.mem_range.mpr inside
    · exact List.mem_range.mpr (below k member).1
  have short := (List.subperm_of_subset new inRange).length_le
  rw [List.length_cons, List.length_range] at short
  rw [same, List.length_map]
  exact short

end Linked

/-- Ancestors that were not cut off do not change with more fuel. -/
theorem ancestorsWithin_succ_eq {fuel : Nat} {n : Node} (whole : (f.ancestorsWithin fuel n).length < fuel) :
    f.ancestorsWithin (fuel + 1) n = f.ancestorsWithin fuel n := by
  induction fuel generalizing n with
  | zero => exact absurd whole (Nat.not_lt_zero _)
  | succ fuel ih =>
    cases parent : f.parent? n with
    | none => rw [ancestorsWithin_eq_nil parent, ancestorsWithin_eq_nil parent]
    | some p =>
      rw [ancestorsWithin_eq_cons parent, List.length_cons] at whole
      rw [ancestorsWithin_eq_cons parent, ancestorsWithin_eq_cons parent, ih (Nat.lt_of_succ_lt_succ whole)]

theorem ancestors_eq_nil {n : Node} (parent : f.parent? n = none) : f.ancestors n = [] :=
  ancestorsWithin_eq_nil parent _

namespace Linked

/-- **The ancestors of a node** are its parent and the ancestors of its parent. -/
theorem ancestors_eq (linked : f.Linked) {n : Node} {p : Nat} (parent : f.parent? n = some p) :
    f.ancestors n = .item p :: f.ancestors (.item p) := by
  have same : f.ancestorsWithin f.nodes.size (.item p) = f.ancestors (.item p) := by
    unfold ancestors
    cases above : f.parent? (.item p) with
    | none => rw [ancestorsWithin_eq_nil above _, ancestorsWithin_eq_nil above _]
    | some q =>
      exact (ancestorsWithin_succ_eq (linked.length_ancestorsWithin_lt (lt_size_of_parent? above) _)).symm
  rw [ancestors, ancestorsWithin_eq_cons parent, same]

theorem lineage_eq (linked : f.Linked) {n : Node} {p : Nat} (parent : f.parent? n = some p) :
    f.lineage n = n :: f.lineage (.item p) := by
  rw [lineage, linked.ancestors_eq parent]
  rfl

end Linked

/-! ### Roots -/

theorem root_eq_self {n : Node} (parent : f.parent? n = none) : f.root n = n := by
  rw [root, ancestors_eq_nil parent]
  rfl

theorem Linked.root_eq (linked : f.Linked) {n : Node} {p : Nat} (parent : f.parent? n = some p) :
    f.root n = f.root (.item p) := by
  rw [root, root, linked.ancestors_eq parent, List.getLastD_cons]

/-- Roots have no parent. -/
theorem Linked.parent?_root (linked : f.Linked) (n : Node) : f.parent? (f.root n) = none := by
  refine linked.climb (P := fun n => f.parent? (f.root n) = none) (fun n ih => ?_) n
  cases parent : f.parent? n with
  | none => rw [root_eq_self parent, parent]
  | some p =>
    rw [linked.root_eq parent]
    exact ih p parent

/-- The root of a node is on its way up. -/
theorem Linked.root_mem_lineage (linked : f.Linked) (n : Node) : f.root n ∈ f.lineage n := by
  refine linked.climb (P := fun n => f.root n ∈ f.lineage n) (fun n ih => ?_) n
  cases parent : f.parent? n with
  | none =>
    rw [root_eq_self parent]
    exact List.mem_cons_self
  | some p =>
    rw [linked.root_eq parent, linked.lineage_eq parent]
    exact List.mem_cons_of_mem _ (ih p parent)

/-! ### Addresses -/

/-- The place of a node under its parent: among the namespace nodes, the attributes or the children, and its
index there. -/
def spot (f : Forest) (n : Node) : List Nat :=
  match n with
  | .binding _ index => [0, index]
  | .item _ => [if f.listed n then 1 else 2, f.index n]

/-- The spots on the way down from the root to a node. -/
def address (f : Forest) (n : Node) : List Nat :=
  (f.lineage n).dropLast.reverse.flatMap f.spot

theorem address_eq_nil {n : Node} (parent : f.parent? n = none) : f.address n = [] := by
  rw [address, lineage, ancestors_eq_nil parent]
  rfl

theorem Linked.address_eq (linked : f.Linked) {n : Node} {p : Nat} (parent : f.parent? n = some p) :
    f.address n = f.address (.item p) ++ f.spot n := by
  have cut : (n :: f.lineage (.item p)).dropLast = n :: (f.lineage (.item p)).dropLast :=
    List.dropLast_cons_of_ne_nil (List.cons_ne_nil _ _)
  rw [address, address, linked.lineage_eq parent, cut, List.reverse_cons, List.flatMap_append,
    List.flatMap_singleton]

/-- The depth of a node in numbers: two for each ancestor. -/
theorem Linked.length_address (linked : f.Linked) (n : Node) :
    (f.address n).length = 2 * (f.ancestors n).length := by
  refine linked.climb (P := fun n => (f.address n).length = 2 * (f.ancestors n).length) (fun n ih => ?_) n
  cases parent : f.parent? n with
  | none => rw [address_eq_nil parent, ancestors_eq_nil parent]; rfl
  | some p =>
    have pair : (f.spot n).length = 2 := by cases n <;> rfl
    rw [linked.address_eq parent, linked.ancestors_eq parent, List.length_append, ih p parent, pair,
      List.length_cons]
    omega

end Forest

end XPathAnnotator
