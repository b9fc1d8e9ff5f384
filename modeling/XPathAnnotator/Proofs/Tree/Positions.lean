/-
**Positions.**

A tree that is built as a whole numbers its nodes. In a positioned forest the nodes of one such tree stand
below one root, and their positions rise with their addresses. A tree that is growing gets its next node
behind all others, so the next number is right.

* `Positioned` — positions agree with addresses; `Positioned.alike`, `Positioned.attached` — they still do
  after a change;
* `Growing` — all nodes of a tree stand before a limit, where the next node comes;
* `Growing.place` — numbering the node at the limit.
-/

import Mathlib
import XPathAnnotator.Proofs.Tree.Changes
import XPathAnnotator.Tree.Build

namespace XPathAnnotator

namespace Forest

/-- A forest whose positions agree with the addresses: in a tree that was built as a whole all nodes have one
root, and no position is above the total of the tree. -/
structure Positioned (f : Forest) : Prop where
  counted : ∀ id T, f.tree? (.item id) = some T →
    ∃ p status, f.position? (.item id) = some p ∧ f.trees[T]? = some status ∧ p ≤ status.total
  ordered : ∀ a b T p q, f.tree? (.item a) = some T → f.tree? (.item b) = some T →
    f.position? (.item a) = some p → f.position? (.item b) = some q →
    f.root (.item a) = f.root (.item b) ∧ (p < q ↔ f.address (.item a) < f.address (.item b))

/-- The tree `T` is growing: all of its nodes have the root `r`, and their addresses are below a limit. -/
structure Growing (f : Forest) (T : Nat) (r : Node) (limit : List Nat) : Prop where
  linked : f.Linked
  positioned : f.Positioned
  planted : T < f.trees.size
  below : ∀ id, f.tree? (.item id) = some T → f.root (.item id) = r ∧ f.address (.item id) < limit

variable {f g : Forest}

/-! ### Changed forests -/

theorem Positioned.alike (positioned : f.Positioned) (linked : f.Linked) (alike : f.Alike g)
    (labels : f.SameLabels g) : g.Positioned where
  counted id T tree := by
    rw [labels.tree?] at tree
    rw [labels.position?, labels.trees]
    exact positioned.counted id T tree
  ordered a b T p q treeA treeB posA posB := by
    rw [labels.tree?] at treeA treeB
    rw [labels.position?] at posA posB
    rw [alike.root linked, alike.root linked, alike.address linked, alike.address linked]
    exact positioned.ordered a b T p q treeA treeB posA posB

theorem Positioned.attached (positioned : f.Positioned) (linked : f.Linked) {p c : Nat}
    (attached : f.Attached g p c) (labels : f.SameLabels g) : g.Positioned where
  counted id T tree := by
    rw [labels.tree?] at tree
    rw [labels.position?, labels.trees]
    exact positioned.counted id T tree
  ordered a b T i j treeA treeB posA posB := by
    rw [labels.tree?] at treeA treeB
    rw [labels.position?] at posA posB
    obtain ⟨root, order⟩ := positioned.ordered a b T i j treeA treeB posA posB
    by_cases under : f.root (.item a) = .item c
    · obtain ⟨rootA, addressA⟩ := attached.below linked under
      obtain ⟨rootB, addressB⟩ := attached.below linked (root ▸ under)
      rw [rootA, rootB, addressA, addressB, append_left_lt_iff]
      exact ⟨rfl, order⟩
    · obtain ⟨rootA, addressA⟩ := attached.outside linked under
      obtain ⟨rootB, addressB⟩ := attached.outside linked (root ▸ under)
      rw [rootA, rootB, addressA, addressB]
      exact ⟨root, order⟩

theorem Growing.alike {T : Nat} {r : Node} {limit : List Nat} (growing : f.Growing T r limit)
    (alike : f.Alike g) (labels : f.SameLabels g) : g.Growing T r limit where
  linked := alike.linked growing.linked
  positioned := growing.positioned.alike growing.linked alike labels
  planted := by
    rw [labels.trees]
    exact growing.planted
  below id tree := by
    rw [labels.tree?] at tree
    rw [alike.root growing.linked, alike.address growing.linked]
    exact growing.below id tree

theorem Growing.attached {T : Nat} {r : Node} {limit : List Nat} (growing : f.Growing T r limit)
    {p c : Nat} (attached : f.Attached g p c) (labels : f.SameLabels g) (other : r ≠ .item c) :
    g.Growing T r limit where
  linked := attached.linked growing.linked
  positioned := growing.positioned.attached growing.linked attached labels
  planted := by
    rw [labels.trees]
    exact growing.planted
  below id tree := by
    rw [labels.tree?] at tree
    obtain ⟨root, less⟩ := growing.below id tree
    obtain ⟨sameRoot, sameAddress⟩ := attached.outside growing.linked (root ▸ other)
    rw [sameRoot, sameAddress]
    exact ⟨root, less⟩

theorem Growing.mono {T : Nat} {r : Node} {limit further : List Nat} (growing : f.Growing T r limit)
    (more : limit ≤ further) : f.Growing T r further :=
  ⟨growing.linked, growing.positioned, growing.planted, fun id tree =>
    ⟨(growing.below id tree).1, (growing.below id tree).2.trans_le more⟩⟩

/-! ### Numbering -/

section Place

variable {T id : Nat}

theorem alike_place : f.Alike (f.place T id) := by
  have alike : f.Alike (f.update id fun record =>
      { record with tree := some T, position := some ((f.trees.getD T default).total + 1) }) :=
    alike_update (fun _ => rfl) (fun _ => rfl) (fun _ => rfl) (fun _ => rfl) fun _ => rfl
  exact ⟨alike.size, alike.parent?, alike.index, alike.kind, alike.children, alike.attributes⟩

theorem size_place : (f.place T id).nodes.size = f.nodes.size := size_update _ _

theorem record?_place (T id k : Nat) : (f.place T id).record? k =
    if id = k then (f.record? k).map fun record =>
      { record with tree := some T, position := some ((f.trees.getD T default).total + 1) }
    else f.record? k := record?_update _ _ _

theorem label_place_other {k : Nat} (other : k ≠ id) :
    (f.place T id).tree? (.item k) = f.tree? (.item k) ∧
      (f.place T id).position? (.item k) = f.position? (.item k) := by
  have same : (f.place T id).record? k = f.record? k := by
    rw [record?_place, if_neg (Ne.symm other)]
  constructor
  · show ((f.place T id).record? k).bind NodeRecord.tree = (f.record? k).bind NodeRecord.tree
    rw [same]
  · show ((f.place T id).record? k).bind NodeRecord.position = (f.record? k).bind NodeRecord.position
    rw [same]

theorem label_place (inside : id < f.nodes.size) :
    (f.place T id).tree? (.item id) = some T ∧
      (f.place T id).position? (.item id) = some ((f.trees.getD T default).total + 1) := by
  have found : f.record? id = some f.nodes[id] := Array.getElem?_eq_getElem inside
  have placed := record?_place (f := f) T id id
  rw [if_pos rfl, found] at placed
  constructor
  · show ((f.place T id).record? id).bind NodeRecord.tree = _
    rw [placed]
    rfl
  · show ((f.place T id).record? id).bind NodeRecord.position = _
    rw [placed]
    rfl

theorem trees_place (k : Nat) : (f.place T id).trees[k]? =
    if T = k then (f.trees[k]?).map fun status =>
      { status with total := (f.trees.getD T default).total + 1 }
    else f.trees[k]? := Array.getElem?_modify

theorem total_eq {status : TreeStatus} (found : f.trees[T]? = some status) :
    (f.trees.getD T default).total = status.total := by
  rw [Array.getD_eq_getD_getElem?, found]
  rfl

/-- The next number of a tree is above all others in it. -/
theorem Growing.position_lt {r : Node} {limit : List Nat} (growing : f.Growing T r limit)
    (inside : id < f.nodes.size) {k p q : Nat} (other : k ≠ id)
    (tree : (f.place T id).tree? (.item k) = some T) (pos : (f.place T id).position? (.item k) = some p)
    (new : (f.place T id).position? (.item id) = some q) : p < q := by
  rw [(label_place_other other).1] at tree
  rw [(label_place_other other).2] at pos
  obtain ⟨p', status, pos', found, small⟩ := growing.positioned.counted k T tree
  obtain rfl := Option.some.inj (pos.symm.trans pos')
  rw [(label_place inside).2, total_eq found] at new
  obtain rfl := Option.some.inj new
  exact Nat.lt_succ_of_le small

/-- Numbering counts. -/
theorem Growing.counted_place {r : Node} {limit : List Nat} (growing : f.Growing T r limit)
    (inside : id < f.nodes.size) {k T' : Nat} (tree : (f.place T id).tree? (.item k) = some T') :
    ∃ p status, (f.place T id).position? (.item k) = some p ∧ (f.place T id).trees[T']? = some status ∧
      p ≤ status.total := by
  rw [trees_place]
  by_cases same : k = id
  · subst same
    obtain ⟨treeNew, posNew⟩ := label_place (T := T) inside
    obtain rfl : T = T' := Option.some.inj (treeNew.symm.trans tree)
    rw [if_pos rfl, Array.getElem?_eq_getElem growing.planted]
    exact ⟨_, _, posNew, rfl, le_rfl⟩
  · rw [(label_place_other same).1] at tree
    rw [(label_place_other same).2]
    obtain ⟨p, status, pos, found, small⟩ := growing.positioned.counted k T' tree
    by_cases grown : T = T'
    · subst grown
      rw [if_pos rfl, found, total_eq found]
      exact ⟨p, _, pos, rfl, Nat.le_succ_of_le small⟩
    · rw [if_neg grown]
      exact ⟨p, status, pos, found, small⟩

/-- **Numbering a node behind all others** keeps the positions in the order of the addresses. -/
theorem Growing.place {r : Node} {limit further : List Nat} (growing : f.Growing T r limit)
    (inside : id < f.nodes.size) (root : f.root (.item id) = r) (address : f.address (.item id) = limit)
    (more : limit < further) : (f.place T id).Growing T r further := by
  have still : f.Alike (f.place T id) := alike_place
  have treeNew := (label_place (T := T) inside).1
  have below : ∀ k, k ≠ id → (f.place T id).tree? (.item k) = some T →
      f.root (.item k) = r ∧ f.address (.item k) < limit := by
    intro k other tree
    rw [(label_place_other other).1] at tree
    exact growing.below k tree
  refine ⟨still.linked growing.linked, ⟨fun k T' tree => growing.counted_place inside tree, ?_⟩, ?_, ?_⟩
  · intro a b T' p q treeA treeB posA posB
    rw [still.root growing.linked, still.root growing.linked, still.address growing.linked,
      still.address growing.linked]
    by_cases newA : a = id
    · subst newA
      obtain rfl : T = T' := Option.some.inj (treeNew.symm.trans treeA)
      by_cases newB : b = a
      · subst newB
        obtain rfl : p = q := Option.some.inj (posA.symm.trans posB)
        exact ⟨rfl, iff_of_false (Nat.lt_irrefl _) (lt_irrefl _)⟩
      · obtain ⟨rootB, less⟩ := below b newB treeB
        have small := growing.position_lt inside newB treeB posB posA
        rw [root, rootB, address]
        exact ⟨rfl, iff_of_false (Nat.lt_asymm small) less.asymm⟩
    · by_cases newB : b = id
      · subst newB
        obtain rfl : T = T' := Option.some.inj (treeNew.symm.trans treeB)
        obtain ⟨rootA, less⟩ := below a newA treeA
        have small := growing.position_lt inside newA treeA posA posB
        rw [root, rootA, address]
        exact ⟨rfl, iff_of_true small less⟩
      · rw [(label_place_other newA).1] at treeA
        rw [(label_place_other newB).1] at treeB
        rw [(label_place_other newA).2] at posA
        rw [(label_place_other newB).2] at posB
        exact growing.positioned.ordered a b T' p q treeA treeB posA posB
  · show T < (f.trees.modify T _).size
    rw [Array.size_modify]
    exact growing.planted
  · intro k tree
    rw [still.root growing.linked, still.address growing.linked]
    by_cases same : k = id
    · rw [same, root, address]
      exact ⟨rfl, more⟩
    · obtain ⟨rootK, less⟩ := below k same tree
      exact ⟨rootK, less.trans more⟩

end Place

/-! ### Planting -/

theorem alike_plant (uri : Option String) : f.Alike (f.plant uri).1 :=
  ⟨le_rfl, fun _ => rfl, fun _ => rfl, fun _ _ => rfl, fun _ => rfl, fun _ => rfl⟩

/-- A new tree has no nodes yet. -/
theorem growing_plant (linked : f.Linked) (positioned : f.Positioned) (uri : Option String) (r : Node) :
    (f.plant uri).1.Growing f.trees.size r [] := by
  have alike : f.Alike (f.plant uri).1 := alike_plant uri
  refine ⟨alike.linked linked, ⟨?_, ?_⟩, ?_, ?_⟩
  · intro id T tree
    obtain ⟨p, status, pos, found, small⟩ := positioned.counted id T tree
    refine ⟨p, status, pos, ?_, small⟩
    have planted : T < f.trees.size := (Array.getElem?_eq_some_iff.mp found).1
    show (f.trees.push _)[T]? = some status
    rw [Array.getElem?_push, if_neg (Nat.ne_of_lt planted)]
    exact found
  · intro a b T p q treeA treeB posA posB
    rw [alike.root linked, alike.root linked, alike.address linked, alike.address linked]
    exact positioned.ordered a b T p q treeA treeB posA posB
  · show f.trees.size < (f.trees.push _).size
    rw [Array.size_push]
    exact Nat.lt_succ_self _
  · intro id tree
    obtain ⟨p, status, -, found, -⟩ := positioned.counted id f.trees.size tree
    have planted : f.trees.size < f.trees.size := (Array.getElem?_eq_some_iff.mp found).1
    exact absurd planted (Nat.lt_irrefl _)

end Forest

end XPathAnnotator
