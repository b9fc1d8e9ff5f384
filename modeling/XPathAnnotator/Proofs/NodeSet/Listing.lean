/-
**Listing a node-set.**

A node-set holds each of its nodes once. When all of them are nodes of one tree, its listing holds the same
nodes in the order of the walk over that tree, and its first node is the first one listed.

* `Within` — node-sets of the nodes of a tree; `within_ofList`, `Within.union` — making them;
* `pairwise_toList_of_keyed`, `mem_toList_of_keyed` — listings of nodes that addresses tell apart;
* `Listed` — what is true of a listing;
* `Within.listed` — it is true of node-sets of the nodes of a tree.
-/

import Mathlib
import XPathAnnotator.NodeSet.Basic
import XPathAnnotator.Proofs.NodeSet.Sorting
import XPathAnnotator.Proofs.Tree.Subtrees

namespace XPathAnnotator

namespace NodeSet

/-- A node-set of distinct nodes of the tree with a root; a tree that it keeps was made for listing them. -/
structure Within (f : Forest) (r : Node) (s : NodeSet) : Prop where
  nodup : s.inOrderOfAddition.Nodup
  of : ∀ n ∈ s.inOrderOfAddition, f.Of r n
  kept : ∀ tree, s.tree = some tree → tree = Balanced.ofList f.order s.inOrderOfAddition

/-- What a listing in document order is: some of the nodes that the walk over a tree meets, in the order in which
it meets them, as many as the node-set holds and the same ones. The first node of the set comes first. -/
structure Listed (f : Forest) (r : Node) (s : NodeSet) : Prop where
  sublist : (s.toList f).Sublist (f.walk r)
  length : (s.toList f).length = s.size
  mem : ∀ n, n ∈ s.toList f ↔ s.contains n = true
  first : s.first? f = (s.toList f).head?

variable {f : Forest} {r : Node} {s t : NodeSet}

/-! ### Making node-sets -/

theorem contains_iff (s : NodeSet) (n : Node) : s.contains n = true ↔ n ∈ s.inOrderOfAddition := by
  unfold contains inOrderOfAddition
  rw [Array.contains_iff_mem, Array.mem_toList_iff]

theorem inOrderOfAddition_add (s : NodeSet) (n : Node) :
    (s.add n).inOrderOfAddition =
      if n ∈ s.inOrderOfAddition then s.inOrderOfAddition else s.inOrderOfAddition ++ [n] := by
  unfold add
  by_cases there : n ∈ s.inOrderOfAddition
  · rw [if_pos ((contains_iff s n).mpr there), if_pos there]
  · rw [if_neg (mt (contains_iff s n).mp there), if_neg there]
    exact Array.toList_push

theorem mem_add (s : NodeSet) (n m : Node) :
    m ∈ (s.add n).inOrderOfAddition ↔ m = n ∨ m ∈ s.inOrderOfAddition := by
  rw [inOrderOfAddition_add]
  split
  next there => exact ⟨.inr, fun met => met.elim (fun same => same ▸ there) id⟩
  next => rw [List.mem_append, List.mem_singleton, or_comm]

theorem mem_addAll (s : NodeSet) (nodes : List Node) (m : Node) :
    m ∈ (s.addAll nodes).inOrderOfAddition ↔ m ∈ nodes ∨ m ∈ s.inOrderOfAddition := by
  unfold addAll
  induction nodes generalizing s with
  | nil => simp
  | cons n nodes ih => rw [List.foldl_cons, ih, mem_add, List.mem_cons, or_left_comm, or_assoc]

theorem mem_ofList (nodes : List Node) (m : Node) :
    m ∈ (ofList nodes).inOrderOfAddition ↔ m ∈ nodes := by
  rw [ofList, mem_addAll]
  exact or_iff_left List.not_mem_nil

theorem Within.empty : NodeSet.empty.Within f r where
  nodup := List.nodup_nil
  of _ met := absurd met List.not_mem_nil
  kept _ same := absurd same.symm (Option.some_ne_none _)

theorem Within.add (within : s.Within f r) {n : Node} (ofN : f.Of r n) : (s.add n).Within f r := by
  by_cases there : n ∈ s.inOrderOfAddition
  · have same : s.add n = s := if_pos ((contains_iff s n).mpr there)
    rw [same]
    exact within
  · refine ⟨?_, fun m met => ?_, fun tree same => ?_⟩
    · rw [inOrderOfAddition_add, if_neg there]
      refine List.nodup_append.mpr ⟨within.nodup, List.nodup_singleton n, fun a metA b metB same => ?_⟩
      rw [List.mem_singleton] at metB
      exact there (metB ▸ same ▸ metA)
    · rcases (mem_add s n m).mp met with rfl | met
      · exact ofN
      · exact within.of m met
    · have fresh : (s.add n).tree = none := by
        unfold NodeSet.add
        rw [if_neg (mt (contains_iff s n).mp there)]
      rw [fresh] at same
      exact absurd same.symm (Option.some_ne_none _)

theorem Within.addAll (within : s.Within f r) {nodes : List Node} (of : ∀ n ∈ nodes, f.Of r n) :
    (s.addAll nodes).Within f r := by
  unfold NodeSet.addAll
  induction nodes generalizing s with
  | nil => exact within
  | cons n nodes ih =>
    exact ih (within.add (of n List.mem_cons_self)) fun m met => of m (List.mem_cons_of_mem _ met)

theorem within_ofList {nodes : List Node} (of : ∀ n ∈ nodes, f.Of r n) : (ofList nodes).Within f r :=
  Within.empty.addAll of

theorem Within.union (first : s.Within f r) (second : t.Within f r) : (s.union t).Within f r :=
  (within_ofList first.of).addAll second.of

/-! ### The listing -/

theorem Within.sorted_eq (within : s.Within f r) : s.sorted f = Balanced.ofList f.order s.inOrderOfAddition := by
  unfold sorted
  cases tree : s.tree with
  | none => rfl
  | some tree' => exact within.kept tree' tree

theorem tree_add (fresh : s.tree = none) (n : Node) : (s.add n).tree = none := by
  unfold add
  split
  · exact fresh
  · rfl

theorem sorted_ofList (nodes : List Node) :
    (ofList nodes).sorted f = Balanced.ofList f.order (ofList nodes).inOrderOfAddition := by
  have fresh : ∀ s : NodeSet, s.tree = none → (s.addAll nodes).tree = none := by
    unfold addAll
    induction nodes with
    | nil => exact fun s fresh => fresh
    | cons n nodes ih => exact fun s fresh => ih _ (tree_add fresh n)
  unfold sorted
  rw [show (ofList nodes).tree = none from fresh empty rfl]
  rfl

/-- Listing a set keeps it one of the nodes of the tree. -/
theorem Within.keep (within : s.Within f r) : (s.listed f).Within f r := by
  unfold NodeSet.listed
  split
  · exact within
  · refine ⟨within.nodup, within.of, fun tree same => ?_⟩
    rw [← Option.some.inj same]
    exact within.sorted_eq

theorem nodup_of_rising {nodes : List Node} (rising : nodes.Pairwise fun a b => f.address a < f.address b) :
    nodes.Nodup := by
  refine rising.imp fun less same => ?_
  rw [same] at less
  exact absurd less (lt_irrefl _)

theorem Within.first?_eq : s.first? f = (s.toList f).head? := by
  unfold first? toList
  by_cases small : s.size < 2
  · rw [if_pos small, if_pos small]
  · rw [if_neg small, if_neg small]
    exact Balanced.least?_eq _

section Keyed

variable {P : Node → Prop} (keyed : Balanced.Keyed f.order f.address P)
  (all : ∀ n ∈ s.inOrderOfAddition, P n)
  (made : s.sorted f = Balanced.ofList f.order s.inOrderOfAddition)

include keyed all made

theorem pairwise_toList_of_keyed : (s.toList f).Pairwise fun a b => f.address a < f.address b := by
  unfold toList
  by_cases small : s.size < 2
  · rw [if_pos small]
    have short : s.inOrderOfAddition.length < 2 := small
    match nodes : s.inOrderOfAddition, short with
    | [], _ => exact List.Pairwise.nil
    | [n], _ => exact List.pairwise_singleton _ n
  · rw [if_neg small, made]
    exact Balanced.pairwise_ofList keyed all

theorem mem_toList_of_keyed (n : Node) : n ∈ s.toList f ↔ n ∈ s.inOrderOfAddition := by
  unfold toList
  by_cases small : s.size < 2
  · rw [if_pos small]
  · rw [if_neg small, made]
    exact Balanced.mem_ofList keyed all n

end Keyed

section Listing

variable (linked : f.Linked) (positioned : f.Positioned)

include linked positioned

/-- In one tree document order is told by the addresses. -/
theorem keyed_order (r : Node) : Balanced.Keyed f.order f.address (f.Of r) where
  lt _ _ ofA ofB := Forest.order_eq_lt_iff linked positioned ofA ofB
  gt _ _ ofA ofB := Forest.order_eq_gt_iff linked positioned ofA ofB
  eq _ _ ofA ofB := Forest.order_eq_eq_iff linked positioned ofA ofB

/-- So it is among all nodes of a tree without misplaced attributes. -/
theorem keyed_order_of_placed (placed : f.Placed r) : Balanced.Keyed f.order f.address (f.InTree r) := by
  by_cases plain : f.Plain r
  · have keyed := keyed_order linked positioned r
    have of := fun n (inTree : f.InTree r n) => placed.of_inTree plain inTree
    exact ⟨fun a b inA inB => keyed.lt a b (of a inA) (of b inB),
      fun a b inA inB => keyed.gt a b (of a inA) (of b inB), fun a b inA inB => keyed.eq a b (of a inA) (of b inB)⟩
  · -- a detached attribute is alone in its tree
    have alone := fun n (inTree : f.InTree r n) => inTree.eq_of_not_plain linked plain
    refine ⟨fun a b inA inB => ?_, fun a b inA inB => ?_, fun a b inA inB => ?_⟩
    all_goals rw [alone a inA, alone b inB, Forest.order_self]
    · exact iff_of_false (by decide) (lt_irrefl _)
    · exact iff_of_false (by decide) (lt_irrefl _)
    · exact iff_of_true rfl rfl

theorem Within.pairwise_toList (within : s.Within f r) :
    (s.toList f).Pairwise fun a b => f.address a < f.address b :=
  pairwise_toList_of_keyed (keyed_order linked positioned r) within.of within.sorted_eq

theorem Within.mem_toList (within : s.Within f r) (n : Node) : n ∈ s.toList f ↔ n ∈ s.inOrderOfAddition :=
  mem_toList_of_keyed (keyed_order linked positioned r) within.of within.sorted_eq n

/-- **The listing of a node-set of the nodes of a tree.** -/
theorem Within.listed (within : s.Within f r) : s.Listed f r := by
  have rising := within.pairwise_toList linked positioned
  have nodup : (s.toList f).Nodup := nodup_of_rising rising
  have members := within.mem_toList linked positioned
  refine ⟨?_, ?_, fun n => ?_, first?_eq⟩
  · have inWalk : s.toList f ⊆ f.walk r :=
      fun n met => (within.of n ((members n).mp met)).mem_walk linked
    have antisymmetric : Std.Antisymm fun a b : Node => f.address a < f.address b :=
      ⟨fun a b less greater => absurd greater less.asymm⟩
    exact List.sublist_of_subperm_of_pairwise (List.subperm_of_subset nodup inWalk) rising
      (linked.pairwise_walk r)
  · have same : (s.toList f).Perm s.inOrderOfAddition := (List.perm_ext_iff_of_nodup nodup within.nodup).mpr members
    rw [same.length_eq]
    rfl
  · rw [members, contains_iff]

end Listing

end NodeSet

end XPathAnnotator
