/-
**Node-sets with the same members.**

Two node-sets of one tree may hold the same nodes in different orders of addition. What is read off a set is the
same for both: its size, its listing in document order, its first node, and whatever asks for one of its nodes.

* `Held` — node-sets of distinct nodes of a tree, wherever these stand;
* `Alike` — two such sets with the same members; `Alike.toList_eq`, `Alike.size_eq`, `Alike.any_stringValues`;
* `Value.Alike` — equal values, or alike node-sets; `Value.Alike.compare_eq` — comparisons of such values.
-/

import Mathlib
import XPathAnnotator.Proofs.NodeSet.Listing
import XPathAnnotator.Value.Compare

namespace XPathAnnotator

namespace NodeSet

/-- A node-set of distinct nodes of the tree with a root, wherever they stand; a tree that it keeps was made for
listing them. -/
structure Held (f : Forest) (r : Node) (s : NodeSet) : Prop where
  nodup : s.inOrderOfAddition.Nodup
  inTree : ∀ n ∈ s.inOrderOfAddition, f.InTree r n
  kept : s.sorted f = Balanced.ofList f.order s.inOrderOfAddition

/-- Two node-sets of a tree with the same members. -/
structure Alike (f : Forest) (r : Node) (s t : NodeSet) : Prop where
  first : s.Held f r
  second : t.Held f r
  members : ∀ n, n ∈ s.inOrderOfAddition ↔ n ∈ t.inOrderOfAddition

variable {f : Forest} {r : Node} {s t : NodeSet}

/-! ### Making node-sets -/

theorem nodup_addAll {nodes : List Node} (nodup : s.inOrderOfAddition.Nodup) :
    (s.addAll nodes).inOrderOfAddition.Nodup := by
  unfold addAll
  induction nodes generalizing s with
  | nil => exact nodup
  | cons n nodes ih =>
    refine ih ?_
    rw [inOrderOfAddition_add]
    split
    · exact nodup
    next new =>
      refine List.nodup_append.mpr ⟨nodup, List.nodup_singleton n, fun a metA b metB same => ?_⟩
      rw [List.mem_singleton] at metB
      exact new (metB ▸ same ▸ metA)

theorem held_addAll_ofList {nodes more : List Node} (inNodes : ∀ n ∈ nodes, f.InTree r n)
    (inMore : ∀ n ∈ more, f.InTree r n) : ((ofList nodes).addAll more).Held f r := by
  have joined : (ofList nodes).addAll more = ofList (nodes ++ more) := by
    unfold ofList addAll
    rw [List.foldl_append]
  refine ⟨nodup_addAll (nodup_addAll List.nodup_nil), fun n met => ?_, ?_⟩
  · rw [mem_addAll, mem_ofList] at met
    rcases met with met | met
    · exact inMore n met
    · exact inNodes n met
  · rw [joined]
    exact sorted_ofList _

theorem held_ofList {nodes : List Node} (inTree : ∀ n ∈ nodes, f.InTree r n) : (ofList nodes).Held f r :=
  have none : ∀ n ∈ ([] : List Node), f.InTree r n := fun _ met => absurd met List.not_mem_nil
  held_addAll_ofList inTree none

theorem alike_ofList {nodes others : List Node} (inNodes : ∀ n ∈ nodes, f.InTree r n)
    (same : ∀ n, n ∈ nodes ↔ n ∈ others) : (ofList nodes).Alike f r (ofList others) :=
  ⟨held_ofList inNodes, held_ofList fun n met => inNodes n ((same n).mpr met), fun n => by
    rw [mem_ofList, mem_ofList, same]⟩

theorem Alike.union {s' t' : NodeSet} (one : s.Alike f r t) (other : s'.Alike f r t') :
    (s.union s').Alike f r (t.union t') := by
  unfold NodeSet.union
  refine ⟨held_addAll_ofList one.first.inTree other.first.inTree,
    held_addAll_ofList one.second.inTree other.second.inTree, fun n => ?_⟩
  rw [mem_addAll, mem_addAll, mem_ofList, mem_ofList, one.members, other.members]

/-! ### Reading node-sets -/

theorem Alike.perm (alike : s.Alike f r t) : s.inOrderOfAddition.Perm t.inOrderOfAddition :=
  (List.perm_ext_iff_of_nodup alike.first.nodup alike.second.nodup).mpr alike.members

theorem Alike.size_eq (alike : s.Alike f r t) : s.size = t.size := alike.perm.length_eq

theorem Alike.stringValues_perm (alike : s.Alike f r t) : (s.stringValues f).Perm (t.stringValues f) :=
  alike.perm.map _

theorem Alike.any_stringValues (alike : s.Alike f r t) (holds : String → Bool) :
    (s.stringValues f).any holds = (t.stringValues f).any holds := alike.stringValues_perm.any_eq

section Listing

variable (keyed : Balanced.Keyed f.order f.address (f.InTree r))

include keyed

theorem Held.mem_toList (held : s.Held f r) (n : Node) : n ∈ s.toList f ↔ n ∈ s.inOrderOfAddition :=
  mem_toList_of_keyed keyed held.inTree held.kept n

/-- **Alike node-sets have one listing.** -/
theorem Alike.toList_eq (alike : s.Alike f r t) : s.toList f = t.toList f := by
  have risingS := pairwise_toList_of_keyed keyed alike.first.inTree alike.first.kept
  have risingT := pairwise_toList_of_keyed keyed alike.second.inTree alike.second.kept
  have same : (s.toList f).Perm (t.toList f) := by
    refine (List.perm_ext_iff_of_nodup (nodup_of_rising risingS) (nodup_of_rising risingT)).mpr fun n => ?_
    rw [alike.first.mem_toList keyed, alike.second.mem_toList keyed, alike.members]
  exact same.eq_of_pairwise (fun a b _ _ less greater => absurd greater less.asymm) risingS risingT

theorem Alike.first?_eq (alike : s.Alike f r t) : s.first? f = t.first? f := by
  rw [Within.first?_eq, Within.first?_eq, alike.toList_eq keyed]

theorem Alike.stringValue_eq (alike : s.Alike f r t) : s.stringValue f = t.stringValue f := by
  rw [stringValue, stringValue, alike.first?_eq keyed]

end Listing

end NodeSet

/-! ### Values -/

namespace Value

/-- Values that cannot be told apart: equal ones, or node-sets of a tree with the same members. -/
inductive Alike (f : Forest) (r : Node) : Value → Value → Prop
  | plain {value : Value} (plain : value.nodes? = none) : Alike f r value value
  | nodes {s t : NodeSet} (alike : s.Alike f r t) : Alike f r (.nodes s) (.nodes t)

variable {f : Forest} {r : Node} {left right other another : Value}

theorem Alike.toTruth_eq (alike : left.Alike f r right) : left.toTruth = right.toTruth := by
  cases alike with
  | plain => rfl
  | nodes alike => rw [toTruth, toTruth, alike.size_eq]

section Keyed

variable (keyed : Balanced.Keyed f.order f.address (f.InTree r))

include keyed

theorem Alike.toText_eq (alike : left.Alike f r right) : left.toText f = right.toText f := by
  cases alike with
  | plain => rfl
  | nodes alike => exact alike.stringValue_eq keyed

theorem Alike.toNumber_eq (alike : left.Alike f r right) : left.toNumber f = right.toNumber f := by
  cases alike with
  | plain => rfl
  | nodes alike => rw [toNumber, toNumber, alike.stringValue_eq keyed]

end Keyed

/-- **Comparisons do not tell alike values apart.** -/
theorem Alike.compare_eq (c : Comparison) (one : left.Alike f r right) (two : other.Alike f r another) :
    left.compare f c other = right.compare f c another := by
  cases one with
  | plain plain =>
    cases two with
    | plain => rfl
    | nodes alike =>
      cases left with
      | nodes s => exact absurd plain (Option.some_ne_none _)
      | truth q => simp only [compare, compareNodes, (nodes alike).toTruth_eq]
      | _ => simp only [compare, compareNodes, alike.any_stringValues]
  | nodes alike =>
    cases two with
    | plain plain =>
      cases other with
      | nodes s => exact absurd plain (Option.some_ne_none _)
      | truth q => simp only [compare, compareNodes, (nodes alike).toTruth_eq]
      | _ => simp only [compare, compareNodes, alike.any_stringValues]
    | nodes also => simp only [compare, alike.any_stringValues, also.any_stringValues]

end Value

end XPathAnnotator
