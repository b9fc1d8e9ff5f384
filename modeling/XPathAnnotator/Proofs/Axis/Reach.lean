/-
**Axes stay in the tree.**

From a node of a tree every axis leads to nodes of the same tree, whatever node of it the virtual root is. Where
the tree holds attributes only where they belong, as the trees of documents do, so do the nodes of an axis.

* `InTree.of_axisNodes` — what an axis reaches; only the preceding nodes are those of the virtual root;
* `Clean` — trees in which every node stands where its kind belongs; `Built.clean` — those of documents;
* `Clean.of_axisNodes` — what an axis reaches in such a tree.
-/

import Mathlib
import XPathAnnotator.Axis.Walk
import XPathAnnotator.Proofs.Tree.Above

namespace XPathAnnotator

namespace Forest

variable {f g : Forest} {r n : Node}

section Reach

variable (linked : f.Linked)

include linked

/-! ### One step -/

theorem InTree.of_hangs {p : Nat} {c : Node} (ofP : f.InTree r (.item p)) (hangs : f.Hangs p c) :
    f.InTree r c := by
  obtain ⟨known, parent⟩ := hangs.has_parent linked
  have root : f.root c = r := (linked.root_eq parent).trans ofP.root
  exact ⟨known, root⟩

theorem InTree.of_children {c : Node} (ofN : f.InTree r n) (held : c ∈ (f.children n).toList) :
    f.InTree r c := by
  rw [Array.mem_toList_iff] at held
  cases n with
  | binding owner index => exact absurd held (Array.not_mem_empty _)
  | item p => exact ofN.of_hangs linked (.inr (.inr held))

theorem InTree.of_attributes {c : Node} (ofN : f.InTree r n) (listed : c ∈ (f.attributes n).toList) :
    f.InTree r c := by
  rw [Array.mem_toList_iff] at listed
  cases n with
  | binding owner index => exact absurd listed (Array.not_mem_empty _)
  | item p => exact ofN.of_hangs linked (.inr (.inl listed))

theorem InTree.of_namespaceNodes {c : Node} (ofN : f.InTree r n) (spaced : c ∈ f.namespaceNodes n) :
    f.InTree r c := by
  cases n with
  | binding owner index => exact absurd spaced List.not_mem_nil
  | item p => exact ofN.of_hangs linked (.inl spaced)

theorem InTree.of_parent {p : Nat} (ofN : f.InTree r n) (parent : f.parent? n = some p) :
    f.InTree r (.item p) := by
  have known : f.Has (.item p) := ofN.has.parent linked parent
  have root : f.root (.item p) = r := (linked.root_eq parent).symm.trans ofN.root
  exact ⟨known, root⟩

theorem InTree.of_child_at {p i : Nat} {c : Node} (ofP : f.InTree r (.item p))
    (found : (f.children (.item p))[i]? = some c) : f.InTree r c :=
  ofP.of_hangs linked (.inr (.inr (Array.mem_iff_getElem?.mpr ⟨i, found⟩)))

theorem InTree.of_nextSibling {m : Node} (ofN : f.InTree r n) (next : f.nextSibling? n = some m) :
    f.InTree r m := by
  unfold nextSibling? at next
  split at next
  · exact absurd next.symm (Option.some_ne_none m)
  split at next
  · exact absurd next.symm (Option.some_ne_none m)
  next p parent => exact InTree.of_child_at linked (ofN.of_parent linked parent) next

theorem InTree.of_previousSibling {m : Node} (ofN : f.InTree r n) (previous : f.previousSibling? n = some m) :
    f.InTree r m := by
  unfold previousSibling? at previous
  split at previous
  · exact absurd previous.symm (Option.some_ne_none m)
  split at previous
  · exact absurd previous.symm (Option.some_ne_none m)
  next p parent => exact InTree.of_child_at linked (ofN.of_parent linked parent) previous

/-! ### Many steps -/

theorem InTree.of_root (ofN : f.InTree r n) : f.InTree r (f.root n) := by
  have root : f.root (f.root n) = r := (root_eq_self (linked.parent?_root n)).trans ofN.root
  have known : f.Has (f.root n) := ofN.has.root linked
  exact ⟨known, root⟩

theorem InTree.of_ancestors {a : Node} (ofN : f.InTree r n) (above : a ∈ f.ancestors n) : f.InTree r a := by
  unfold ancestors at above
  generalize f.nodes.size + 1 = fuel at above
  induction fuel generalizing n with
  | zero => exact absurd above List.not_mem_nil
  | succ fuel ih =>
    cases parent : f.parent? n with
    | none =>
      rw [ancestorsWithin_eq_nil parent] at above
      exact absurd above List.not_mem_nil
    | some p =>
      have ofP : f.InTree r (.item p) := ofN.of_parent linked parent
      rw [ancestorsWithin_eq_cons parent] at above
      rcases List.mem_cons.mp above with rfl | above
      · exact ofP
      · exact ih ofP above

omit linked in
/-- What children have from their parents, all descendants have. -/
theorem descendants_induction {P : Node → Prop} (step : ∀ {n c}, P n → c ∈ (f.children n).toList → P c)
    {d : Node} (start : P n) (below : d ∈ f.descendants n) : P d := by
  unfold descendants at below
  generalize f.nodes.size + 1 = depth at below
  induction depth generalizing n with
  | zero => exact absurd below List.not_mem_nil
  | succ depth ih =>
    rw [descendantsWithin, List.mem_flatMap] at below
    obtain ⟨c, held, below⟩ := below
    have further : P c := step start held
    rcases List.mem_cons.mp below with rfl | below
    · exact further
    · exact ih further below

theorem InTree.of_descendants {d : Node} (ofN : f.InTree r n) (below : d ∈ f.descendants n) : f.InTree r d :=
  descendants_induction (fun ofP held => ofP.of_children linked held) ofN below

theorem InTree.of_subtree {d : Node} (ofN : f.InTree r n) (below : d ∈ f.subtree n) : f.InTree r d := by
  rcases List.mem_cons.mp below with rfl | below
  · exact ofN
  · exact ofN.of_descendants linked below

omit linked in
/-- What is met by repeating a step is told by what the step gives. -/
theorem holds_of_iterate {P Q : Node → Prop} {step : Node → Option Node}
    (gives : ∀ n m, P n → step n = some m → Q m) (again : ∀ n, Q n → P n) {fuel : Nat} {m : Node} (holds : P n)
    (met : m ∈ iterate step fuel n) : Q m := by
  induction fuel generalizing n with
  | zero => exact absurd met List.not_mem_nil
  | succ fuel ih =>
    rw [iterate] at met
    split at met
    · exact absurd met List.not_mem_nil
    · rename_i next taken
      have given := gives n next holds taken
      rcases List.mem_cons.mp met with rfl | met
      · exact given
      · exact ih (again next given) met

theorem InTree.of_followingSiblings {m : Node} (ofN : f.InTree r n) (met : m ∈ f.followingSiblings n) :
    f.InTree r m :=
  holds_of_iterate (fun _ _ ofN next => ofN.of_nextSibling linked next) (fun _ ofM => ofM) ofN met

theorem InTree.of_precedingSiblings {m : Node} (ofN : f.InTree r n) (met : m ∈ f.precedingSiblings n) :
    f.InTree r m :=
  holds_of_iterate (fun _ _ ofN previous => ofN.of_previousSibling linked previous) (fun _ ofM => ofM) ofN met

/-! ### Axes -/

omit linked in
theorem mem_of_mem_upTo {last : Node → Bool} {nodes : List Node} {m : Node} (met : m ∈ Axis.upTo last nodes) :
    m ∈ nodes := by
  induction nodes with
  | nil => exact met
  | cons n nodes ih =>
    rw [Axis.upTo] at met
    split at met
    · rw [List.mem_singleton.mp met]
      exact List.mem_cons_self
    · rcases List.mem_cons.mp met with rfl | met
      · exact List.mem_cons_self
      · exact List.mem_cons_of_mem _ (ih met)

variable {virtualRoot : Option Node}

theorem InTree.of_ancestorsOf {a : Node} (ofN : f.InTree r n) (above : a ∈ Axis.ancestorsOf f virtualRoot n) :
    f.InTree r a := by
  unfold Axis.ancestorsOf at above
  split at above
  · exact absurd above List.not_mem_nil
  · exact ofN.of_ancestors linked (mem_of_mem_upTo above)

theorem InTree.of_anchor {anchor : Node} (ofN : f.InTree r n) (found : Axis.anchor? f n = some anchor) :
    f.InTree r anchor := by
  unfold Axis.anchor? at found
  split at found
  · obtain ⟨p, parent, rfl⟩ := Option.map_eq_some_iff.mp found
    exact ofN.of_parent linked parent
  · obtain rfl := Option.some.inj found
    exact ofN

theorem InTree.of_followingOf {m : Node} (ofN : f.InTree r n) (met : m ∈ Axis.followingOf f virtualRoot n) :
    f.InTree r m := by
  unfold Axis.followingOf at met
  split at met
  · exact absurd met List.not_mem_nil
  next anchor found =>
    have ofAnchor : f.InTree r anchor := ofN.of_anchor linked found
    rcases List.mem_append.mp met with below | after
    · split at below
      · exact absurd below List.not_mem_nil
      · exact ofAnchor.of_descendants linked below
    · obtain ⟨a, climbed, after⟩ := List.mem_flatMap.mp after
      obtain ⟨s, beside, after⟩ := List.mem_flatMap.mp after
      have ofA : f.InTree r a := by
        rcases List.mem_cons.mp (List.takeWhile_subset _ climbed) with rfl | above
        · exact ofAnchor
        · exact ofAnchor.of_ancestors linked above
      exact (ofA.of_followingSiblings linked beside).of_subtree linked after

/-- What an axis other than `preceding` reaches. -/
theorem InTree.of_axisNodes_of_ne {axis : Axis} (other : axis ≠ .preceding) {m : Node} (ofN : f.InTree r n)
    (met : m ∈ axis.nodes f virtualRoot n) : f.InTree r m := by
  cases axis with
  | self =>
    rw [List.mem_singleton.mp met]
    exact ofN
  | child => exact ofN.of_children linked met
  | descendant => exact ofN.of_descendants linked met
  | descendantOrSelf => exact ofN.of_subtree linked met
  | «attribute» => exact ofN.of_attributes linked (List.mem_filter.mp met).1
  | «namespace» => exact ofN.of_namespaceNodes linked met
  | followingSibling => exact ofN.of_followingSiblings linked met
  | following => exact ofN.of_followingOf linked met
  | parent =>
    unfold Axis.nodes at met
    dsimp only at met
    split at met
    · exact absurd met List.not_mem_nil
    · obtain ⟨p, parent, rfl⟩ := Option.map_eq_some_iff.mp (Option.mem_toList.mp met)
      exact ofN.of_parent linked parent
  | ancestor => exact ofN.of_ancestorsOf linked met
  | ancestorOrSelf =>
    rcases List.mem_cons.mp met with rfl | above
    · exact ofN
    · exact ofN.of_ancestorsOf linked above
  | precedingSibling => exact ofN.of_precedingSiblings linked met
  | preceding => exact absurd rfl other

variable (rooted : ∀ v, virtualRoot = some v → f.InTree r v)

include rooted

/-- The preceding nodes are of the tree of the virtual root; without one they are of the tree of the node. -/
theorem InTree.of_precedingOf {m : Node} (unrooted : virtualRoot = none → f.InTree r n)
    (met : m ∈ Axis.precedingOf f virtualRoot n) : f.InTree r m := by
  unfold Axis.precedingOf at met
  split at met
  · exact absurd met List.not_mem_nil
  next anchor found =>
    split at met
    · exact absurd met List.not_mem_nil
    · have ofTop : f.InTree r (Axis.rootOf f virtualRoot anchor) := by
        unfold Axis.rootOf
        cases given : virtualRoot with
        | none => exact ((unrooted given).of_anchor linked found).of_root linked
        | some v => exact rooted v given
      exact ofTop.of_subtree linked (List.takeWhile_subset _ (List.mem_filter.mp met).1)

/-- **Axes stay in the tree.** -/
theorem InTree.of_axisNodes (axis : Axis) {m : Node} (ofN : f.InTree r n)
    (met : m ∈ axis.nodes f virtualRoot n) : f.InTree r m := by
  by_cases before : axis = .preceding
  · subst before
    exact InTree.of_precedingOf linked rooted (fun _ => ofN) met
  · exact ofN.of_axisNodes_of_ne linked before met

end Reach

/-! ### Trees without misplaced nodes -/

/-- Whether every node with a root stands where its kind belongs. -/
def Clean (f : Forest) (r : Node) : Prop := ∀ n, f.Has n → f.root n = r → f.Genuine n

/-! ### Trees of documents -/

/-- The tree of a document is clean: all of its nodes were made with it. -/
theorem Built.clean {id : Nat} (built : f.Built g id) (linked : f.Linked) : g.Clean (.item id) := by
  intro n known root
  cases n with
  | binding owner index => trivial
  | item k =>
    refine built.kept.fresh k ?_ known
    by_contra old
    have before : k < f.nodes.size := Nat.lt_of_not_le old
    rw [built.kept.root k before] at root
    exact linked.root_ne_of_lt before built.beyond root

theorem Of.inTree (ofN : f.Of r n) : f.InTree r n := ⟨ofN.has, ofN.root⟩

theorem Clean.of_inTree (clean : f.Clean r) (inTree : f.InTree r n) : f.Of r n :=
  ⟨inTree.has, clean n inTree.has inTree.root, inTree.root⟩

section Clean

variable (linked : f.Linked) (clean : f.Clean r)

include linked clean

theorem Clean.of_root (ofN : f.Of r n) : f.Of r (f.root n) := clean.of_inTree (ofN.inTree.of_root linked)

theorem Clean.of_descendants {d : Node} (ofN : f.Of r n) (below : d ∈ f.descendants n) : f.Of r d :=
  clean.of_inTree (ofN.inTree.of_descendants linked below)

variable {virtualRoot : Option Node} (rooted : ∀ v, virtualRoot = some v → f.Of r v)

include rooted

theorem Clean.of_rootOf (ofN : f.Of r n) : f.Of r (Axis.rootOf f virtualRoot n) := by
  unfold Axis.rootOf
  cases found : virtualRoot with
  | none => exact clean.of_root linked ofN
  | some v => exact rooted v found

/-- **Axes stay in a clean tree.** -/
theorem Clean.of_axisNodes (axis : Axis) {m : Node} (ofN : f.Of r n) (met : m ∈ axis.nodes f virtualRoot n) :
    f.Of r m :=
  clean.of_inTree (ofN.inTree.of_axisNodes linked (fun v root => (rooted v root).inTree) axis met)

end Clean

end Forest

end XPathAnnotator
