/-
**Axes reach each node once, and stay below the virtual root.**

Every axis lists distinct nodes of one tree. Along most axes addresses rise from each node to the next, along
those that lead up or back through the siblings they fall; in any case no node comes twice.

From a node in the subtree of the virtual root every axis leads to nodes of this subtree: the axes that go up end at
the virtual root, and the others do not go above the node, or not above the parent of a node below the virtual root.
What stands beside the virtual root itself is not ruled out: the axes of siblings lead from it out of its subtree, and
so does `following` if it is an attribute or a namespace node, from the owner down.

* `Placed.nodup_axisNodes` — an axis meets no node twice, whatever the virtual root is;
* `Placed.exists_tree` — the nodes of an axis are of one tree;
* `LeadsOut` — the axes that lead out of the subtree of the virtual root from the virtual root itself;
* `Covers.of_axisNodes` — **all other steps along an axis stay in the subtree**;
* `Linked.not_covers_of_siblings` — the siblings of the virtual root are outside.
-/

import Mathlib
import XPathAnnotator.Proofs.Axis.Reach
import XPathAnnotator.Proofs.Axis.Surroundings

namespace XPathAnnotator

/-! ### Axes reach each node once -/

namespace Forest

variable {f : Forest} {virtualRoot : Option Node} {r m n : Node}

/-- A virtual root only cuts off what comes after a node. -/
theorem followingOf_sublist (f : Forest) (virtualRoot : Option Node) (n : Node) :
    (Axis.followingOf f virtualRoot n).Sublist (Axis.followingOf f none n) := by
  unfold Axis.followingOf
  split
  · exact List.Sublist.refl _
  next anchor _ =>
    have whole : (anchor :: f.ancestors anchor).takeWhile (fun a => !Axis.isVirtualRoot none a) =
        anchor :: f.ancestors anchor := List.takeWhile_eq_self_iff.mpr fun _ _ => rfl
    rw [whole]
    exact ((List.takeWhile_sublist _).flatMap _).append_left _

section Nodup

variable (linked : f.Linked) (placed : f.Placed r) (inTree : f.InTree r n)

include linked placed inTree

theorem Placed.nodup_followingSiblings : (f.followingSiblings n).Nodup := by
  by_cases alone : f.parent? n = none ∨ ¬ f.Plain n
  · rw [followingSiblings_eq_nil alone]
    exact List.nodup_nil
  · rw [not_or, not_not] at alone
    obtain ⟨p, parent⟩ := Option.ne_none_iff_exists'.mp alone.1
    rw [placed.followingSiblings_eq linked inTree.root alone.2 parent]
    exact ((linked.pairwise_children _).imp ne_of_address_lt).sublist (List.drop_sublist _ _)

theorem Placed.nodup_precedingSiblings : (f.precedingSiblings n).Nodup := by
  by_cases alone : f.parent? n = none ∨ ¬ f.Plain n
  · rw [precedingSiblings_eq_nil alone]
    exact List.nodup_nil
  · rw [not_or, not_not] at alone
    obtain ⟨p, parent⟩ := Option.ne_none_iff_exists'.mp alone.1
    rw [placed.precedingSiblings_eq linked inTree.root alone.2 parent]
    exact List.nodup_reverse.mpr
      (((linked.pairwise_children _).imp ne_of_address_lt).sublist (List.take_sublist _ _))

theorem Placed.nodup_followingOf : (Axis.followingOf f virtualRoot n).Nodup := by
  have unrooted : ∀ v, none = some v → f.Plain v ∧ f.Covers v n :=
    fun v root => absurd root.symm (Option.some_ne_none v)
  have rising := placed.pairwise_followingOf linked inTree.has inTree.root unrooted
  exact (rising.imp ne_of_address_lt).sublist (followingOf_sublist f virtualRoot n)

omit placed inTree in
theorem Linked.nodup_attributes (n : Node) : (f.attributes n).toList.Nodup := by
  cases n with
  | binding owner index => exact List.nodup_nil
  | item p => exact linked.pairwise_attributes.imp ne_of_address_lt

omit placed inTree in
theorem Linked.nodup_namespaceNodes (n : Node) : (f.namespaceNodes n).Nodup := by
  cases n with
  | binding owner index => exact List.nodup_nil
  | item p => exact linked.pairwise_namespaceNodes.imp ne_of_address_lt

omit placed inTree in
theorem Linked.nodup_ancestorsOf (virtualRoot : Option Node) (n : Node) :
    (n :: Axis.ancestorsOf f virtualRoot n).Nodup := by
  refine List.nodup_cons.mpr ⟨fun again => ?_, ?_⟩
  · unfold Axis.ancestorsOf at again
    split at again
    · exact absurd again List.not_mem_nil
    · exact (linked.mem_ancestors.mp (mem_of_mem_upTo again)).irrefl linked
  · exact (linked.pairwise_ancestorsOf virtualRoot n).imp fun less => (ne_of_address_lt less).symm

/-- **An axis meets no node twice.** -/
theorem Placed.nodup_axisNodes (axis : Axis) : (axis.nodes f virtualRoot n).Nodup := by
  cases axis with
  | self => exact List.nodup_singleton n
  | child => exact (linked.pairwise_children n).imp ne_of_address_lt
  | descendant => exact (linked.pairwise_subtree n).of_cons.imp ne_of_address_lt
  | descendantOrSelf => exact (linked.pairwise_subtree n).imp ne_of_address_lt
  | «attribute» => exact (linked.nodup_attributes n).filter _
  | «namespace» => exact linked.nodup_namespaceNodes n
  | followingSibling => exact placed.nodup_followingSiblings linked inTree
  | following => exact placed.nodup_followingOf linked inTree
  | parent =>
    unfold Axis.nodes
    dsimp only
    split
    · exact List.nodup_nil
    · cases f.parent? n with
      | none => exact List.nodup_nil
      | some p => exact List.nodup_singleton _
  | ancestor => exact (linked.nodup_ancestorsOf virtualRoot n).of_cons
  | ancestorOrSelf => exact linked.nodup_ancestorsOf virtualRoot n
  | precedingSibling => exact placed.nodup_precedingSiblings linked inTree
  | preceding => exact linked.pairwise_precedingOf.imp ne_of_address_lt

end Nodup

/-- **The nodes of an axis are of one tree**: that of the virtual root for the preceding nodes, and that of the
node for all others. -/
theorem Placed.exists_tree (linked : f.Linked) (placed : f.Placed (f.root n)) (has : f.Has n)
    (rooted : ∀ v, virtualRoot = some v → f.Has v ∧ f.Placed (f.root v)) (axis : Axis) :
    ∃ r, f.Placed r ∧ ∀ m ∈ axis.nodes f virtualRoot n, f.InTree r m := by
  have inTree : f.InTree (f.root n) n := ⟨has, rfl⟩
  by_cases before : axis = .preceding
  · subst before
    cases given : virtualRoot with
    | none =>
      refine ⟨f.root n, placed, fun m met => InTree.of_precedingOf linked ?_ (fun _ => inTree) met⟩
      exact fun v root => absurd root.symm (Option.some_ne_none v)
    | some v =>
      obtain ⟨hasV, placedV⟩ := rooted v given
      refine ⟨f.root v, placedV, fun m met => InTree.of_precedingOf linked ?_ ?_ met⟩
      · rintro w root
        obtain rfl := Option.some.inj root
        exact ⟨hasV, rfl⟩
      · exact fun none => absurd none (Option.some_ne_none v)
  · exact ⟨f.root n, placed, fun m met => inTree.of_axisNodes_of_ne linked before met⟩

end Forest

/-! ### The subtree of the virtual root -/

namespace Forest

/-- The axes that lead from a virtual root out of its subtree. -/
def LeadsOut (f : Forest) (axis : Axis) (v : Node) : Prop :=
  axis = .followingSibling ∨ axis = .precedingSibling ∨ axis = .following ∧ ¬ f.Plain v

instance (f : Forest) (axis : Axis) (v : Node) : Decidable (f.LeadsOut axis v) :=
  inferInstanceAs (Decidable (axis = .followingSibling ∨ axis = .precedingSibling ∨ axis = .following ∧ ¬ f.Plain v))

variable {f : Forest} {v m n : Node}

/-- Below the virtual root the parent is in its subtree. -/
theorem Covers.parent {p : Nat} (covers : f.Covers v n) (below : n ≠ v) (parent : f.parent? n = some p) :
    f.Covers v (.item p) :=
  (above_iff parent).mp (covers.resolve_left below)

section Linked

variable (linked : f.Linked)

include linked

/-! ### Down -/

theorem Covers.of_hangs {p : Nat} {c : Node} (covers : f.Covers v (.item p)) (hangs : f.Hangs p c) : f.Covers v c :=
  .of_parent (hangs.has_parent linked).2 covers

theorem Covers.of_children {c : Node} (covers : f.Covers v n) (held : c ∈ (f.children n).toList) : f.Covers v c := by
  rw [Array.mem_toList_iff] at held
  cases n with
  | binding owner index => exact absurd held (Array.not_mem_empty _)
  | item p => exact covers.of_hangs linked (.inr (.inr held))

theorem Covers.of_attributes {c : Node} (covers : f.Covers v n) (listed : c ∈ (f.attributes n).toList) :
    f.Covers v c := by
  rw [Array.mem_toList_iff] at listed
  cases n with
  | binding owner index => exact absurd listed (Array.not_mem_empty _)
  | item p => exact covers.of_hangs linked (.inr (.inl listed))

theorem Covers.of_namespaceNodes {c : Node} (covers : f.Covers v n) (spaced : c ∈ f.namespaceNodes n) :
    f.Covers v c := by
  cases n with
  | binding owner index => exact absurd spaced List.not_mem_nil
  | item p => exact covers.of_hangs linked (.inl spaced)

theorem Covers.of_descendants {d : Node} (covers : f.Covers v n) (below : d ∈ f.descendants n) : f.Covers v d :=
  descendants_induction (fun coversP held => coversP.of_children linked held) covers below

theorem Covers.of_subtree {d : Node} (covers : f.Covers v n) (below : d ∈ f.subtree n) : f.Covers v d := by
  rcases List.mem_cons.mp below with rfl | below
  · exact covers
  · exact covers.of_descendants linked below

/-! ### Beside -/

/-- A child of a node that is at a place of the list of its children. -/
theorem Linked.of_child_at {p i : Nat} {c : Node} (found : (f.children (.item p))[i]? = some c) :
    f.parent? c = some p ∧ f.index c = i := by
  obtain ⟨id, rfl, parent, index, -⟩ := linked.ofChild _ _ _ found
  exact ⟨parent, index⟩

theorem Linked.of_nextSibling {p : Nat} (parent : f.parent? n = some p) (next : f.nextSibling? n = some m) :
    f.parent? m = some p ∧ f.index n < f.index m := by
  unfold nextSibling? at next
  rw [parent] at next
  split at next
  · exact absurd next.symm (Option.some_ne_none m)
  · obtain ⟨parentM, index⟩ := linked.of_child_at next
    exact ⟨parentM, by omega⟩

theorem Linked.of_previousSibling {p : Nat} (parent : f.parent? n = some p)
    (previous : f.previousSibling? n = some m) : f.parent? m = some p ∧ f.index m < f.index n := by
  unfold previousSibling? at previous
  rw [parent] at previous
  split at previous
  · exact absurd previous.symm (Option.some_ne_none m)
  · rename_i inside
    rw [Bool.or_eq_true, not_or, beq_iff_eq] at inside
    obtain ⟨parentM, index⟩ := linked.of_child_at previous
    exact ⟨parentM, by omega⟩

/-- **Siblings** are other children of the same parent. -/
theorem Linked.exists_parent_of_siblings (met : m ∈ f.followingSiblings n ∨ m ∈ f.precedingSiblings n) :
    ∃ p, f.parent? n = some p ∧ f.parent? m = some p ∧ m ≠ n := by
  cases parent : f.parent? n with
  | none =>
    rw [followingSiblings_eq_nil (.inl parent), precedingSiblings_eq_nil (.inl parent), or_self] at met
    exact absurd met List.not_mem_nil
  | some p =>
    rcases met with after | before
    · obtain ⟨parentM, later⟩ := holds_of_iterate (P := fun x => f.parent? x = some p ∧ f.index n ≤ f.index x)
        (Q := fun x => f.parent? x = some p ∧ f.index n < f.index x)
        (fun x y at_ next => (linked.of_nextSibling at_.1 next).imp_right at_.2.trans_lt)
        (fun x at_ => at_.imp_right Nat.le_of_lt) ⟨parent, le_rfl⟩ after
      refine ⟨p, rfl, parentM, ?_⟩
      rintro rfl
      exact absurd later (lt_irrefl _)
    · obtain ⟨parentM, earlier⟩ := holds_of_iterate (P := fun x => f.parent? x = some p ∧ f.index x ≤ f.index n)
        (Q := fun x => f.parent? x = some p ∧ f.index x < f.index n)
        (fun x y at_ previous => (linked.of_previousSibling at_.1 previous).imp_right at_.2.trans_lt')
        (fun x at_ => at_.imp_right Nat.le_of_lt) ⟨parent, le_rfl⟩ before
      refine ⟨p, rfl, parentM, ?_⟩
      rintro rfl
      exact absurd earlier (lt_irrefl _)

/-- Below the virtual root siblings are in its subtree. -/
theorem Covers.of_siblings (covers : f.Covers v n) (below : n ≠ v)
    (met : m ∈ f.followingSiblings n ∨ m ∈ f.precedingSiblings n) : f.Covers v m := by
  obtain ⟨p, parent, again, -⟩ := linked.exists_parent_of_siblings met
  exact .of_parent again (covers.parent below parent)

/-- **The siblings of the virtual root are outside** of its subtree. -/
theorem Linked.not_covers_of_siblings (met : m ∈ f.followingSiblings v ∨ m ∈ f.precedingSiblings v) :
    ¬ f.Covers v m := by
  obtain ⟨p, parent, again, other⟩ := linked.exists_parent_of_siblings met
  intro covers
  rcases covers.parent other again with top | above
  · rw [← top] at parent
    exact (Above.parent parent).irrefl linked
  · exact above.asymm linked (.parent parent)

/-! ### Around -/

omit linked in
/-- The element that the nodes around a node are told by is in the subtree, unless the node is the virtual root and an
attribute or a namespace node. -/
theorem Covers.of_anchor {anchor : Node} (covers : f.Covers v n) (plain : n = v → f.Plain v)
    (found : Axis.anchor? f n = some anchor) : f.Covers v anchor := by
  unfold Axis.anchor? at found
  split at found
  · rename_i like
    obtain ⟨p, parent, rfl⟩ := Option.map_eq_some_iff.mp found
    refine covers.parent (fun same => ?_) parent
    rw [same, plain same] at like
    exact absurd like Bool.false_ne_true
  · obtain rfl := Option.some.inj found
    exact covers

/-- On the way up to the virtual root its subtree is not left. -/
theorem Covers.of_climb {a : Node} (covers : f.Covers v n)
    (climbed : a ∈ (n :: f.ancestors n).takeWhile fun b => !Axis.isVirtualRoot (some v) b) :
    f.Covers v a ∧ a ≠ v := by
  refine linked.climb (P := fun n => f.Covers v n →
    a ∈ (n :: f.ancestors n).takeWhile (fun b => !Axis.isVirtualRoot (some v) b) → f.Covers v a ∧ a ≠ v)
    (fun n ih covers climbed => ?_) n covers climbed
  by_cases top : n = v
  · subst top
    rw [List.takeWhile_cons, isVirtualRoot_iff.mpr rfl] at climbed
    exact absurd climbed List.not_mem_nil
  · have below : Axis.isVirtualRoot (some v) n = false :=
      isVirtualRoot_eq_false.mpr fun same => top (Option.some.inj same).symm
    rw [List.takeWhile_cons, below] at climbed
    rcases List.mem_cons.mp climbed with rfl | higher
    · exact ⟨covers, top⟩
    · cases parent : f.parent? n with
      | none =>
        rw [ancestors_eq_nil parent] at higher
        exact absurd higher List.not_mem_nil
      | some p =>
        rw [linked.ancestors_eq parent] at higher
        exact ih p parent (covers.parent top parent) higher

theorem Covers.of_followingOf (covers : f.Covers v n) (plain : n = v → f.Plain v)
    (met : m ∈ Axis.followingOf f (some v) n) : f.Covers v m := by
  unfold Axis.followingOf at met
  split at met
  · exact absurd met List.not_mem_nil
  · rename_i anchor found
    have coversAnchor := covers.of_anchor plain found
    rcases List.mem_append.mp met with below | after
    · split at below
      · exact absurd below List.not_mem_nil
      · exact coversAnchor.of_descendants linked below
    · obtain ⟨a, climbed, after⟩ := List.mem_flatMap.mp after
      obtain ⟨s, beside, after⟩ := List.mem_flatMap.mp after
      obtain ⟨coversA, other⟩ := coversAnchor.of_climb linked climbed
      exact (coversA.of_siblings linked other (.inl beside)).of_subtree linked after

theorem covers_of_precedingOf (met : m ∈ Axis.precedingOf f (some v) n) : f.Covers v m := by
  unfold Axis.precedingOf at met
  split at met
  · exact absurd met List.not_mem_nil
  · split at met
    · exact absurd met List.not_mem_nil
    · have below : m ∈ f.subtree v := List.takeWhile_subset _ (List.mem_filter.mp met).1
      exact (covers_self v).of_subtree linked below

theorem Covers.of_ancestorsOf (covers : f.Covers v n) (above : m ∈ Axis.ancestorsOf f (some v) n) : f.Covers v m := by
  have under : ∀ u, some v = some u → f.Covers u n := by
    rintro u ⟨rfl⟩
    exact covers
  exact ((linked.mem_ancestorsOf under).mp above).2 v rfl

/-- **Axes stay in the subtree of the virtual root**, but for those that lead out of it from the virtual root. -/
theorem Covers.of_axisNodes {axis : Axis} (covers : f.Covers v n) (stays : n = v → ¬ f.LeadsOut axis v)
    (met : m ∈ axis.nodes f (some v) n) : f.Covers v m := by
  cases axis with
  | self =>
    rw [List.mem_singleton.mp met]
    exact covers
  | child => exact covers.of_children linked met
  | descendant => exact covers.of_descendants linked met
  | descendantOrSelf => exact covers.of_subtree linked met
  | «attribute» => exact covers.of_attributes linked (List.mem_filter.mp met).1
  | «namespace» => exact covers.of_namespaceNodes linked met
  | followingSibling => exact covers.of_siblings linked (fun same => stays same (.inl rfl)) (.inl met)
  | following =>
    have plain : n = v → f.Plain v := fun same => by
      by_contra like
      exact stays same (.inr (.inr ⟨rfl, like⟩))
    exact covers.of_followingOf linked plain met
  | parent =>
    unfold Axis.nodes at met
    dsimp only at met
    split at met
    · exact absurd met List.not_mem_nil
    · rename_i below
      obtain ⟨p, parent, rfl⟩ := Option.map_eq_some_iff.mp (Option.mem_toList.mp met)
      refine covers.parent (fun same => below ?_) parent
      rw [same, isVirtualRoot_iff]
  | ancestor => exact covers.of_ancestorsOf linked met
  | ancestorOrSelf =>
    rcases List.mem_cons.mp met with rfl | above
    · exact covers
    · exact covers.of_ancestorsOf linked above
  | precedingSibling => exact covers.of_siblings linked (fun same => stays same (.inr (.inl rfl))) (.inr met)
  | preceding => exact covers_of_precedingOf linked met

end Linked

end Forest

end XPathAnnotator
