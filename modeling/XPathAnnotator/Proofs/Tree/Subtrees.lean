/-
**Subtrees without attributes.**

Descendants and siblings are children of children. Where attributes and namespace nodes stand only where setting
them puts them, the descendants of a node are the other nodes below it, and the siblings after a node are the
rest of the children of its parent.

* `Plain`, `Placed` — the nodes that are no attributes or namespaces, and the trees without misplaced ones;
* `Placed.mem_descendants`, `Linked.pairwise_subtree` — the descendants of a node, in document order;
* `Placed.followingSiblings_eq`, `Placed.precedingSiblings_eq` — siblings as parts of one list of children.
-/

import Mathlib
import XPathAnnotator.Proofs.Tree.Above

namespace XPathAnnotator

namespace Forest

/-- Whether a node is neither an attribute nor a namespace node. -/
def Plain (f : Forest) (n : Node) : Prop := (f.kind n).isAttributeLike = false

instance (f : Forest) (n : Node) : Decidable (f.Plain n) :=
  inferInstanceAs (Decidable ((f.kind n).isAttributeLike = false))

/-- Whether the attributes and namespace nodes below a root stand where setting them puts them: none of them was
appended as a child. -/
def Placed (f : Forest) (r : Node) : Prop :=
  ∀ (n : Node) (p : Nat), f.Has n → f.root n = r → f.parent? n = some p → f.Genuine n

variable {f : Forest} {r m n : Node}

theorem placed_of_genuine (genuine : ∀ id < f.nodes.size, f.Genuine (.item id)) : f.Placed r := by
  intro n p has tree parent
  cases n with
  | binding owner index => trivial
  | item id => exact genuine id has

/-! ### Plain nodes -/

theorem plain_of_kind (kind : f.kind n = .element ∨ f.kind n = .document) : f.Plain n := by
  unfold Plain
  rcases kind with kind | kind
  · rw [kind]
    rfl
  · rw [kind]
    rfl

theorem not_plain_binding {owner index : Nat} : ¬ f.Plain (.binding owner index) :=
  show ¬ (NodeKind.namespace.isAttributeLike = false) by decide

theorem not_plain_of_mem_namespaceNodes {p : Nat} {c : Node} (spaced : c ∈ f.namespaceNodes (.item p)) :
    ¬ f.Plain c := by
  obtain ⟨i, -, rfl⟩ := mem_namespaceNodes.mp spaced
  exact not_plain_binding

theorem Linked.not_plain_of_mem_attributes (linked : f.Linked) {p : Nat} {c : Node}
    (among : c ∈ f.attributes (.item p)) : ¬ f.Plain c := by
  obtain ⟨i, found⟩ := Array.mem_iff_getElem?.mp among
  obtain ⟨_, -, -, -, kind⟩ := linked.ofAttribute _ _ _ found
  unfold Plain
  rw [kind]
  decide

/-- Attributes and namespace nodes cover themselves only. -/
theorem Linked.covers_eq_of_not_child (linked : f.Linked) {p : Nat} {c : Node} (inside : f.Has m)
    (apart : c ∈ f.namespaceNodes (.item p) ∨ c ∈ f.attributes (.item p)) (covers : f.Covers c m) : m = c := by
  rcases covers with same | above
  · exact same
  exfalso
  have kind := above.kind linked inside
  rcases apart with spaced | among
  · exact not_plain_of_mem_namespaceNodes spaced (plain_of_kind kind)
  · exact linked.not_plain_of_mem_attributes among (plain_of_kind kind)

/-- A plain node with a parent is among the children of it. -/
theorem Linked.child_of_plain (linked : f.Linked) {p : Nat} (plain : f.Plain n) (parent : f.parent? n = some p) :
    (f.children (.item p))[f.index n]? = some n := by
  cases n with
  | binding owner index => exact absurd plain not_plain_binding
  | item id =>
    rcases linked.held id p parent with found | found
    · exact found
    · exact absurd plain (linked.not_plain_of_mem_attributes (Array.mem_iff_getElem?.mpr ⟨_, found⟩))

/-- The node under another one on the way to a node below that. -/
theorem Above.exists_step {a : Node} (above : f.Above a m) :
    ∃ p c, a = .item p ∧ f.parent? c = some p ∧ f.Covers c m := by
  induction above with
  | parent parent => exact ⟨_, _, rfl, parent, covers_self _⟩
  | higher parent _ ih =>
    obtain ⟨p, c, same, under, covers⟩ := ih
    exact ⟨p, c, same, under, .of_parent parent covers⟩

/-- A plain node below another one is at or below a child of that. -/
theorem Linked.exists_child (linked : f.Linked) {a : Node} (inside : f.Has m) (plain : f.Plain m)
    (above : f.Above a m) :
    ∃ (p i : Nat) (c : Node), a = .item p ∧ (f.children (.item p))[i]? = some c ∧ f.Has c ∧ f.Covers c m := by
  obtain ⟨p, c, rfl, parent, covers⟩ := above.exists_step
  have known : f.Has c := covers.has linked inside
  rcases hangs_of_parent linked known parent with spaced | among | held
  · obtain rfl := linked.covers_eq_of_not_child inside (.inl spaced) covers
    exact absurd plain (not_plain_of_mem_namespaceNodes spaced)
  · obtain rfl := linked.covers_eq_of_not_child inside (.inr among) covers
    exact absurd plain (linked.not_plain_of_mem_attributes among)
  · obtain ⟨i, found⟩ := Array.mem_iff_getElem?.mp held
    exact ⟨p, i, c, rfl, found, known, covers⟩

theorem genuine_of_plain (plain : f.Plain n) : f.Genuine n := by
  cases n with
  | binding owner index => trivial
  | item id =>
    intro like
    rw [plain] at like
    exact absurd like Bool.false_ne_true

theorem InTree.covers (linked : f.Linked) (inTree : f.InTree r n) : f.Covers r n := by
  rw [← inTree.root]
  exact linked.covers_root n

/-- A detached attribute is a tree by itself. -/
theorem InTree.eq_of_not_plain (linked : f.Linked) (like : ¬ f.Plain r) (inTree : f.InTree r n) : n = r := by
  rcases inTree.covers linked with same | above
  · exact same
  · exact absurd (plain_of_kind (above.kind linked inTree.has)) like

/-- In the tree of a plain root every node stands where its kind belongs. -/
theorem Placed.of_inTree (placed : f.Placed r) (plain : f.Plain r) (inTree : f.InTree r n) :
    f.Of r n := by
  refine ⟨inTree.has, ?_, inTree.root⟩
  cases parent : f.parent? n with
  | some p => exact placed n p inTree.has inTree.root parent
  | none =>
    obtain rfl : n = r := (root_eq_self parent).symm.trans inTree.root
    exact genuine_of_plain plain

section Placed

variable (linked : f.Linked) (placed : f.Placed r)

include linked placed

theorem Placed.plain_child {p : Nat} {c : Node} (tree : f.root (.item p) = r)
    (held : c ∈ f.children (.item p)) : f.Plain c := by
  obtain ⟨known, parent⟩ := Hangs.has_parent linked (.inr (.inr held))
  have genuine : f.Genuine c := placed c p known ((linked.root_eq parent).trans tree) parent
  obtain ⟨i, found⟩ := Array.mem_iff_getElem?.mp held
  obtain ⟨id, rfl, -, -, apart⟩ := linked.ofChild _ _ _ found
  by_contra like
  rw [genuine (Bool.not_eq_false _ ▸ like)] at apart
  exact absurd apart (by decide)

/-! ### Descendants -/

theorem Placed.mem_descendantsWithin {depth : Nat} (inside : f.Has n) (tree : f.root n = r) :
    m ∈ f.descendantsWithin depth n ↔ ∃ c ∈ f.children n, m ∈ f.walkWithin depth c ∧ f.Plain m := by
  induction depth generalizing n with
  | zero =>
    refine iff_of_false List.not_mem_nil ?_
    rintro ⟨c, -, met, -⟩
    exact absurd met List.not_mem_nil
  | succ depth ih =>
    cases n with
    | binding owner index =>
      refine iff_of_false List.not_mem_nil ?_
      rintro ⟨c, held, -⟩
      exact absurd held (Array.not_mem_empty _)
    | item p =>
      rw [descendantsWithin, List.mem_flatMap]
      refine exists_congr fun c => ?_
      rw [Array.mem_toList_iff]
      refine and_congr_right fun held => ?_
      obtain ⟨known, parent⟩ := Hangs.has_parent linked (.inr (.inr held))
      obtain ⟨i, found⟩ := Array.mem_iff_getElem?.mp held
      obtain ⟨id, rfl, -⟩ := linked.ofChild _ _ _ found
      have plain : f.Plain (.item id) := placed.plain_child linked tree held
      rw [List.mem_cons, ih known ((linked.root_eq parent).trans tree), mem_walkWithin_succ]
      constructor
      · rintro (rfl | ⟨b, below, met, plainM⟩)
        · exact ⟨.inl rfl, plain⟩
        · exact ⟨.inr (.inr (.inr ⟨b, below, met⟩)), plainM⟩
      · rintro ⟨rfl | spaced | among | ⟨b, below, met⟩, plainM⟩
        · exact .inl rfl
        · exact absurd plainM (not_plain_of_mem_namespaceNodes spaced)
        · exact absurd plainM (linked.not_plain_of_mem_attributes among)
        · exact .inr ⟨b, below, met, plainM⟩

/-- **The descendants of a node** are the plain nodes below it. -/
theorem Placed.mem_descendants (inside : f.Has n) (tree : f.root n = r) :
    m ∈ f.descendants n ↔ f.Has m ∧ f.Above n m ∧ f.Plain m := by
  rw [descendants, placed.mem_descendantsWithin linked inside tree]
  constructor
  · rintro ⟨c, held, met, plain⟩
    cases n with
    | binding owner index => exact absurd held (Array.not_mem_empty _)
    | item p =>
      obtain ⟨known, parent⟩ := Hangs.has_parent linked (.inr (.inr held))
      obtain ⟨has, covers⟩ := (linked.mem_walk_iff known).mp met
      rcases covers with rfl | above
      · exact ⟨has, .parent parent, plain⟩
      · exact ⟨has, .trans (.parent parent) above, plain⟩
  · rintro ⟨has, above, plain⟩
    obtain ⟨p, i, c, rfl, found, known, covers⟩ := linked.exists_child has plain above
    exact ⟨c, Array.mem_iff_getElem?.mpr ⟨i, found⟩, (linked.mem_walk_iff known).mpr ⟨has, covers⟩, plain⟩

theorem Placed.mem_subtree (inside : f.Has n) (tree : f.root n = r) (plain : f.Plain n) :
    m ∈ f.subtree n ↔ f.Has m ∧ f.Covers n m ∧ f.Plain m := by
  rw [subtree, List.mem_cons, placed.mem_descendants linked inside tree]
  constructor
  · rintro (rfl | ⟨has, above, plainM⟩)
    · exact ⟨inside, covers_self _, plain⟩
    · exact ⟨has, .inr above, plainM⟩
  · rintro ⟨has, same | above, plainM⟩
    · exact .inl same
    · exact .inr ⟨has, above, plainM⟩

end Placed

/-! ### Subtrees in document order -/

theorem subtreeWithin_sublist (depth : Nat) (n : Node) :
    (n :: f.descendantsWithin depth n).Sublist (f.walkWithin (depth + 1) n) := by
  induction depth generalizing n with
  | zero => exact (List.nil_sublist _).cons_cons n
  | succ depth ih =>
    rw [descendantsWithin, walkWithin]
    have below : ((f.children n).toList.flatMap fun c => c :: f.descendantsWithin depth c).Sublist
        ((f.children n).toList.flatMap (f.walkWithin (depth + 1))) :=
      List.Sublist.flatMap_right _ fun c _ => ih c
    exact ((below.trans (List.sublist_append_right _ _)).trans (List.sublist_append_right _ _)).cons_cons n

/-- Addresses rise along the descendants of a node. -/
theorem Linked.pairwise_subtree (linked : f.Linked) (n : Node) :
    (f.subtree n).Pairwise fun a b => f.address a < f.address b :=
  (linked.pairwise_walkWithin _ n).sublist (subtreeWithin_sublist _ n)

/-- Addresses rise along the subtrees of some children of a node, one after the other. -/
theorem Linked.pairwise_subtrees (linked : f.Linked) {nodes : List Node}
    (some : nodes.Sublist (f.children n).toList) :
    (nodes.flatMap f.subtree).Pairwise fun a b => f.address a < f.address b := by
  have all : (n :: (f.children n).toList.flatMap f.subtree).Pairwise fun a b => f.address a < f.address b :=
    (linked.pairwise_walkWithin _ n).sublist (subtreeWithin_sublist (f.nodes.size + 2) n)
  exact all.of_cons.sublist (some.flatMap f.subtree)

theorem ne_of_address_lt {a b : Node} (less : f.address a < f.address b) : a ≠ b := by
  rintro rfl
  exact absurd less (lt_irrefl _)

/-! ### Siblings -/

/-- Addresses rise along the children of a node. -/
theorem Linked.pairwise_children (linked : f.Linked) (n : Node) :
    (f.children n).toList.Pairwise fun a b => f.address a < f.address b := by
  have tops : (f.children n).toList.Sublist ((f.children n).toList.flatMap f.subtree) := by
    have each : ((f.children n).toList.flatMap fun c => [c]).Sublist
        ((f.children n).toList.flatMap f.subtree) :=
      List.Sublist.flatMap_right _ fun c _ => (List.nil_sublist _).cons_cons c
    rwa [List.flatMap_singleton'] at each
  exact (linked.pairwise_subtrees (List.Sublist.refl _)).sublist tops

/-- There are at most as many children as nodes. -/
theorem Linked.length_children_le (linked : f.Linked) (n : Node) :
    (f.children n).toList.length ≤ f.nodes.size := by
  have distinct : (f.children n).toList.Nodup :=
    (linked.pairwise_children n).imp fun less => ne_of_address_lt less
  have known : (f.children n).toList ⊆ (List.range f.nodes.size).map Node.item := by
    intro c held
    rw [Array.mem_toList_iff] at held
    cases n with
    | binding owner index => exact absurd held (Array.not_mem_empty _)
    | item p =>
      obtain ⟨i, found⟩ := Array.mem_iff_getElem?.mp held
      obtain ⟨id, rfl, parent, -⟩ := linked.ofChild _ _ _ found
      exact List.mem_map.mpr ⟨id, List.mem_range.mpr (lt_size_of_parent? parent), rfl⟩
  have short := (List.subperm_of_subset distinct known).length_le
  rwa [List.length_map, List.length_range] at short

section Siblings

variable (linked : f.Linked) (placed : f.Placed r)

include linked placed

theorem Placed.nextSibling?_eq {p i : Nat} {c : Node} (tree : f.root (.item p) = r)
    (found : (f.children (.item p))[i]? = some c) : f.nextSibling? c = (f.children (.item p))[i + 1]? := by
  have plain : f.Plain c := placed.plain_child linked tree (Array.mem_iff_getElem?.mpr ⟨i, found⟩)
  obtain ⟨id, rfl, parent, index, -⟩ := linked.ofChild _ _ _ found
  rw [nextSibling?, plain, parent, index]
  rfl

theorem Placed.previousSibling?_eq {p i : Nat} {c : Node} (tree : f.root (.item p) = r)
    (found : (f.children (.item p))[i]? = some c) :
    f.previousSibling? c = if i = 0 then none else (f.children (.item p))[i - 1]? := by
  have plain : f.Plain c := placed.plain_child linked tree (Array.mem_iff_getElem?.mpr ⟨i, found⟩)
  obtain ⟨id, rfl, parent, index, -⟩ := linked.ofChild _ _ _ found
  rw [previousSibling?, plain, parent, index, Bool.false_or]
  simp only [beq_iff_eq]

theorem Placed.iterate_nextSibling? {p i fuel : Nat} {c : Node} (tree : f.root (.item p) = r)
    (found : (f.children (.item p))[i]? = some c) :
    iterate f.nextSibling? fuel c = ((f.children (.item p)).toList.drop (i + 1)).take fuel := by
  induction fuel generalizing i c with
  | zero => rfl
  | succ fuel ih =>
    rw [iterate, placed.nextSibling?_eq linked tree found]
    cases next : (f.children (.item p))[i + 1]? with
    | none =>
      rw [← Array.getElem?_toList, List.getElem?_eq_none_iff] at next
      rw [List.drop_eq_nil_of_le next]
      rfl
    | some d =>
      dsimp only
      rw [ih next]
      rw [← Array.getElem?_toList] at next
      obtain ⟨short, rfl⟩ := List.getElem?_eq_some_iff.mp next
      rw [List.drop_eq_getElem_cons short, List.take_succ_cons]

theorem Placed.iterate_previousSibling? {p i fuel : Nat} {c : Node} (tree : f.root (.item p) = r)
    (found : (f.children (.item p))[i]? = some c) :
    iterate f.previousSibling? fuel c = ((f.children (.item p)).toList.take i).reverse.take fuel := by
  induction fuel generalizing i c with
  | zero => rfl
  | succ fuel ih =>
    rw [iterate, placed.previousSibling?_eq linked tree found]
    cases i with
    | zero => rfl
    | succ i =>
      rw [← Array.getElem?_toList] at found
      have short : i < (f.children (.item p)).toList.length :=
        Nat.lt_of_succ_lt (List.getElem?_eq_some_iff.mp found).1
      have previous : (f.children (.item p))[i]? = some ((f.children (.item p)).toList[i]) := by
        rw [← Array.getElem?_toList]
        exact List.getElem?_eq_getElem short
      rw [if_neg (Nat.succ_ne_zero i), Nat.add_sub_cancel, previous]
      dsimp only
      rw [ih previous, List.take_succ_eq_append_getElem short, List.reverse_append, List.reverse_singleton,
        List.singleton_append, List.take_succ_cons]

/-- **The siblings after a node** are the rest of the children of its parent. -/
theorem Placed.followingSiblings_eq {p : Nat} (tree : f.root n = r) (plain : f.Plain n)
    (parent : f.parent? n = some p) :
    f.followingSiblings n = (f.children (.item p)).toList.drop (f.index n + 1) := by
  rw [followingSiblings, placed.iterate_nextSibling? linked ((linked.root_eq parent).symm.trans tree)
    (linked.child_of_plain plain parent)]
  refine List.take_of_length_le (le_trans ?_ (linked.length_children_le (.item p)))
  rw [List.length_drop]
  exact Nat.sub_le _ _

/-- **The siblings before a node** are the children of its parent up to it, the nearest first. -/
theorem Placed.precedingSiblings_eq {p : Nat} (tree : f.root n = r) (plain : f.Plain n)
    (parent : f.parent? n = some p) :
    f.precedingSiblings n = ((f.children (.item p)).toList.take (f.index n)).reverse := by
  rw [precedingSiblings, placed.iterate_previousSibling? linked ((linked.root_eq parent).symm.trans tree)
    (linked.child_of_plain plain parent)]
  refine List.take_of_length_le (le_trans ?_ (linked.length_children_le (.item p)))
  rw [List.length_reverse, List.length_take]
  exact Nat.min_le_right _ _

omit linked placed in
/-- Roots, attributes and namespace nodes have no siblings. -/
theorem followingSiblings_eq_nil (alone : f.parent? n = none ∨ ¬ f.Plain n) : f.followingSiblings n = [] := by
  have last : f.nextSibling? n = none := by
    unfold nextSibling?
    rcases alone with top | like
    · rw [top]
      exact ite_self _
    · rw [if_pos (Bool.not_eq_false _ ▸ like)]
  unfold followingSiblings
  cases f.nodes.size with
  | zero => rfl
  | succ fuel => rw [iterate, last]

omit linked placed in
theorem precedingSiblings_eq_nil (alone : f.parent? n = none ∨ ¬ f.Plain n) : f.precedingSiblings n = [] := by
  have first : f.previousSibling? n = none := by
    unfold previousSibling?
    rcases alone with top | like
    · rw [top]
      exact ite_self _
    · rw [(Bool.not_eq_false _ ▸ like : (f.kind n).isAttributeLike = true), Bool.true_or, if_pos rfl]
  unfold precedingSiblings
  cases f.nodes.size with
  | zero => rfl
  | succ fuel => rw [iterate, first]

end Siblings

end Forest

end XPathAnnotator
