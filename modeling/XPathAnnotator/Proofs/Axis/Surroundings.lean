/-
**The axes around a node.**

From every node the axes `ancestor`, `descendant`, `preceding` and `following` lead to the plain nodes of the
tree, or of the subtree of the virtual root, and tell them apart: those on the way up, those below, and the
others before and after in document order.

* `Around` — the nodes that these axes tell apart;
* `mem_ancestorsOf`, `mem_followingOf`, `mem_precedingOf` — the nodes of each axis;
* `pairwise_ancestorsOf`, `pairwise_followingOf`, `pairwise_precedingOf` — the order in which they come;
* `axes_around` — all of it, with the partitions that follow.
-/

import Mathlib
import XPathAnnotator.Axis.Walk
import XPathAnnotator.Proofs.Tree.Subtrees

namespace XPathAnnotator

namespace Forest

/-- The nodes that are told apart from a node: the plain nodes of the tree with a root, at or below the virtual
root if there is one. -/
structure Around (f : Forest) (virtualRoot : Option Node) (r m : Node) : Prop where
  has : f.Has m
  root : f.root m = r
  plain : f.Plain m
  under : ∀ v, virtualRoot = some v → f.Covers v m

variable {f : Forest} {virtualRoot : Option Node} {r a m n : Node}

theorem isVirtualRoot_iff : Axis.isVirtualRoot virtualRoot n = true ↔ virtualRoot = some n := beq_iff_eq

theorem isVirtualRoot_eq_false : Axis.isVirtualRoot virtualRoot n = false ↔ virtualRoot ≠ some n := by
  rw [← Bool.not_eq_true, isVirtualRoot_iff]

/-- Below the virtual root its parent chain is not left. -/
theorem under_parent {p : Nat} (under : ∀ v, virtualRoot = some v → f.Covers v n)
    (below : virtualRoot ≠ some n) (parent : f.parent? n = some p) :
    ∀ v, virtualRoot = some v → f.Covers v (.item p) := by
  rintro v rfl
  rcases under v rfl with rfl | above
  · exact absurd rfl below
  · exact (above_iff parent).mp above

/-- What covers a node around another one is around it as well, at or below the virtual root. -/
theorem Around.of_covers (linked : f.Linked) (around : f.Around virtualRoot r m) (covers : f.Covers a m)
    (under : ∀ v, virtualRoot = some v → f.Covers v a) : f.Around virtualRoot r a where
  has := covers.has linked around.has
  root := (covers.root linked).trans around.root
  plain := by
    rcases covers with rfl | above
    · exact around.plain
    · exact plain_of_kind (above.kind linked around.has)
  under := under

/-- So is every plain node that such a node covers. -/
theorem Around.covered (linked : f.Linked) (around : f.Around virtualRoot r a) (covers : f.Covers a m)
    (has : f.Has m) (plain : f.Plain m) : f.Around virtualRoot r m :=
  ⟨has, (covers.root linked).symm.trans around.root, plain, fun v root => .trans (around.under v root) covers⟩

/-- Where climbing ends, everything around is covered. -/
theorem Around.covers_of_top (linked : f.Linked) (around : f.Around virtualRoot r a)
    (top : virtualRoot = some a ∨ f.parent? a = none) (other : f.Around virtualRoot r m) : f.Covers a m := by
  rcases top with top | parent
  · exact other.under a top
  · have covers := linked.covers_root m
    rwa [other.root, ← around.root, root_eq_self parent] at covers

/-- Climbing to the virtual root or to the root of the tree. -/
theorem Around.climb (linked : f.Linked) {P : Node → Prop}
    (top : ∀ a, f.Around virtualRoot r a → virtualRoot = some a ∨ f.parent? a = none → P a)
    (step : ∀ a p, f.Around virtualRoot r a → virtualRoot ≠ some a → f.parent? a = some p →
      f.Around virtualRoot r (.item p) → P (.item p) → P a)
    (around : f.Around virtualRoot r a) : P a := by
  refine linked.climb (P := fun a => f.Around virtualRoot r a → P a) (fun a ih around => ?_) a around
  by_cases here : virtualRoot = some a
  · exact top a around (.inl here)
  cases parent : f.parent? a with
  | none => exact top a around (.inr parent)
  | some p =>
    have aroundP : f.Around virtualRoot r (.item p) :=
      around.of_covers linked (.inr (.parent parent)) (under_parent around.under here parent)
    exact step a p around here parent aroundP (ih p parent aroundP)

/-! ### Ancestors -/

theorem ancestorsOf_virtualRoot : Axis.ancestorsOf f (some n) n = [] := by
  rw [Axis.ancestorsOf, if_pos (isVirtualRoot_iff.mpr rfl)]

theorem ancestorsOf_eq_nil (parent : f.parent? n = none) : Axis.ancestorsOf f virtualRoot n = [] := by
  rw [Axis.ancestorsOf, ancestors_eq_nil parent]
  exact ite_self _

theorem Linked.ancestorsOf_eq (linked : f.Linked) {p : Nat} (below : virtualRoot ≠ some n)
    (parent : f.parent? n = some p) :
    Axis.ancestorsOf f virtualRoot n = .item p :: Axis.ancestorsOf f virtualRoot (.item p) := by
  rw [Axis.ancestorsOf, isVirtualRoot_eq_false.mpr below, linked.ancestors_eq parent, Axis.upTo,
    Axis.ancestorsOf]
  by_cases last : Axis.isVirtualRoot virtualRoot (.item p) = true
  · rw [if_pos last, if_pos last]
    rfl
  · rw [if_neg last, if_neg last]
    rfl

/-- **The ancestor axis** ends at the virtual root. -/
theorem Linked.mem_ancestorsOf (linked : f.Linked) (under : ∀ v, virtualRoot = some v → f.Covers v n) :
    m ∈ Axis.ancestorsOf f virtualRoot n ↔ f.Above m n ∧ ∀ v, virtualRoot = some v → f.Covers v m := by
  refine linked.climb (P := fun n => (∀ v, virtualRoot = some v → f.Covers v n) →
    (m ∈ Axis.ancestorsOf f virtualRoot n ↔ f.Above m n ∧ ∀ v, virtualRoot = some v → f.Covers v m))
    (fun n ih under => ?_) n under
  by_cases top : virtualRoot = some n
  · subst top
    rw [ancestorsOf_virtualRoot]
    refine iff_of_false List.not_mem_nil ?_
    rintro ⟨above, covers⟩
    rcases covers n rfl with rfl | below
    · exact above.irrefl linked
    · exact above.asymm linked below
  cases parent : f.parent? n with
  | none =>
    rw [ancestorsOf_eq_nil parent]
    exact iff_of_false List.not_mem_nil fun ⟨above, _⟩ => not_above parent above
  | some p =>
    have underP := under_parent under top parent
    rw [linked.ancestorsOf_eq top parent, List.mem_cons, ih p parent underP, above_iff parent]
    constructor
    · rintro (rfl | ⟨above, covers⟩)
      · exact ⟨covers_self _, underP⟩
      · exact ⟨.inr above, covers⟩
    · rintro ⟨same | above, covers⟩
      · exact .inl same.symm
      · exact .inr ⟨above, covers⟩

/-- Ancestors come from the nearest on. -/
theorem Linked.pairwise_ancestorsOf (linked : f.Linked) (virtualRoot : Option Node) (n : Node) :
    (Axis.ancestorsOf f virtualRoot n).Pairwise fun a b => f.address b < f.address a := by
  have chain : (f.ancestors n).Pairwise fun a b => f.address b < f.address a := by
    refine linked.climb (P := fun n => (f.ancestors n).Pairwise fun a b => f.address b < f.address a)
      (fun n ih => ?_) n
    cases parent : f.parent? n with
    | none =>
      rw [ancestors_eq_nil parent]
      exact .nil
    | some p =>
      rw [linked.ancestors_eq parent]
      exact .cons (fun a member => (linked.mem_ancestors.mp member).address_lt linked) (ih p parent)
  have cut : ∀ nodes : List Node, (Axis.upTo (Axis.isVirtualRoot virtualRoot) nodes).Sublist nodes := by
    intro nodes
    induction nodes with
    | nil => exact .slnil
    | cons b nodes ih =>
      rw [Axis.upTo]
      split
      · exact (List.nil_sublist nodes).cons_cons b
      · exact ih.cons_cons b
  unfold Axis.ancestorsOf
  split
  · exact .nil
  · exact chain.sublist (cut _)

/-! ### Nodes after a node -/

/-- The subtrees of the siblings after a node, then those after its parent, and so on up to the virtual root. -/
def afterOf (f : Forest) (virtualRoot : Option Node) (a : Node) : List Node :=
  ((f.lineage a).takeWhile fun b => !Axis.isVirtualRoot virtualRoot b).flatMap fun b =>
    (f.followingSiblings b).flatMap f.subtree

theorem afterOf_top (top : virtualRoot = some a ∨ f.parent? a = none) : f.afterOf virtualRoot a = [] := by
  rcases top with top | parent
  · rw [afterOf, lineage, List.takeWhile_cons, isVirtualRoot_iff.mpr top]
    rfl
  · rw [afterOf, lineage, ancestors_eq_nil parent, List.takeWhile_cons, List.takeWhile_nil]
    split
    · rw [List.flatMap_singleton, followingSiblings_eq_nil (.inl parent)]
      rfl
    · rfl

theorem Linked.afterOf_eq (linked : f.Linked) {p : Nat} (below : virtualRoot ≠ some a)
    (parent : f.parent? a = some p) :
    f.afterOf virtualRoot a = (f.followingSiblings a).flatMap f.subtree ++ f.afterOf virtualRoot (.item p) := by
  rw [afterOf, linked.lineage_eq parent, List.takeWhile_cons, isVirtualRoot_eq_false.mpr below]
  rfl

section Placed

variable (linked : f.Linked) (placed : f.Placed r)

include linked placed

omit placed in
/-- Outside the subtree of its parent a node compares as the parent. -/
theorem Linked.address_lt_outside {p : Nat} (has : f.Has n) (parent : f.parent? n = some p) (hasM : f.Has m)
    (tree : f.root m = f.root n) (apart : ¬ f.Covers (.item p) m) :
    (f.address n < f.address m ↔ f.address (.item p) < f.address m) ∧
      (f.address m < f.address n ↔ f.address m < f.address (.item p)) := by
  rw [linked.covers_iff (has.parent linked parent) hasM ((linked.root_eq parent).symm.trans tree.symm)] at apart
  rw [linked.address_eq parent]
  exact ⟨append_lt_iff_of_apart apart, lt_append_iff_of_apart apart⟩

omit placed in
/-- What comes after a node, and not below it, comes after all that the node covers. -/
theorem Linked.address_lt_after {b : Node} (around : f.Around virtualRoot r a) (covers : f.Covers a b)
    (other : f.Around virtualRoot r m) (less : f.address a < f.address m) (apart : ¬ f.Covers a m) :
    f.address b < f.address m := by
  rw [linked.covers_iff around.has other.has (around.root.trans other.root.symm)] at apart
  obtain ⟨t, whole⟩ := covers.address linked
  rwa [← whole, append_lt_iff_of_apart apart]

/-- The subtrees of the siblings after a node: what comes after it below its parent. -/
theorem Placed.mem_followingSubtrees {p : Nat} (tree : f.root a = r) (plain : f.Plain a)
    (parent : f.parent? a = some p) :
    m ∈ (f.followingSiblings a).flatMap f.subtree ↔
      f.Has m ∧ f.Plain m ∧ f.Covers (.item p) m ∧ f.address a < f.address m ∧ ¬ f.Covers a m := by
  have treeP : f.root (.item p) = r := (linked.root_eq parent).symm.trans tree
  have place := linked.child_of_plain plain parent
  have addressA := linked.address_child place
  rw [placed.followingSiblings_eq linked tree plain parent, List.mem_flatMap]
  constructor
  · rintro ⟨s, later, met⟩
    obtain ⟨k, found⟩ := List.mem_iff_getElem?.mp later
    rw [List.getElem?_drop, Array.getElem?_toList] at found
    have held : s ∈ f.children (.item p) := Array.mem_iff_getElem?.mpr ⟨_, found⟩
    obtain ⟨known, under⟩ := Hangs.has_parent linked (.inr (.inr held))
    obtain ⟨has, covers, plainM⟩ := (placed.mem_subtree linked known ((linked.root_eq under).trans treeP)
      (placed.plain_child linked treeP held)).mp met
    obtain ⟨t, whole⟩ := covers.address linked
    rw [linked.address_child found, List.append_assoc] at whole
    refine ⟨has, plainM, .trans (.inr (.parent under)) covers, ?_, fun again => ?_⟩
    · rw [addressA, ← whole]
      exact List.append_left_lt (List.cons_lt_cons_iff.mpr
        (.inr ⟨rfl, List.cons_lt_cons_iff.mpr (.inl (by omega))⟩))
    · have start := again.address linked
      rw [addressA, ← whole, List.prefix_append_right_inj] at start
      have same := ((List.cons_prefix_cons.mp (List.cons_prefix_cons.mp start).2)).1
      omega
  · rintro ⟨has, plainM, covers, less, apart⟩
    have up : f.address (.item p) < f.address a := (Above.parent parent).address_lt linked
    rcases covers with rfl | above
    · exact absurd less up.asymm
    obtain ⟨q, j, c, same, found, known, covers⟩ := linked.exists_child has plainM above
    obtain rfl := Node.item.inj same
    have held : c ∈ f.children (.item p) := Array.mem_iff_getElem?.mpr ⟨j, found⟩
    have under := (linked.spot_child found).1
    have later : f.index a < j := by
      obtain ⟨t, whole⟩ := covers.address linked
      rw [addressA, ← whole, linked.address_child found, List.append_assoc, append_left_lt_iff] at less
      rcases List.cons_lt_cons_iff.mp less with impossible | ⟨-, less⟩
      · exact absurd impossible (lt_irrefl _)
      rcases List.cons_lt_cons_iff.mp less with later | ⟨here, -⟩
      · exact later
      · rw [here, found] at place
        obtain rfl := Option.some.inj place
        exact absurd covers apart
    refine ⟨c, List.mem_iff_getElem?.mpr ⟨j - (f.index a + 1), ?_⟩, (placed.mem_subtree linked known
      ((linked.root_eq under).trans treeP) (placed.plain_child linked treeP held)).mpr ⟨has, covers, plainM⟩⟩
    rw [List.getElem?_drop, Array.getElem?_toList, Nat.add_sub_cancel' later]
    exact found

/-- **What comes after a plain node** and not below it. -/
theorem Placed.mem_afterOf (around : f.Around virtualRoot r a) :
    m ∈ f.afterOf virtualRoot a ↔
      f.Around virtualRoot r m ∧ f.address a < f.address m ∧ ¬ f.Covers a m := by
  refine around.climb linked (P := fun a => m ∈ f.afterOf virtualRoot a ↔
      f.Around virtualRoot r m ∧ f.address a < f.address m ∧ ¬ f.Covers a m)
    (fun a around top => ?_) fun a p around below parent aroundP ih => ?_
  · rw [afterOf_top top]
    exact iff_of_false List.not_mem_nil fun ⟨other, _, apart⟩ => apart (around.covers_of_top linked top other)
  rw [linked.afterOf_eq below parent, List.mem_append,
    placed.mem_followingSubtrees linked around.root around.plain parent, ih]
  constructor
  · rintro (⟨hasM, plainM, covers, less, apart⟩ | ⟨other, less, apart⟩)
    · exact ⟨aroundP.covered linked covers hasM plainM, less, apart⟩
    · have outside := linked.address_lt_outside around.has parent other.has (other.root.trans around.root.symm) apart
      exact ⟨other, outside.1.mpr less, fun again => apart (.trans (.inr (.parent parent)) again)⟩
  · rintro ⟨other, less, apart⟩
    by_cases covers : f.Covers (.item p) m
    · exact .inl ⟨other.has, other.plain, covers, less, apart⟩
    · have outside := linked.address_lt_outside around.has parent other.has (other.root.trans around.root.symm) covers
      exact .inr ⟨other, outside.1.mp less, covers⟩

/-- Addresses rise along what comes after a plain node. -/
theorem Placed.pairwise_afterOf (around : f.Around virtualRoot r a) :
    (f.afterOf virtualRoot a).Pairwise fun b c => f.address b < f.address c := by
  refine around.climb linked (P := fun a => (f.afterOf virtualRoot a).Pairwise fun b c => f.address b < f.address c)
    (fun a _ top => ?_) fun a p around below parent aroundP ih => ?_
  · rw [afterOf_top top]
    exact .nil
  rw [linked.afterOf_eq below parent]
  refine List.pairwise_append.mpr ⟨?_, ih, fun b besideB c afterC => ?_⟩
  · rw [placed.followingSiblings_eq linked around.root around.plain parent]
    exact linked.pairwise_subtrees (List.drop_sublist _ _)
  · obtain ⟨-, -, covers, -⟩ := (placed.mem_followingSubtrees linked around.root around.plain parent).mp besideB
    obtain ⟨other, less, apart⟩ := (placed.mem_afterOf linked aroundP).mp afterC
    exact linked.address_lt_after aroundP covers other less apart

/-! ### Attributes and namespace nodes -/

/-- Below the owner of an attribute or a namespace node everything plain comes after that. -/
theorem Placed.address_lt_below {p : Nat} (has : f.Has n) (tree : f.root n = r) (like : ¬ f.Plain n)
    (parent : f.parent? n = some p) (hasM : f.Has m) (plainM : f.Plain m) (above : f.Above (.item p) m) :
    f.address n < f.address m := by
  obtain ⟨q, j, c, same, found, -, covers⟩ := linked.exists_child hasM plainM above
  obtain rfl := Node.item.inj same
  obtain ⟨t, whole⟩ := covers.address linked
  rw [linked.address_eq parent, ← whole, linked.address_child found, List.append_assoc, append_left_lt_iff]
  cases n with
  | binding owner index => exact List.cons_lt_cons_iff.mpr (.inl (by decide))
  | item id =>
    have genuine : f.Genuine (.item id) := placed _ p has tree parent
    have among : f.listed (.item id) = true := genuine (Bool.not_eq_false _ ▸ like)
    rw [spot, among]
    exact List.cons_lt_cons_iff.mpr (.inl (by decide))

omit placed in
theorem Linked.not_above_of_not_plain (like : ¬ f.Plain n) (hasM : f.Has m) :
    ¬ f.Above n m := fun above => like (plain_of_kind (above.kind linked hasM))

end Placed

/-! ### Following and preceding nodes -/

theorem anchor?_of_plain (plain : f.Plain n) : Axis.anchor? f n = some n := by
  unfold Axis.anchor?
  rw [plain]
  rfl

theorem anchor?_of_not_plain (like : ¬ f.Plain n) : Axis.anchor? f n = (f.parent? n).map Node.item := by
  unfold Axis.anchor?
  rw [if_pos (Bool.not_eq_false _ ▸ like)]

/-- The nodes before a node below the top of its tree, without its ancestors. -/
def beforeOf (f : Forest) (virtualRoot : Option Node) (a : Node) : List Node :=
  ((f.subtree (Axis.rootOf f virtualRoot a)).takeWhile (· != a)).filter fun m => !(f.ancestors a).contains m

theorem followingOf_of_plain (plain : f.Plain n) : Axis.followingOf f virtualRoot n = f.afterOf virtualRoot n := by
  rw [Axis.followingOf, anchor?_of_plain plain]
  dsimp only
  rw [if_pos (beq_self_eq_true n)]
  rfl

theorem precedingOf_of_plain (plain : f.Plain n) :
    Axis.precedingOf f virtualRoot n = f.beforeOf virtualRoot n := by
  rw [Axis.precedingOf, anchor?_of_plain plain]
  dsimp only
  rw [bne_self_eq_false, Bool.false_and]
  rfl

/-- An attribute or a namespace node without an owner has nothing around it. -/
theorem axes_of_detached (like : ¬ f.Plain n) (parent : f.parent? n = none) :
    Axis.followingOf f virtualRoot n = [] ∧ Axis.precedingOf f virtualRoot n = [] := by
  rw [Axis.followingOf, Axis.precedingOf, anchor?_of_not_plain like, parent]
  exact ⟨rfl, rfl⟩

section Owned

variable (linked : f.Linked) {p : Nat} (like : ¬ f.Plain n) (parent : f.parent? n = some p)

include linked like parent

theorem Linked.owner_ne (has : f.Has n) : Node.item p ≠ n := by
  have plain : f.Plain (.item p) := plain_of_kind ((Above.parent parent).kind linked has)
  rintro rfl
  exact like plain

/-- The virtual root is plain, so it covers the owner of what it covers. -/
theorem Linked.around_owner (has : f.Has n) (tree : f.root n = r)
    (rooted : ∀ v, virtualRoot = some v → f.Plain v ∧ f.Covers v n) : f.Around virtualRoot r (.item p) where
  has := has.parent linked parent
  root := (linked.root_eq parent).symm.trans tree
  plain := plain_of_kind ((Above.parent parent).kind linked has)
  under := by
    refine under_parent (fun v root => (rooted v root).2) ?_ parent
    rintro rfl
    exact like (rooted n rfl).1

theorem Linked.followingOf_owned (has : f.Has n) :
    Axis.followingOf f virtualRoot n = f.descendants (.item p) ++ f.afterOf virtualRoot (.item p) := by
  have other := linked.owner_ne like parent has
  rw [Axis.followingOf, anchor?_of_not_plain like, parent]
  dsimp only [Option.map_some]
  rw [if_neg (mt beq_iff_eq.mp other)]
  rfl

omit linked in
/-- The owner of an attribute or a namespace node is an element. -/
theorem Placed.isElement_owner (placed : f.Placed r) (has : f.Has n) (tree : f.root n = r) :
    f.isElement (.item p) = true := by
  have held : f.element? p ≠ none := by
    intro none
    cases n with
    | binding owner index =>
      obtain rfl : owner = p := Option.some.inj parent
      simp only [Has, bindings, none, List.length_nil, Nat.not_lt_zero] at has
    | item id =>
      have genuine : f.Genuine (.item id) := placed _ p has tree parent
      have among := (listed_eq_true parent).mp (genuine (Bool.not_eq_false _ ▸ like))
      simp only [attributes, none, Option.map_none, Option.getD_none, Array.not_mem_empty] at among
  unfold isElement kind
  unfold element? at held
  split at held
  next found =>
    dsimp only
    rw [found]
    rfl
  next => exact absurd rfl held

omit linked in
theorem Placed.precedingOf_owned (placed : f.Placed r) (has : f.Has n) (tree : f.root n = r) :
    Axis.precedingOf f virtualRoot n = f.beforeOf virtualRoot (.item p) := by
  rw [Axis.precedingOf, anchor?_of_not_plain like, parent]
  dsimp only [Option.map_some]
  rw [placed.isElement_owner like parent has tree, Bool.not_true, Bool.and_false]
  rfl

end Owned

/-- In a list along which addresses rise, what comes before a node has a smaller address. -/
theorem mem_takeWhile_ne {nodes : List Node} (rising : nodes.Pairwise fun b c => f.address b < f.address c)
    (met : a ∈ nodes) : m ∈ nodes.takeWhile (· != a) ↔ m ∈ nodes ∧ f.address m < f.address a := by
  induction nodes with
  | nil => exact absurd met List.not_mem_nil
  | cons b nodes ih =>
    obtain ⟨first, rising⟩ := List.pairwise_cons.mp rising
    rw [List.takeWhile_cons]
    by_cases here : b = a
    · subst here
      rw [bne_self_eq_false, if_neg Bool.false_ne_true]
      refine iff_of_false List.not_mem_nil ?_
      rintro ⟨member, less⟩
      rcases List.mem_cons.mp member with rfl | later
      · exact absurd less (lt_irrefl _)
      · exact absurd less (first m later).asymm
    · have further : a ∈ nodes := (List.mem_cons.mp met).resolve_left (Ne.symm here)
      rw [if_pos (bne_iff_ne.mpr here), List.mem_cons, List.mem_cons, ih rising further]
      constructor
      · rintro (rfl | ⟨later, less⟩)
        · exact ⟨.inl rfl, first a further⟩
        · exact ⟨.inr later, less⟩
      · rintro ⟨rfl | later, less⟩
        · exact .inl rfl
        · exact .inr ⟨later, less⟩

/-- The top of a tree is around the nodes there, and covers all that is. -/
theorem Around.top (linked : f.Linked) (around : f.Around virtualRoot r a) :
    f.Around virtualRoot r (Axis.rootOf f virtualRoot a) ∧
      ∀ m, f.Around virtualRoot r m → f.Covers (Axis.rootOf f virtualRoot a) m := by
  unfold Axis.rootOf
  cases virtualRoot with
  | none =>
    refine ⟨around.of_covers linked (linked.covers_root a) ?_, fun m other => ?_⟩
    · exact fun v root => absurd root (Option.some_ne_none v).symm
    · rw [Option.getD_none, around.root, ← other.root]
      exact linked.covers_root m
  | some v =>
    refine ⟨around.of_covers linked (around.under v rfl) fun w root => ?_, fun m other => other.under v rfl⟩
    obtain rfl := Option.some.inj root
    exact covers_self _

/-- The nodes from the top of a tree on are those around its nodes. -/
theorem Placed.mem_subtree_rootOf (linked : f.Linked) (placed : f.Placed r) (around : f.Around virtualRoot r a) :
    m ∈ f.subtree (Axis.rootOf f virtualRoot a) ↔ f.Around virtualRoot r m := by
  obtain ⟨top, all⟩ := around.top linked
  rw [placed.mem_subtree linked top.has top.root top.plain]
  exact ⟨fun ⟨has, covers, plain⟩ => top.covered linked covers has plain,
    fun other => ⟨other.has, all m other, other.plain⟩⟩

theorem Placed.mem_beforeOf (linked : f.Linked) (placed : f.Placed r) (around : f.Around virtualRoot r a) :
    m ∈ f.beforeOf virtualRoot a ↔
      f.Around virtualRoot r m ∧ f.address m < f.address a ∧ ¬ f.Above m a := by
  have here : a ∈ f.subtree (Axis.rootOf f virtualRoot a) := (placed.mem_subtree_rootOf linked around).mpr around
  rw [beforeOf, List.mem_filter, mem_takeWhile_ne (linked.pairwise_subtree _) here,
    placed.mem_subtree_rootOf linked around, Bool.not_eq_true', ← Bool.not_eq_true,
    List.contains_iff_mem, linked.mem_ancestors, and_assoc]

section Axes

variable (linked : f.Linked) (placed : f.Placed r) (has : f.Has n) (tree : f.root n = r)
  (rooted : ∀ v, virtualRoot = some v → f.Plain v ∧ f.Covers v n)

include linked placed has tree rooted

/-- **The following axis.** -/
theorem Placed.mem_followingOf :
    m ∈ Axis.followingOf f virtualRoot n ↔
      f.Around virtualRoot r m ∧ f.address n < f.address m ∧ ¬ f.Above n m := by
  by_cases plain : f.Plain n
  · rw [followingOf_of_plain plain, placed.mem_afterOf linked ⟨has, tree, plain, fun v root => (rooted v root).2⟩]
    refine and_congr_right fun _ => and_congr_right fun less => not_congr ⟨fun covers => ?_, .inr⟩
    rcases covers with rfl | above
    · exact absurd less (lt_irrefl _)
    · exact above
  cases parent : f.parent? n with
  | none =>
    rw [(axes_of_detached plain parent).1]
    refine iff_of_false List.not_mem_nil fun ⟨around, less, apart⟩ => ?_
    have covers := linked.covers_root m
    rw [around.root, ← tree, root_eq_self parent] at covers
    rcases covers with rfl | above
    · exact absurd less (lt_irrefl _)
    · exact apart above
  | some p =>
    have owner : f.Around virtualRoot r (.item p) := linked.around_owner plain parent has tree rooted
    rw [linked.followingOf_owned plain parent has, List.mem_append,
      placed.mem_descendants linked owner.has owner.root, placed.mem_afterOf linked owner]
    constructor
    · rintro (⟨hasM, above, plainM⟩ | ⟨around, less, apart⟩)
      · exact ⟨owner.covered linked (.inr above) hasM plainM,
          placed.address_lt_below linked has tree plain parent hasM plainM above,
          linked.not_above_of_not_plain plain hasM⟩
      · have outside := linked.address_lt_outside has parent around.has (around.root.trans tree.symm) apart
        exact ⟨around, outside.1.mpr less, linked.not_above_of_not_plain plain around.has⟩
    · rintro ⟨around, less, -⟩
      by_cases covers : f.Covers (.item p) m
      · rcases covers with rfl | above
        · exact absurd less ((Above.parent parent).address_lt linked).asymm
        · exact .inl ⟨around.has, above, around.plain⟩
      · have outside := linked.address_lt_outside has parent around.has (around.root.trans tree.symm) covers
        exact .inr ⟨around, outside.1.mp less, covers⟩

/-- **The preceding axis.** -/
theorem Placed.mem_precedingOf :
    m ∈ Axis.precedingOf f virtualRoot n ↔
      f.Around virtualRoot r m ∧ f.address m < f.address n ∧ ¬ f.Above m n := by
  by_cases plain : f.Plain n
  · rw [precedingOf_of_plain plain, placed.mem_beforeOf linked ⟨has, tree, plain, fun v root => (rooted v root).2⟩]
  cases parent : f.parent? n with
  | none =>
    rw [(axes_of_detached plain parent).2]
    refine iff_of_false List.not_mem_nil fun ⟨_, less, _⟩ => ?_
    rw [address_eq_nil parent] at less
    exact absurd less (List.not_lt_nil _)
  | some p =>
    have owner : f.Around virtualRoot r (.item p) := linked.around_owner plain parent has tree rooted
    rw [placed.precedingOf_owned plain parent has tree, placed.mem_beforeOf linked owner]
    refine and_congr_right fun around => ?_
    rw [above_iff parent]
    by_cases covers : f.Covers (.item p) m
    · refine iff_of_false (fun ⟨less, _⟩ => ?_) (fun ⟨less, apart⟩ => ?_)
      · rcases covers with rfl | above
        · exact absurd less (lt_irrefl _)
        · exact absurd less (above.address_lt linked).asymm
      · rcases covers with rfl | above
        · exact apart (covers_self _)
        · exact absurd less
            (placed.address_lt_below linked has tree plain parent around.has around.plain above).asymm
    · have outside := linked.address_lt_outside has parent around.has (around.root.trans tree.symm) covers
      rw [outside.2]
      refine and_congr_right fun _ => not_congr ⟨.inr, fun again => ?_⟩
      rcases again with rfl | above
      · exact absurd (covers_self _) covers
      · exact above

/-- The following axis comes in document order. -/
theorem Placed.pairwise_followingOf :
    (Axis.followingOf f virtualRoot n).Pairwise fun b c => f.address b < f.address c := by
  by_cases plain : f.Plain n
  · rw [followingOf_of_plain plain]
    exact placed.pairwise_afterOf linked ⟨has, tree, plain, fun v root => (rooted v root).2⟩
  cases parent : f.parent? n with
  | none =>
    rw [(axes_of_detached plain parent).1]
    exact .nil
  | some p =>
    have owner : f.Around virtualRoot r (.item p) := linked.around_owner plain parent has tree rooted
    rw [linked.followingOf_owned plain parent has]
    refine List.pairwise_append.mpr ⟨(linked.pairwise_subtree _).of_cons, placed.pairwise_afterOf linked owner,
      fun b below c after => ?_⟩
    obtain ⟨-, above, -⟩ := (placed.mem_descendants linked owner.has owner.root).mp below
    obtain ⟨around, less, apart⟩ := (placed.mem_afterOf linked owner).mp after
    exact linked.address_lt_after owner (.inr above) around less apart

omit placed has tree rooted in
/-- The preceding axis comes in document order, too. -/
theorem Linked.pairwise_precedingOf :
    (Axis.precedingOf f virtualRoot n).Pairwise fun b c => f.address b < f.address c := by
  unfold Axis.precedingOf
  split
  · exact .nil
  split
  · exact .nil
  · exact ((linked.pairwise_subtree _).sublist (List.takeWhile_sublist _)).filter _

end Axes

/-! ### One axis for each node -/

/-- The axis on which a node around another one stands. -/
def axisTo (f : Forest) (n m : Node) : Axis :=
  if m = n then .self
  else if m ∈ f.ancestors n then .ancestor
  else if n ∈ f.ancestors m then .descendant
  else if f.order m n = .lt then .preceding
  else .following

theorem Around.of (around : f.Around virtualRoot r m) : f.Of r m :=
  ⟨around.has, genuine_of_plain around.plain, around.root⟩

/-- Where something is around a node, the root of the tree is plain. -/
theorem Placed.of_around (linked : f.Linked) (placed : f.Placed r) (has : f.Has n) (tree : f.root n = r)
    (around : f.Around virtualRoot r m) : f.Of r n := by
  have inTree : f.InTree r m := ⟨around.has, around.root⟩
  refine placed.of_inTree ?_ ⟨has, tree⟩
  by_contra like
  obtain rfl := inTree.eq_of_not_plain linked like
  exact like around.plain

section Telling

variable (linked : f.Linked) (positioned : f.Positioned) (placed : f.Placed r) (has : f.Has n)
  (tree : f.root n = r) (rooted : ∀ v, virtualRoot = some v → f.Plain v ∧ f.Covers v n)

include linked positioned placed has tree rooted

/-- The nodes of the axes, by document order and parent chains. -/
theorem Placed.mem_axes :
    (m ∈ Axis.ancestor.nodes f virtualRoot n ↔ f.Around virtualRoot r m ∧ f.Above m n) ∧
      (m ∈ Axis.descendant.nodes f virtualRoot n ↔ f.Around virtualRoot r m ∧ f.Above n m) ∧
      (m ∈ Axis.following.nodes f virtualRoot n ↔
        f.Around virtualRoot r m ∧ f.order n m = .lt ∧ ¬ f.Above n m) ∧
      (m ∈ Axis.preceding.nodes f virtualRoot n ↔
        f.Around virtualRoot r m ∧ f.order m n = .lt ∧ ¬ f.Above m n) := by
  have under : ∀ v, virtualRoot = some v → f.Covers v n := fun v root => (rooted v root).2
  refine ⟨?_, ?_, ?_, ?_⟩
  · refine (linked.mem_ancestorsOf under).trans ⟨fun ⟨above, covers⟩ => ⟨⟨above.has linked has,
      (above.root linked).trans tree, plain_of_kind (above.kind linked has), covers⟩, above⟩,
      fun ⟨around, above⟩ => ⟨above, around.under⟩⟩
  · refine (placed.mem_descendants linked has tree).trans ⟨fun ⟨hasM, above, plain⟩ => ⟨⟨hasM,
      (above.root linked).symm.trans tree, plain, fun v root => .trans (under v root) (.inr above)⟩, above⟩,
      fun ⟨around, above⟩ => ⟨around.has, above, around.plain⟩⟩
  · refine (placed.mem_followingOf linked has tree rooted).trans (and_congr_right fun around => ?_)
    rw [order_eq_lt_iff linked positioned (placed.of_around linked has tree around) around.of]
  · refine (placed.mem_precedingOf linked has tree rooted).trans (and_congr_right fun around => ?_)
    rw [order_eq_lt_iff linked positioned around.of (placed.of_around linked has tree around)]

omit rooted in
/-- A node around another one is before it or after it, above or below it, or that node itself. -/
theorem Placed.axisTo_iff (around : f.Around virtualRoot r m) :
    (f.axisTo n m = .self ↔ m = n) ∧
      (f.axisTo n m = .ancestor ↔ f.Above m n) ∧
      (f.axisTo n m = .descendant ↔ f.Above n m) ∧
      (f.axisTo n m = .following ↔ f.order n m = .lt ∧ ¬ f.Above n m) ∧
      (f.axisTo n m = .preceding ↔ f.order m n = .lt ∧ ¬ f.Above m n) := by
  have ofN := placed.of_around linked has tree around
  have before := order_eq_lt_iff linked positioned around.of ofN
  have after := order_eq_lt_iff linked positioned ofN around.of
  rw [before, after]
  unfold axisTo
  by_cases same : m = n
  · subst same
    simp [Above.irrefl linked]
  rw [if_neg same]
  by_cases up : f.Above m n
  · rw [if_pos (linked.mem_ancestors.mpr up)]
    simp [same, up, up.asymm linked, (up.address_lt linked).asymm]
  rw [if_neg (mt linked.mem_ancestors.mp up)]
  by_cases down : f.Above n m
  · rw [if_pos (linked.mem_ancestors.mpr down)]
    simp [same, up, down, (down.address_lt linked).asymm]
  rw [if_neg (mt linked.mem_ancestors.mp down)]
  simp only [before]
  have apart : f.address m ≠ f.address n := fun equal => same (around.of.address_inj linked ofN equal)
  rcases lt_or_gt_of_ne apart with less | greater
  · simp [same, up, down, less, less.asymm]
  · simp [same, up, down, greater, greater.asymm]

/-- **Every node around another one stands on one of the axes**, and on no other of them. -/
theorem Placed.mem_axis_iff {axis : Axis} (telling : axis ∈ [.ancestor, .descendant, .preceding, .following]) :
    m ∈ axis.nodes f virtualRoot n ↔ f.Around virtualRoot r m ∧ f.axisTo n m = axis := by
  obtain ⟨ancestor, descendant, following, preceding⟩ :=
    placed.mem_axes (m := m) linked positioned has tree rooted
  have told := fun around : f.Around virtualRoot r m => placed.axisTo_iff linked positioned has tree around
  simp only [List.mem_cons, List.not_mem_nil, or_false] at telling
  rcases telling with rfl | rfl | rfl | rfl
  · exact ancestor.trans (and_congr_right fun around => (told around).2.1.symm)
  · exact descendant.trans (and_congr_right fun around => (told around).2.2.1.symm)
  · exact preceding.trans (and_congr_right fun around => (told around).2.2.2.2.symm)
  · exact following.trans (and_congr_right fun around => (told around).2.2.2.1.symm)

theorem Placed.mem_axis_iff_of_plain (plain : f.Plain n) {axis : Axis}
    (telling : axis ∈ [.self, .ancestor, .descendant, .preceding, .following]) :
    m ∈ axis.nodes f virtualRoot n ↔ f.Around virtualRoot r m ∧ f.axisTo n m = axis := by
  rcases List.mem_cons.mp telling with rfl | telling
  · constructor
    · intro met
      obtain rfl := List.mem_singleton.mp met
      have around : f.Around virtualRoot r m := ⟨has, tree, plain, fun v root => (rooted v root).2⟩
      exact ⟨around, (placed.axisTo_iff linked positioned has tree around).1.mpr rfl⟩
    · rintro ⟨around, stands⟩
      exact List.mem_singleton.mpr ((placed.axisTo_iff linked positioned has tree around).1.mp stands)
  · exact placed.mem_axis_iff linked positioned has tree rooted telling

omit rooted in
/-- From an attribute or a namespace node nothing around it is on the axes `self` and `descendant`. -/
theorem Placed.axisTo_of_not_plain (like : ¬ f.Plain n) (around : f.Around virtualRoot r m) :
    f.axisTo n m ∈ [.ancestor, .preceding, .following] := by
  have told := placed.axisTo_iff linked positioned has tree around
  have notSelf : f.axisTo n m ≠ .self := by
    rw [Ne, told.1]
    rintro rfl
    exact like around.plain
  have notDescendant : f.axisTo n m ≠ .descendant := by
    rw [Ne, told.2.2.1]
    exact linked.not_above_of_not_plain like around.has
  unfold axisTo at notSelf notDescendant ⊢
  split_ifs at notSelf notDescendant ⊢
  all_goals first | exact absurd rfl notSelf | exact absurd rfl notDescendant | decide

end Telling

/-- Axes that tell nodes apart each meet their own. -/
theorem existsUnique_axis {axes : List Axis} {around : Prop}
    (each : ∀ axis ∈ axes, m ∈ axis.nodes f virtualRoot n ↔ around ∧ f.axisTo n m = axis)
    (stands : around → f.axisTo n m ∈ axes) :
    around ↔ ∃! axis, axis ∈ axes ∧ m ∈ axis.nodes f virtualRoot n := by
  constructor
  · intro holds
    refine ⟨f.axisTo n m, ⟨stands holds, (each _ (stands holds)).mpr ⟨holds, rfl⟩⟩, ?_⟩
    rintro axis ⟨telling, met⟩
    exact ((each axis telling).mp met).2.symm
  · rintro ⟨axis, ⟨telling, met⟩, -⟩
    exact ((each axis telling).mp met).1

theorem axisTo_mem (f : Forest) (n m : Node) :
    f.axisTo n m ∈ [.self, .ancestor, .descendant, .preceding, .following] := by
  unfold axisTo
  split_ifs
  all_goals decide

/-- **The axes around a node are the relations of the tree.** Take a node of a tree without misplaced attributes,
and a document or an element that covers it as virtual root, if there is one. Then its axes `ancestor`,
`descendant`, `following` and `preceding` consist of the plain nodes of the tree at or below the virtual root that
are above it, below it, and the others after and before it. None of them meets a node twice. All but `preceding`,
which comes in document order, lead away from the node. Each node around a plain one stands on exactly one of
these axes and `self`, and each node around an attribute or a namespace node on one of `ancestor`, `preceding`
and `following`. Two plain nodes follow and precede each other. -/
theorem axes_around (made : f.Made) (placed : f.Placed (f.root n)) (has : f.Has n)
    (rooted : ∀ v, virtualRoot = some v → (f.kind v = .element ∨ f.kind v = .document) ∧ f.Covers v n) :
    (∀ m,
      (m ∈ Axis.ancestor.nodes f virtualRoot n ↔ f.Around virtualRoot (f.root n) m ∧ f.Above m n) ∧
      (m ∈ Axis.descendant.nodes f virtualRoot n ↔ f.Around virtualRoot (f.root n) m ∧ f.Above n m) ∧
      (m ∈ Axis.following.nodes f virtualRoot n ↔
        f.Around virtualRoot (f.root n) m ∧ f.order n m = .lt ∧ ¬ f.Above n m) ∧
      (m ∈ Axis.preceding.nodes f virtualRoot n ↔
        f.Around virtualRoot (f.root n) m ∧ f.order m n = .lt ∧ ¬ f.Above m n)) ∧
    (∀ axis ∈ [.self, .ancestor, .descendant, .preceding, .following],
      (Axis.nodes f virtualRoot axis n).Nodup) ∧
    (f.Plain n → ∀ m, f.Around virtualRoot (f.root n) m ↔
      ∃! axis, axis ∈ [.self, .ancestor, .descendant, .preceding, .following] ∧
        m ∈ Axis.nodes f virtualRoot axis n) ∧
    (¬ f.Plain n → ∀ m, f.Around virtualRoot (f.root n) m ↔
      ∃! axis, axis ∈ [.ancestor, .preceding, .following] ∧ m ∈ Axis.nodes f virtualRoot axis n) ∧
    (f.Plain n → ∀ m, f.Around virtualRoot (f.root n) m →
      (m ∈ Axis.following.nodes f virtualRoot n ↔ n ∈ Axis.preceding.nodes f virtualRoot m)) ∧
    (Axis.ancestor.nodes f virtualRoot n).Pairwise (fun a b => f.order a b = .gt) ∧
    ∀ axis ∈ [.self, .descendant, .preceding, .following],
      (Axis.nodes f virtualRoot axis n).Pairwise fun a b => f.order a b = .lt := by
  obtain ⟨linked, positioned⟩ := made.linked_positioned
  have rooted' : ∀ v, virtualRoot = some v → f.Plain v ∧ f.Covers v n :=
    fun v root => ⟨plain_of_kind (rooted v root).1, (rooted v root).2⟩
  have under : ∀ v, virtualRoot = some v → f.Covers v n := fun v root => (rooted v root).2
  have each := fun m axis (telling : axis ∈ [Axis.ancestor, .descendant, .preceding, .following]) =>
    placed.mem_axis_iff (m := m) linked positioned has rfl rooted' telling
  have ofMet : ∀ axis ∈ [Axis.ancestor, .descendant, .preceding, .following],
      ∀ m ∈ axis.nodes f virtualRoot n, f.Of (f.root n) m :=
    fun axis telling m met => ((each m axis telling).mp met).1.of
  have falls := linked.pairwise_ancestorsOf virtualRoot n
  have rises : ∀ axis ∈ [Axis.self, .descendant, .preceding, .following],
      (Axis.nodes f virtualRoot axis n).Pairwise fun a b => f.address a < f.address b := by
    intro axis telling
    simp only [List.mem_cons, List.not_mem_nil, or_false] at telling
    rcases telling with rfl | rfl | rfl | rfl
    · exact List.pairwise_singleton _ _
    · exact (linked.pairwise_subtree n).of_cons
    · exact linked.pairwise_precedingOf
    · exact placed.pairwise_followingOf linked has rfl rooted'
  refine ⟨fun m => placed.mem_axes linked positioned has rfl rooted', ?once, fun plain m => ?plain,
    fun like m => ?like, fun plain m around => ?both, ?up, ?down⟩
  case once =>
    intro axis telling
    by_cases up : axis = .ancestor
    · subst up
      exact falls.imp fun less => (ne_of_address_lt less).symm
    · refine (rises axis ?_).imp fun less => ne_of_address_lt less
      simp only [List.mem_cons, List.not_mem_nil, or_false, up, false_or] at telling ⊢
      exact telling
  case plain =>
    exact existsUnique_axis
      (fun axis telling => placed.mem_axis_iff_of_plain linked positioned has rfl rooted' plain telling)
      fun _ => axisTo_mem f n m
  case like =>
    refine existsUnique_axis (fun axis telling => each m axis ?_)
      (placed.axisTo_of_not_plain linked positioned has rfl like)
    simp only [List.mem_cons, List.not_mem_nil, or_false] at telling ⊢
    rcases telling with rfl | rfl | rfl
    all_goals simp
  case both =>
    have aroundN : f.Around virtualRoot (f.root n) n := ⟨has, rfl, plain, under⟩
    have rootedM : ∀ v, virtualRoot = some v → f.Plain v ∧ f.Covers v m :=
      fun v root => ⟨(rooted' v root).1, around.under v root⟩
    rw [(placed.mem_axes linked positioned has rfl rooted').2.2.1,
      (placed.mem_axes linked positioned around.has around.root rootedM).2.2.2]
    exact and_congr_left fun _ => iff_of_true around aroundN
  case up =>
    refine falls.imp_of_mem fun {a b} metA metB less => ?_
    exact (order_eq_gt_iff linked positioned (ofMet _ (by decide) a metA) (ofMet _ (by decide) b metB)).mpr less
  case down =>
    intro axis telling
    rcases List.mem_cons.mp telling with rfl | further
    · exact List.pairwise_singleton _ _
    · refine (rises axis telling).imp_of_mem fun {a b} metA metB less => ?_
      have known : axis ∈ [Axis.ancestor, .descendant, .preceding, .following] :=
        List.mem_cons_of_mem _ further
      exact (order_eq_lt_iff linked positioned (ofMet axis known a metA) (ofMet axis known b metB)).mpr less

/-- From the attribute of the note, with the note as virtual root, the text, the element and the other text of the
note follow; the element is on no other axis. -/
theorem axes_around_attribute : noteAndComment.Made ∧ noteAndComment.Placed (noteAndComment.root (.item 1)) ∧
    noteAndComment.kind (.item 0) = .element ∧ noteAndComment.Covers (.item 0) (.item 1) ∧
    noteAndComment.Around (some (.item 0)) (noteAndComment.root (.item 1)) (.item 3) ∧
    (∃! axis, axis ∈ [Axis.ancestor, .preceding, .following] ∧
      .item 3 ∈ axis.nodes noteAndComment (some (.item 0)) (.item 1)) ∧
    Axis.following.nodes noteAndComment (some (.item 0)) (.item 1) = [.item 2, .item 3, .item 4] := by
  have made : noteAndComment.Made := .create _ (.build _ _ _ .empty) ⟨rfl, rfl⟩
  have placed : noteAndComment.Placed (noteAndComment.root (.item 1)) := placed_of_genuine (by decide +kernel)
  have element : noteAndComment.kind (.item 0) = .element := by decide +kernel
  have covers : noteAndComment.Covers (.item 0) (.item 1) := .inr (.parent (by decide +kernel))
  have rooted : ∀ v, some (Node.item 0) = some v →
      (noteAndComment.kind v = .element ∨ noteAndComment.kind v = .document) ∧
        noteAndComment.Covers v (.item 1) := by
    rintro v root
    obtain rfl := Option.some.inj root
    exact ⟨.inl element, covers⟩
  obtain ⟨axes, -, -, like, -⟩ := axes_around made placed (by decide +kernel) rooted
  have follows : .item 3 ∈ Axis.following.nodes noteAndComment (some (.item 0)) (.item 1) := by decide +kernel
  have around := ((axes (.item 3)).2.2.1.mp follows).1
  exact ⟨made, placed, element, covers, around, (like (by decide +kernel) _).mp around, by decide +kernel⟩

end Forest

end XPathAnnotator
