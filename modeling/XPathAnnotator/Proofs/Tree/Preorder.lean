/-
**The walk over a tree.**

The walk visits an element, then its namespace nodes, its attributes and, one after the other, the trees of
its children. Every step of it leads to a greater address, so the places of two nodes in the walk are in the
order of their addresses.

* `mem_walk` — the walk from a root meets the nodes with that root;
* `pairwise_walk`, `nodup_walk` — addresses rise along the walk;
* `idxOf_walk_lt` — the order of the walk is the order of the addresses;
* `address_inj` — an address belongs to one node of a tree.
-/

import Mathlib
import XPathAnnotator.Proofs.Tree.Linked

namespace XPathAnnotator

namespace Forest

/-- Whether a node is in the forest. -/
def Has (f : Forest) : Node → Prop
  | .item id => id < f.nodes.size
  | .binding owner index => index < (f.bindings owner).length

instance (f : Forest) : (n : Node) → Decidable (f.Has n)
  | .item id => inferInstanceAs (Decidable (id < f.nodes.size))
  | .binding owner index => inferInstanceAs (Decidable (index < (f.bindings owner).length))

/-- The nodes below and with a node down to a depth: an element comes before its namespace nodes, these before
its attributes, and these before its children. -/
def walkWithin (f : Forest) : Nat → Node → List Node
  | 0, _ => []
  | depth + 1, n =>
    n :: (f.namespaceNodes n ++ ((f.attributes n).toList ++
      (f.children n).toList.flatMap (f.walkWithin depth)))

/-- The nodes of a subtree in the order of the walk. -/
def walk (f : Forest) (n : Node) : List Node := f.walkWithin (f.nodes.size + 1) n

variable {f : Forest}

/-! ### Nodes under a parent -/

theorem mem_namespaceNodes {p : Nat} {c : Node} :
    c ∈ f.namespaceNodes (.item p) ↔ ∃ i, i < (f.bindings p).length ∧ c = .binding p i := by
  simp only [namespaceNodes, List.mem_map, List.mem_range]
  exact ⟨fun ⟨i, inside, same⟩ => ⟨i, inside, same.symm⟩, fun ⟨i, inside, same⟩ => ⟨i, inside, same.symm⟩⟩

/-- Nodes that hang on a node: its namespace nodes, its attributes and its children. -/
def Hangs (f : Forest) (p : Nat) (c : Node) : Prop :=
  c ∈ f.namespaceNodes (.item p) ∨ c ∈ f.attributes (.item p) ∨ c ∈ f.children (.item p)

theorem Hangs.has_parent (linked : f.Linked) {p : Nat} {c : Node} (hangs : f.Hangs p c) :
    f.Has c ∧ f.parent? c = some p := by
  rcases hangs with spaced | listed | held
  · obtain ⟨i, inside, rfl⟩ := mem_namespaceNodes.mp spaced
    exact ⟨inside, rfl⟩
  · obtain ⟨i, found⟩ := Array.mem_iff_getElem?.mp listed
    obtain ⟨id, rfl, parent, -, -⟩ := linked.ofAttribute _ _ _ found
    exact ⟨lt_size_of_parent? parent, parent⟩
  · obtain ⟨i, found⟩ := Array.mem_iff_getElem?.mp held
    obtain ⟨id, rfl, parent, -, -⟩ := linked.ofChild _ _ _ found
    exact ⟨lt_size_of_parent? parent, parent⟩

theorem hangs_of_parent (linked : f.Linked) {p : Nat} {c : Node} (inside : f.Has c)
    (parent : f.parent? c = some p) : f.Hangs p c := by
  cases c with
  | binding owner index =>
    obtain rfl : owner = p := Option.some.inj parent
    exact .inl (mem_namespaceNodes.mpr ⟨index, inside, rfl⟩)
  | item id =>
    rcases linked.held _ _ parent with found | found
    · exact .inr (.inr (Array.mem_iff_getElem?.mpr ⟨_, found⟩))
    · exact .inr (.inl (Array.mem_iff_getElem?.mpr ⟨_, found⟩))

/-! ### Nodes of the walk -/

theorem root_mem_walkWithin (depth : Nat) (n : Node) : n ∈ f.walkWithin (depth + 1) n :=
  List.mem_cons_self

theorem mem_walkWithin_succ {depth : Nat} {n m : Node} :
    m ∈ f.walkWithin (depth + 1) n ↔
      m = n ∨ m ∈ f.namespaceNodes n ∨ m ∈ f.attributes n ∨
        ∃ c ∈ f.children n, m ∈ f.walkWithin depth c := by
  simp only [walkWithin, List.mem_cons, List.mem_append, List.mem_flatMap, Array.mem_toList_iff]

theorem walkWithin_mono {depth : Nat} {n m : Node} (met : m ∈ f.walkWithin depth n) :
    m ∈ f.walkWithin (depth + 1) n := by
  induction depth generalizing n with
  | zero => exact absurd met List.not_mem_nil
  | succ depth ih =>
    rcases mem_walkWithin_succ.mp met with same | spaced | listed | ⟨c, held, met⟩
    · exact mem_walkWithin_succ.mpr (.inl same)
    · exact mem_walkWithin_succ.mpr (.inr (.inl spaced))
    · exact mem_walkWithin_succ.mpr (.inr (.inr (.inl listed)))
    · exact mem_walkWithin_succ.mpr (.inr (.inr (.inr ⟨c, held, ih met⟩)))

theorem walkWithin_le {depth deeper : Nat} (deep : depth ≤ deeper) {n m : Node}
    (met : m ∈ f.walkWithin depth n) : m ∈ f.walkWithin deeper n := by
  induction deep with
  | refl => exact met
  | step _ ih => exact walkWithin_mono ih

/-- The walk goes from a node to what hangs on it, again and again. -/
theorem walkWithin_induction {R : Node → Node → Prop} (refl : ∀ n, R n n)
    (trans : ∀ {a b c}, R a b → R b c → R a c) (step : ∀ {p c}, f.Hangs p c → R (.item p) c)
    {depth : Nat} {n m : Node} (met : m ∈ f.walkWithin depth n) : R n m := by
  induction depth generalizing n with
  | zero => exact absurd met List.not_mem_nil
  | succ depth ih =>
    cases n with
    | binding owner index =>
      rcases mem_walkWithin_succ.mp met with rfl | spaced | listed | ⟨c, held, met⟩
      · exact refl _
      · exact absurd spaced List.not_mem_nil
      · exact absurd listed (Array.not_mem_empty _)
      · exact absurd held (Array.not_mem_empty _)
    | item p =>
      rcases mem_walkWithin_succ.mp met with rfl | spaced | listed | ⟨c, held, met⟩
      · exact refl _
      · exact step (.inl spaced)
      · exact step (.inr (.inl listed))
      · exact trans (step (.inr (.inr held))) (ih met)

/-- The walk does not leave the tree. -/
theorem Linked.of_mem_walkWithin (linked : f.Linked) {depth : Nat} {n m : Node} (inside : f.Has n)
    (met : m ∈ f.walkWithin depth n) : f.Has m ∧ f.root m = f.root n := by
  refine walkWithin_induction (R := fun n m => f.Has n → f.Has m ∧ f.root m = f.root n)
    (fun n inside => ⟨inside, rfl⟩) (fun first second inside => ?_) (fun hangs _ => ?_) met inside
  · obtain ⟨between, same⟩ := first inside
    obtain ⟨known, below⟩ := second between
    exact ⟨known, below.trans same⟩
  · obtain ⟨known, parent⟩ := hangs.has_parent linked
    exact ⟨known, linked.root_eq parent⟩

/-- Only elements and documents have nodes that hang on them. -/
theorem Hangs.kind {p : Nat} {c : Node} (hangs : f.Hangs p c) :
    f.kind (.item p) = .element ∨ f.kind (.item p) = .document := by
  unfold Hangs at hangs
  rw [mem_namespaceNodes] at hangs
  cases found : f.record? p with
  | none => simp [bindings, attributes, children, element?, found] at hangs
  | some record =>
    obtain ⟨content, parent, index, tree, position⟩ := record
    cases content with
    | element data => exact .inl (by simp [Forest.kind, found, Content.kind])
    | document uri nodes => exact .inr (by simp [Forest.kind, found, Content.kind])
    | _ => simp [bindings, attributes, children, element?, found, Content.children] at hangs

/-- Attributes have nothing below them. -/
theorem Linked.not_hangs_attribute (linked : f.Linked) {p id : Nat} {c : Node}
    (listed : Node.item id ∈ f.attributes (.item p)) : ¬ f.Hangs id c := by
  intro hangs
  obtain ⟨i, found⟩ := Array.mem_iff_getElem?.mp listed
  obtain ⟨_, -, -, -, kind⟩ := linked.ofAttribute _ _ _ found
  rcases hangs.kind with element | document
  · exact absurd (kind.symm.trans element) (by decide)
  · exact absurd (kind.symm.trans document) (by decide)

/-- What hangs on a node of the walk is met one step deeper. -/
theorem Linked.mem_walkWithin_of_hangs (linked : f.Linked) {depth p : Nat} {n c : Node}
    (met : .item p ∈ f.walkWithin depth n) (hangs : f.Hangs p c) : c ∈ f.walkWithin (depth + 1) n := by
  induction depth generalizing n with
  | zero => exact absurd met List.not_mem_nil
  | succ depth ih =>
    rcases mem_walkWithin_succ.mp met with rfl | spaced | listed | ⟨b, held, met⟩
    · rcases hangs with spaced | listed | held
      · exact mem_walkWithin_succ.mpr (.inr (.inl spaced))
      · exact mem_walkWithin_succ.mpr (.inr (.inr (.inl listed)))
      · exact mem_walkWithin_succ.mpr (.inr (.inr (.inr ⟨c, held, root_mem_walkWithin depth c⟩)))
    · cases n with
      | binding owner index => exact absurd spaced List.not_mem_nil
      | item q =>
        obtain ⟨i, -, same⟩ := mem_namespaceNodes.mp spaced
        cases same
    · cases n with
      | binding owner index => exact absurd listed (Array.not_mem_empty _)
      | item q => exact absurd hangs (linked.not_hangs_attribute listed)
    · exact mem_walkWithin_succ.mpr (.inr (.inr (.inr ⟨b, held, ih met⟩)))

theorem Has.parent (linked : f.Linked) {n : Node} {p : Nat} (inside : f.Has n) (parent : f.parent? n = some p) :
    f.Has (.item p) := by
  have hangs : f.Hangs p n := hangs_of_parent linked inside parent
  rcases hangs.kind with kind | kind
  all_goals
    show p < f.nodes.size
    by_contra beyond
    simp [Forest.kind, record?, Array.getElem?_eq_none (Nat.le_of_not_lt beyond)] at kind

theorem Has.root (linked : f.Linked) {n : Node} (inside : f.Has n) : f.Has (f.root n) := by
  refine linked.climb (P := fun n => f.Has n → f.Has (f.root n)) (fun n ih inside => ?_) n inside
  cases parent : f.parent? n with
  | none =>
    rw [root_eq_self parent]
    exact inside
  | some p =>
    rw [linked.root_eq parent]
    exact ih p parent (inside.parent linked parent)

/-- A node is met at the depth of its ancestors. -/
theorem Has.mem_walkWithin (linked : f.Linked) {n : Node} (inside : f.Has n) :
    n ∈ f.walkWithin ((f.ancestors n).length + 1) (f.root n) := by
  refine linked.climb (P := fun n => f.Has n → n ∈ f.walkWithin ((f.ancestors n).length + 1) (f.root n))
    (fun n ih inside => ?_) n inside
  cases parent : f.parent? n with
  | none =>
    rw [root_eq_self parent]
    exact root_mem_walkWithin _ n
  | some p =>
    rw [linked.root_eq parent, linked.ancestors_eq parent, List.length_cons]
    exact linked.mem_walkWithin_of_hangs (ih p parent (inside.parent linked parent))
      (hangs_of_parent linked inside parent)

theorem Has.length_ancestors_le (linked : f.Linked) {n : Node} (inside : f.Has n) :
    (f.ancestors n).length ≤ f.nodes.size := by
  cases parent : f.parent? n with
  | none =>
    rw [ancestors_eq_nil parent]
    exact Nat.zero_le _
  | some p =>
    rw [linked.ancestors_eq parent, List.length_cons]
    exact linked.length_ancestorsWithin_lt (inside.parent linked parent) _

/-- **The nodes of a walk**: those with the root that it starts from. -/
theorem Linked.mem_walk (linked : f.Linked) {r m : Node} (top : f.parent? r = none) (inside : f.Has r) :
    m ∈ f.walk r ↔ f.Has m ∧ f.root m = r := by
  constructor
  · intro met
    obtain ⟨known, same⟩ := linked.of_mem_walkWithin inside met
    exact ⟨known, same.trans (root_eq_self top)⟩
  · rintro ⟨known, rfl⟩
    exact walkWithin_le (Nat.succ_le_succ (known.length_ancestors_le linked)) (known.mem_walkWithin linked)

/-! ### Addresses along the walk -/

theorem Linked.spot_attribute (linked : f.Linked) {p i : Nat} {c : Node}
    (listed : (f.attributes (.item p))[i]? = some c) : f.parent? c = some p ∧ f.spot c = [1, i] := by
  obtain ⟨id, rfl, parent, index, -⟩ := linked.ofAttribute _ _ _ listed
  have among : f.listed (.item id) = true :=
    (listed_eq_true parent).mpr (Array.mem_iff_getElem?.mpr ⟨i, listed⟩)
  refine ⟨parent, ?_⟩
  unfold spot
  rw [among, index]
  rfl

theorem Linked.spot_child (linked : f.Linked) {p i : Nat} {c : Node}
    (held : (f.children (.item p))[i]? = some c) : f.parent? c = some p ∧ f.spot c = [2, i] := by
  obtain ⟨id, rfl, parent, index, apart⟩ := linked.ofChild _ _ _ held
  refine ⟨parent, ?_⟩
  unfold spot
  rw [apart, index]
  rfl

theorem append_cons_lt {l s t : List Nat} {x y : Nat} (less : x < y) : l ++ x :: s < l ++ y :: t :=
  List.append_left_lt (List.cons_lt_cons_iff.mpr (.inl less))

theorem lt_append {l s : List Nat} (more : s ≠ []) : l < l ++ s := by
  obtain ⟨x, s, rfl⟩ := List.exists_cons_of_ne_nil more
  have less : l ++ [] < l ++ x :: s := List.append_left_lt (List.nil_lt_cons x s)
  rwa [List.append_nil] at less

/-- The walk only leads down. -/
theorem Linked.address_prefix (linked : f.Linked) {depth : Nat} {n m : Node} (met : m ∈ f.walkWithin depth n) :
    f.address n <+: f.address m := by
  refine walkWithin_induction (R := fun n m => f.address n <+: f.address m) (fun _ => List.prefix_rfl)
    (fun first second => first.trans second) (fun hangs => ?_) met
  rw [linked.address_eq (hangs.has_parent linked).2]
  exact List.prefix_append _ _

theorem pairwise_toList {nodes : Array Node} {R : Node → Node → Prop}
    (rising : ∀ (i j : Nat) (a b : Node), nodes[i]? = some a → nodes[j]? = some b → i < j → R a b) :
    nodes.toList.Pairwise R := by
  refine List.pairwise_iff_getElem.mpr fun i j hi hj less => ?_
  refine rising i j _ _ ?_ ?_ less
  · rw [← Array.getElem?_toList]
    exact List.getElem?_eq_getElem hi
  · rw [← Array.getElem?_toList]
    exact List.getElem?_eq_getElem hj

section Rising

variable (linked : f.Linked) {p : Nat}

include linked

theorem Linked.address_namespace {c : Node} (spaced : c ∈ f.namespaceNodes (.item p)) :
    ∃ i, f.address c = f.address (.item p) ++ [0, i] := by
  obtain ⟨i, -, rfl⟩ := mem_namespaceNodes.mp spaced
  exact ⟨i, linked.address_eq rfl⟩

theorem Linked.address_attribute {i : Nat} {c : Node} (found : (f.attributes (.item p))[i]? = some c) :
    f.address c = f.address (.item p) ++ [1, i] := by
  obtain ⟨parent, spot⟩ := linked.spot_attribute found
  rw [linked.address_eq parent, spot]

theorem Linked.address_child {i : Nat} {c : Node} (found : (f.children (.item p))[i]? = some c) :
    f.address c = f.address (.item p) ++ [2, i] := by
  obtain ⟨parent, spot⟩ := linked.spot_child found
  rw [linked.address_eq parent, spot]

theorem Linked.address_below_child {depth i : Nat} {c m : Node}
    (found : (f.children (.item p))[i]? = some c) (met : m ∈ f.walkWithin depth c) :
    ∃ s, f.address m = f.address (.item p) ++ 2 :: i :: s := by
  obtain ⟨s, same⟩ := linked.address_prefix met
  refine ⟨s, ?_⟩
  rw [← same, linked.address_child found, List.append_assoc]
  rfl

theorem Linked.pairwise_namespaceNodes :
    (f.namespaceNodes (.item p)).Pairwise fun a b => f.address a < f.address b := by
  refine List.pairwise_map.mpr (List.pairwise_lt_range.imp ?_)
  intro i j less
  rw [linked.address_eq (n := .binding p i) rfl, linked.address_eq (n := .binding p j) rfl]
  exact List.append_left_lt (List.cons_lt_cons_iff.mpr
    (.inr ⟨rfl, List.cons_lt_cons_iff.mpr (.inl less)⟩))

theorem Linked.pairwise_attributes :
    (f.attributes (.item p)).toList.Pairwise fun a b => f.address a < f.address b := by
  refine pairwise_toList fun i j a b foundA foundB less => ?_
  rw [linked.address_attribute foundA, linked.address_attribute foundB]
  exact List.append_left_lt (List.cons_lt_cons_iff.mpr
    (.inr ⟨rfl, List.cons_lt_cons_iff.mpr (.inl less)⟩))

theorem Linked.pairwise_below_children {depth : Nat} :
    (f.children (.item p)).toList.Pairwise fun a b =>
      ∀ m ∈ f.walkWithin depth a, ∀ k ∈ f.walkWithin depth b, f.address m < f.address k := by
  refine pairwise_toList fun i j a b foundA foundB less m metA k metB => ?_
  obtain ⟨s, addressM⟩ := linked.address_below_child foundA metA
  obtain ⟨t, addressK⟩ := linked.address_below_child foundB metB
  rw [addressM, addressK]
  exact List.append_left_lt (List.cons_lt_cons_iff.mpr
    (.inr ⟨rfl, List.cons_lt_cons_iff.mpr (.inl less)⟩))

end Rising

/-- Addresses rise along the walk, to any depth. -/
theorem Linked.pairwise_walkWithin (linked : f.Linked) (depth : Nat) (n : Node) :
    (f.walkWithin depth n).Pairwise fun a b => f.address a < f.address b := by
  induction depth generalizing n with
  | zero => exact List.Pairwise.nil
  | succ depth ih =>
    cases n with
    | binding owner index => exact List.pairwise_singleton _ _
    | item p =>
      have attributed : ∀ b ∈ (f.attributes (.item p)).toList,
          ∃ i, f.address b = f.address (.item p) ++ [1, i] := by
        intro b listed
        obtain ⟨i, found⟩ := Array.mem_iff_getElem?.mp (Array.mem_toList_iff.mp listed)
        exact ⟨i, linked.address_attribute found⟩
      have below : ∀ m ∈ (f.children (.item p)).toList.flatMap (f.walkWithin depth),
          ∃ i s, f.address m = f.address (.item p) ++ 2 :: i :: s := by
        intro m met
        obtain ⟨c, held, met⟩ := List.mem_flatMap.mp met
        obtain ⟨i, found⟩ := Array.mem_iff_getElem?.mp (Array.mem_toList_iff.mp held)
        exact ⟨i, linked.address_below_child found met⟩
      refine List.pairwise_cons.mpr ⟨fun m met => ?_, List.pairwise_append.mpr
        ⟨linked.pairwise_namespaceNodes, List.pairwise_append.mpr
          ⟨linked.pairwise_attributes, List.pairwise_flatMap.mpr ⟨fun c _ => ih c, ?_⟩, ?_⟩, ?_⟩⟩
      · rcases List.mem_append.mp met with spaced | met
        · obtain ⟨i, same⟩ := linked.address_namespace spaced
          rw [same]
          exact lt_append (List.cons_ne_nil _ _)
        rcases List.mem_append.mp met with listed | met
        · obtain ⟨i, same⟩ := attributed m listed
          rw [same]
          exact lt_append (List.cons_ne_nil _ _)
        · obtain ⟨i, s, same⟩ := below m met
          rw [same]
          exact lt_append (List.cons_ne_nil _ _)
      · exact linked.pairwise_below_children
      · intro a listed b met
        obtain ⟨i, addressA⟩ := attributed a listed
        obtain ⟨j, s, addressB⟩ := below b met
        rw [addressA, addressB]
        exact append_cons_lt (by decide)
      · intro a spaced b met
        obtain ⟨i, addressA⟩ := linked.address_namespace spaced
        rw [addressA]
        rcases List.mem_append.mp met with listed | met
        · obtain ⟨j, addressB⟩ := attributed b listed
          rw [addressB]
          exact append_cons_lt (by decide)
        · obtain ⟨j, s, addressB⟩ := below b met
          rw [addressB]
          exact append_cons_lt (by decide)

/-- **Addresses rise along the walk.** -/
theorem Linked.pairwise_walk (linked : f.Linked) (n : Node) :
    (f.walk n).Pairwise fun a b => f.address a < f.address b := linked.pairwise_walkWithin _ n

/-- The walk meets no node twice. -/
theorem Linked.nodup_walk (linked : f.Linked) (n : Node) : (f.walk n).Nodup := by
  refine (linked.pairwise_walk n).imp fun less same => ?_
  rw [same] at less
  exact absurd less (lt_irrefl _)

/-- **The order of the walk is that of the addresses.** -/
theorem Linked.idxOf_walk_lt (linked : f.Linked) {n a b : Node} (metA : a ∈ f.walk n) (metB : b ∈ f.walk n) :
    (f.walk n).idxOf a < (f.walk n).idxOf b ↔ f.address a < f.address b := by
  have rising : ∀ {a b}, a ∈ f.walk n → b ∈ f.walk n → (f.walk n).idxOf a < (f.walk n).idxOf b →
      f.address a < f.address b := by
    intro a b metA metB less
    have placed := List.pairwise_iff_getElem.mp (linked.pairwise_walk n) _ _
      (List.idxOf_lt_length_iff.mpr metA) (List.idxOf_lt_length_iff.mpr metB) less
    rwa [List.getElem_idxOf, List.getElem_idxOf] at placed
  refine ⟨rising metA metB, fun less => ?_⟩
  rcases Nat.lt_trichotomy ((f.walk n).idxOf a) ((f.walk n).idxOf b) with before | same | after
  · exact before
  · obtain rfl := (List.idxOf_inj metA).mp same
    exact absurd less (lt_irrefl _)
  · exact absurd less (rising metB metA after).asymm

/-- An address belongs to one node of a tree. -/
theorem Linked.address_inj (linked : f.Linked) {a b : Node} (insideA : f.Has a) (insideB : f.Has b)
    (tree : f.root a = f.root b) (same : f.address a = f.address b) : a = b := by
  have top : f.parent? (f.root a) = none := linked.parent?_root a
  have known : f.Has (f.root a) := insideA.root linked
  have metA : a ∈ f.walk (f.root a) := (linked.mem_walk top known).mpr ⟨insideA, rfl⟩
  have metB : b ∈ f.walk (f.root a) := (linked.mem_walk top known).mpr ⟨insideB, tree.symm⟩
  have apartA := mt (linked.idxOf_walk_lt metA metB).mp (same ▸ lt_irrefl _)
  have apartB := mt (linked.idxOf_walk_lt metB metA).mp (same ▸ lt_irrefl _)
  exact (List.idxOf_inj metA).mp (Nat.le_antisymm (Nat.le_of_not_lt apartB) (Nat.le_of_not_lt apartA))

end Forest

end XPathAnnotator
