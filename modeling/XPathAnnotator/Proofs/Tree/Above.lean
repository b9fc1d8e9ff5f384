/-
**Above and below.**

A node is above another one if it is on the way from it to the root. In a linked forest this is told by the
addresses: what is below a node has an address that goes on from its own.

* `InTree`, `Above`, `Covers` — the nodes of a tree, the parent chain of a node, and the subtree of a node;
* `Linked.covers_iff` — a subtree as the nodes whose address begins with that of its top;
* `Linked.mem_walk_iff` — the walk from any node meets its subtree.
-/

import Mathlib
import XPathAnnotator.Proofs.Tree.DocumentOrder

namespace XPathAnnotator

namespace Forest

/-- The nodes of the tree with a root, wherever they stand. -/
structure InTree (f : Forest) (r n : Node) : Prop where
  has : f.Has n
  root : f.root n = r

/-- The nodes on the parent chain of a node. -/
inductive Above (f : Forest) : Node → Node → Prop
  | parent {n : Node} {p : Nat} (parent : f.parent? n = some p) : Above f (.item p) n
  | higher {a n : Node} {p : Nat} (parent : f.parent? n = some p) (above : Above f a (.item p)) : Above f a n

/-- Whether a node is in the subtree of another one, with attributes and namespace nodes. -/
def Covers (f : Forest) (v m : Node) : Prop := m = v ∨ f.Above v m

variable {f : Forest} {a m n : Node}

/-! ### Parent chains -/

theorem above_iff {p : Nat} (parent : f.parent? n = some p) : f.Above a n ↔ f.Covers a (.item p) := by
  constructor
  · intro above
    cases above with
    | parent again =>
      obtain rfl := Option.some.inj (parent.symm.trans again)
      exact .inl rfl
    | higher again above =>
      obtain rfl := Option.some.inj (parent.symm.trans again)
      exact .inr above
  · rintro (rfl | above)
    · exact .parent parent
    · exact .higher parent above

theorem not_above (parent : f.parent? n = none) : ¬ f.Above a n := by
  intro above
  cases above with
  | parent some => exact absurd (parent.symm.trans some) (Option.some_ne_none _).symm
  | higher some _ => exact absurd (parent.symm.trans some) (Option.some_ne_none _).symm

theorem Above.trans {b : Node} (first : f.Above a b) (second : f.Above b n) : f.Above a n := by
  induction second with
  | parent parent => exact .higher parent first
  | higher parent _ ih => exact .higher parent (ih first)

theorem Covers.trans {b : Node} (first : f.Covers a b) (second : f.Covers b n) : f.Covers a n := by
  rcases first with rfl | first
  · exact second
  · rcases second with rfl | second
    · exact .inr first
    · exact .inr (first.trans second)

theorem covers_self (n : Node) : f.Covers n n := .inl rfl

theorem Covers.of_parent {p : Nat} (parent : f.parent? n = some p) (covers : f.Covers a (.item p)) :
    f.Covers a n := .inr ((above_iff parent).mpr covers)

/-- Only documents and elements are above a node. -/
theorem Above.kind (linked : f.Linked) (inside : f.Has n) (above : f.Above a n) :
    f.kind a = .element ∨ f.kind a = .document := by
  induction above with
  | parent parent => exact (hangs_of_parent linked inside parent).kind
  | higher parent _ ih => exact ih (inside.parent linked parent)

theorem Above.has (linked : f.Linked) (inside : f.Has n) (above : f.Above a n) : f.Has a := by
  induction above with
  | parent parent => exact inside.parent linked parent
  | higher parent _ ih => exact ih (inside.parent linked parent)

theorem Above.root (linked : f.Linked) (above : f.Above a n) : f.root a = f.root n := by
  induction above with
  | parent parent => exact (linked.root_eq parent).symm
  | higher parent _ ih => exact ih.trans (linked.root_eq parent).symm

theorem Covers.has (linked : f.Linked) (inside : f.Has n) (covers : f.Covers a n) : f.Has a := by
  rcases covers with rfl | above
  · exact inside
  · exact above.has linked inside

theorem Covers.root (linked : f.Linked) (covers : f.Covers a n) : f.root a = f.root n := by
  rcases covers with rfl | above
  · rfl
  · exact above.root linked

/-- The root covers its tree. -/
theorem Linked.covers_root (linked : f.Linked) (n : Node) : f.Covers (f.root n) n := by
  refine linked.climb (P := fun n => f.Covers (f.root n) n) (fun n ih => ?_) n
  cases parent : f.parent? n with
  | none =>
    rw [root_eq_self parent]
    exact covers_self n
  | some p =>
    rw [linked.root_eq parent]
    exact .of_parent parent (ih p parent)

/-- **The ancestors of a node** are the nodes above it. -/
theorem Linked.mem_ancestors (linked : f.Linked) : a ∈ f.ancestors n ↔ f.Above a n := by
  refine linked.climb (P := fun n => a ∈ f.ancestors n ↔ f.Above a n) (fun n ih => ?_) n
  cases parent : f.parent? n with
  | none =>
    rw [ancestors_eq_nil parent]
    exact iff_of_false List.not_mem_nil (not_above parent)
  | some p =>
    rw [linked.ancestors_eq parent, List.mem_cons, ih p parent, above_iff parent, eq_comm]
    exact Iff.rfl

/-! ### Beginnings of addresses -/

theorem append_lt_iff_of_apart {l k s : List Nat} (apart : ¬ l <+: k) : l ++ s < k ↔ l < k := by
  induction l generalizing k with
  | nil => exact absurd k.nil_prefix apart
  | cons x l ih =>
    cases k with
    | nil => exact iff_of_false (List.not_lt_nil _) (List.not_lt_nil _)
    | cons y k =>
      rw [List.cons_append, List.cons_lt_cons_iff, List.cons_lt_cons_iff]
      by_cases same : x = y
      · subst same
        rw [ih fun start => apart ((List.prefix_cons_inj x).mpr start)]
      · simp only [same, false_and, or_false]

theorem lt_append_iff_of_apart {l k s : List Nat} (apart : ¬ l <+: k) : k < l ++ s ↔ k < l := by
  induction l generalizing k with
  | nil => exact absurd k.nil_prefix apart
  | cons x l ih =>
    cases k with
    | nil => exact iff_of_true (List.nil_lt_cons _ _) (List.nil_lt_cons _ _)
    | cons y k =>
      rw [List.cons_append, List.cons_lt_cons_iff, List.cons_lt_cons_iff]
      by_cases same : y = x
      · subst same
        rw [ih fun start => apart ((List.prefix_cons_inj y).mpr start)]
      · simp only [same, false_and, or_false]

theorem spot_ne_nil (n : Node) : f.spot n ≠ [] := by
  cases n with
  | item id => exact List.cons_ne_nil _ _
  | binding owner index => exact List.cons_ne_nil _ _

/-- Above a node are beginnings of its address. -/
theorem Above.address (linked : f.Linked) (above : f.Above a n) :
    ∃ s, s ≠ [] ∧ f.address n = f.address a ++ s := by
  induction above with
  | parent parent => exact ⟨_, spot_ne_nil _, linked.address_eq parent⟩
  | higher parent above ih =>
    obtain ⟨s, more, same⟩ := ih
    have whole := linked.address_eq parent
    rw [same, List.append_assoc] at whole
    exact ⟨_, List.append_ne_nil_of_left_ne_nil more _, whole⟩

theorem Covers.address (linked : f.Linked) (covers : f.Covers a n) : f.address a <+: f.address n := by
  rcases covers with rfl | above
  · exact List.prefix_rfl
  · obtain ⟨s, -, same⟩ := above.address linked
    exact ⟨s, same.symm⟩

theorem Above.address_lt (linked : f.Linked) (above : f.Above a n) : f.address a < f.address n := by
  obtain ⟨s, more, same⟩ := above.address linked
  rw [same]
  exact lt_append more

theorem Above.irrefl (linked : f.Linked) : ¬ f.Above n n := fun above =>
  absurd (above.address_lt linked) (lt_irrefl _)

theorem Above.asymm (linked : f.Linked) (above : f.Above a n) : ¬ f.Above n a := fun again =>
  absurd ((above.address_lt linked).trans (again.address_lt linked)) (lt_irrefl _)

/-- **Subtrees by addresses**: a node of the tree is in the subtree of another one if its address goes on from
the address of that one. -/
theorem Linked.covers_iff (linked : f.Linked) (insideA : f.Has a) (insideN : f.Has n)
    (tree : f.root a = f.root n) : f.Covers a n ↔ f.address a <+: f.address n := by
  refine ⟨fun covers => covers.address linked, ?_⟩
  refine linked.climb (P := fun n => f.Has n → f.root a = f.root n → f.address a <+: f.address n →
    f.Covers a n) (fun n ih insideN tree start => ?_) n insideN tree
  by_cases whole : f.address a = f.address n
  · exact .inl (linked.address_inj insideA insideN tree whole).symm
  cases parent : f.parent? n with
  | none =>
    rw [address_eq_nil parent] at start whole
    exact absurd (List.prefix_nil.mp start) whole
  | some p =>
    refine .of_parent parent (ih p parent (insideN.parent linked parent) (tree.trans (linked.root_eq parent)) ?_)
    -- Lengths of addresses are even, so a proper beginning ends at the parent or before it.
    have shorter : (f.address a).length < (f.address n).length :=
      lt_of_le_of_ne start.length_le fun same => whole (start.eq_of_length same)
    have up : f.address (.item p) <+: f.address n := by
      rw [linked.address_eq parent]
      exact List.prefix_append _ _
    refine List.prefix_of_prefix_length_le start up ?_
    rw [linked.length_address, linked.length_address] at shorter ⊢
    rw [linked.ancestors_eq parent, List.length_cons] at shorter
    omega

/-! ### The walk from a node -/

theorem Above.mem_walkWithin (linked : f.Linked) (inside : f.Has m) (above : f.Above n m) :
    m ∈ f.walkWithin ((f.ancestors m).length + 1) n := by
  induction above with
  | parent parent =>
    have met := linked.mem_walkWithin_of_hangs (root_mem_walkWithin 0 _) (hangs_of_parent linked inside parent)
    refine walkWithin_le ?_ met
    rw [linked.ancestors_eq parent, List.length_cons]
    omega
  | higher parent above ih =>
    rw [linked.ancestors_eq parent, List.length_cons]
    exact linked.mem_walkWithin_of_hangs (ih (inside.parent linked parent)) (hangs_of_parent linked inside parent)

/-- **The walk from a node** meets its subtree. -/
theorem Linked.mem_walk_iff (linked : f.Linked) (inside : f.Has n) :
    m ∈ f.walk n ↔ f.Has m ∧ f.Covers n m := by
  constructor
  · intro met
    obtain ⟨known, tree⟩ := linked.of_mem_walkWithin inside met
    exact ⟨known, (linked.covers_iff inside known tree.symm).mpr (linked.address_prefix met)⟩
  · rintro ⟨known, rfl | above⟩
    · exact root_mem_walkWithin _ _
    · exact walkWithin_le (Nat.succ_le_succ (known.length_ancestors_le linked)) (above.mem_walkWithin linked known)

end Forest

end XPathAnnotator
