/-
**Document order.**

Whatever way a forest was made, comparing two nodes of a tree, by their positions or by their ancestors, tells
which of them comes first in the walk over the tree.

* `Made` — the forests that building, making nodes, appending and setting attributes lead to;
* `Made.linked_positioned` — what all of them have in common;
* `order_eq` — two different nodes compare as their addresses do;
* `order_walk` — document order is the strict total order of the walk.
-/

import Mathlib
import XPathAnnotator.Proofs.Tree.Building

namespace XPathAnnotator

namespace Forest

/-- The forests that can be made: trees of documents and single nodes, changed by setting attributes, by
declaring namespaces and reading them, and by appending roots outside their own trees. -/
inductive Made : Forest → Prop
  | empty : Made Forest.empty
  | create {f : Forest} (content : Content) (made : Made f) (bare : content.IsBare) :
      Made (f.create content).1
  | build {f : Forest} (source : TreeSource) (uri : Option String) (document : Xml.Document) (made : Made f) :
      Made (f.build source uri document).1
  | append {f g : Forest} {parent child : Nat} (made : Made f) (inside : child < f.nodes.size)
      (top : f.parent? (.item child) = none) (away : Node.item child ∉ f.lineage (.item parent))
      (appended : f.append? parent (.item child) = some g) : Made g
  | setAttribute {f g : Forest} {owner id : Nat} {name : NodeName} {value : String} (made : Made f)
      (put : f.setAttribute? owner name value = some (g, id)) : Made g
  | declare {f g : Forest} {owner : Nat} {qualifier uri : String} (made : Made f)
      (declared : f.declare? owner qualifier uri = some g) : Made g
  | remember {f : Forest} (id : Nat) (made : Made f) : Made (f.rememberScope id)

/-- The nodes of the tree with a root: its records, where attributes are those of an element, and the namespace
nodes of its elements. -/
structure Of (f : Forest) (r n : Node) : Prop where
  has : f.Has n
  genuine : f.Genuine n
  root : f.root n = r

instance (f : Forest) (r n : Node) : Decidable (f.Of r n) :=
  decidable_of_iff (f.Has n ∧ f.Genuine n ∧ f.root n = r)
    ⟨fun ⟨has, genuine, root⟩ => ⟨has, genuine, root⟩, fun ⟨has, genuine, root⟩ => ⟨has, genuine, root⟩⟩

variable {f g : Forest}

/-! ### Forests that can be made -/

theorem linked_empty : Forest.empty.Linked := by
  have none : ∀ k, Forest.empty.record? k = none := fun k => Array.getElem?_eq_none (Nat.zero_le k)
  refine ⟨fun p i c found => ?_, fun p i c found => ?_, fun id p parent => ?_, ⟨id, fun id p parent => ?_⟩⟩
  · simp [children, none] at found
  · simp [attributes, element?, none] at found
  · simp [parent?, none] at parent
  · simp [parent?, none] at parent

theorem positioned_empty : Forest.empty.Positioned := by
  have none : ∀ k, Forest.empty.record? k = none := fun k => Array.getElem?_eq_none (Nat.zero_le k)
  refine ⟨fun id T tree => ?_, fun a b T p q tree => ?_⟩
  · simp [tree?, none] at tree
  · simp [tree?, none] at tree

/-- **Forests that can be made are linked and positioned**: making one starts from nothing, and every step keeps
both. -/
theorem Made.linked_positioned (made : f.Made) : f.Linked ∧ f.Positioned := by
  induction made with
  | empty => exact ⟨linked_empty, positioned_empty⟩
  | @create f content made bare ih =>
    obtain ⟨linked, positioned⟩ := ih
    have alike : f.Alike (f.create content).1 := alike_create bare
    exact ⟨alike.linked linked, positioned.alike linked alike (sameLabels_create content)⟩
  | build source uri document made ih =>
    obtain ⟨linked, positioned⟩ := ih
    have result := built linked positioned source uri document
    exact ⟨result.linked, result.positioned⟩
  | @append f g parent child made inside top away appended ih =>
    obtain ⟨linked, positioned⟩ := ih
    have apart : f.root (.item parent) ≠ .item child := by
      intro same
      exact away (same ▸ linked.root_mem_lineage (.item parent))
    have other : parent ≠ child := by
      rintro rfl
      exact away List.mem_cons_self
    have attached : f.Attached g parent child := attached_append inside top apart appended
    exact ⟨attached.linked linked,
      positioned.attached linked attached (sameLabels_append appended other inside)⟩
  | setAttribute made put ih =>
    obtain ⟨linked, positioned⟩ := ih
    have attached := attached_setAttribute linked put
    exact ⟨attached.linked linked, positioned.attached linked attached (sameLabels_setAttribute put)⟩
  | declare made declared ih =>
    obtain ⟨linked, positioned⟩ := ih
    obtain ⟨alike, labels⟩ := alike_declare declared
    exact ⟨alike.linked linked, positioned.alike linked alike labels⟩
  | remember id made ih =>
    obtain ⟨linked, positioned⟩ := ih
    obtain ⟨alike, labels⟩ := alike_rememberScope id
    exact ⟨alike.linked linked, positioned.alike linked alike labels⟩

/-! ### Order and addresses -/

section Order

variable (linked : f.Linked) {r a b : Node}

include linked

theorem Of.mem_walk (ofA : f.Of r a) : a ∈ f.walk r := by
  obtain ⟨has, -, rfl⟩ := ofA
  exact (linked.mem_walk (linked.parent?_root a) (has.root linked)).mpr ⟨has, rfl⟩

theorem Of.address_inj (ofA : f.Of r a) (ofB : f.Of r b) (same : f.address a = f.address b) : a = b :=
  linked.address_inj ofA.has ofB.has (ofA.root.trans ofB.root.symm) same

theorem Of.orderByAncestors_eq (ofA : f.Of r a) (ofB : f.Of r b) (apart : a ≠ b) :
    f.orderByAncestors a b = if f.address a < f.address b then .lt else .gt :=
  linked.orderByAncestors_eq ofA.has ofB.has ofA.genuine ofB.genuine (ofA.root.trans ofB.root.symm) apart

end Order

/-- Nodes with positions in one tree have one root, and the order of their positions is that of their addresses. -/
theorem Positioned.compare (positioned : f.Positioned) {a b : Node} {p q : Nat} (posA : f.position? a = some p)
    (posB : f.position? b = some q) (same : f.isSameTree a b = true) :
    f.root a = f.root b ∧ (p < q ↔ f.address a < f.address b) := by
  cases a with
  | binding owner index => exact absurd posA.symm (Option.some_ne_none _)
  | item a =>
    cases b with
    | binding owner index => exact absurd posB.symm (Option.some_ne_none _)
    | item b =>
      unfold isSameTree at same
      rw [Bool.and_eq_true, beq_iff_eq] at same
      obtain ⟨T, treeA⟩ := Option.isSome_iff_exists.mp same.1
      exact positioned.ordered a b T p q treeA (same.2.symm.trans treeA) posA posB

/-- **Two different nodes of a tree compare as their addresses do**, by positions or by ancestors. -/
theorem order_eq (linked : f.Linked) (positioned : f.Positioned) {r a b : Node} (ofA : f.Of r a)
    (ofB : f.Of r b) (apart : a ≠ b) :
    f.order a b = if f.address a < f.address b then .lt else .gt := by
  unfold order
  rw [if_neg apart]
  split
  next p q posA posB =>
    split
    next same => simp only [(positioned.compare posA posB same).2]
    next => exact ofA.orderByAncestors_eq linked ofB apart
  next => exact ofA.orderByAncestors_eq linked ofB apart

theorem order_self (a : Node) : f.order a a = .eq := by
  unfold order
  rw [if_pos rfl]

theorem order_eq_lt_iff (linked : f.Linked) (positioned : f.Positioned) {r a b : Node} (ofA : f.Of r a)
    (ofB : f.Of r b) : f.order a b = .lt ↔ f.address a < f.address b := by
  by_cases same : a = b
  · subst same
    rw [order_self]
    exact iff_of_false (by decide) (lt_irrefl _)
  · rw [order_eq linked positioned ofA ofB same]
    by_cases less : f.address a < f.address b
    · rw [if_pos less]
      exact iff_of_true rfl less
    · rw [if_neg less]
      exact iff_of_false (by decide) less

theorem order_eq_gt_iff (linked : f.Linked) (positioned : f.Positioned) {r a b : Node} (ofA : f.Of r a)
    (ofB : f.Of r b) : f.order a b = .gt ↔ f.address b < f.address a := by
  by_cases same : a = b
  · subst same
    rw [order_self]
    exact iff_of_false (by decide) (lt_irrefl _)
  · have addresses : f.address a ≠ f.address b := fun equal => same (ofA.address_inj linked ofB equal)
    rw [order_eq linked positioned ofA ofB same]
    rcases lt_or_gt_of_ne addresses with less | greater
    · rw [if_pos less]
      exact iff_of_false (by decide) less.asymm
    · rw [if_neg greater.asymm]
      exact iff_of_true rfl greater

theorem order_eq_eq_iff (linked : f.Linked) (positioned : f.Positioned) {r a b : Node} (ofA : f.Of r a)
    (ofB : f.Of r b) : f.order a b = .eq ↔ a = b := by
  by_cases same : a = b
  · subst same
    exact iff_of_true (order_self a) rfl
  · refine iff_of_false ?_ same
    rw [order_eq linked positioned ofA ofB same]
    split
    · decide
    · decide

/-- **Document order is the order of the walk.** In every forest that can be made, the walk from a root meets
each node of its tree once. Two nodes of the tree are equal, one before or one after the other as the walk meets
them; swapping them swaps the result, and order is transitive. Where two nodes have positions in one tree, these
say the same as the ancestors. -/
theorem order_walk (made : f.Made) (r : Node) :
    (f.walk r).Nodup ∧ (∀ n, f.Of r n → n ∈ f.walk r) ∧
      ∀ a b, f.Of r a → f.Of r b →
        (f.order a b = .eq ↔ a = b) ∧
        (f.order a b = .lt ↔ (f.walk r).idxOf a < (f.walk r).idxOf b) ∧
        (f.order a b = .gt ↔ (f.walk r).idxOf b < (f.walk r).idxOf a) ∧
        f.order b a = (f.order a b).swap ∧
        (∀ c, f.Of r c → f.order a b = .lt → f.order b c = .lt → f.order a c = .lt) ∧
        (∀ p q, f.position? a = some p → f.position? b = some q → f.isSameTree a b = true → a ≠ b →
          f.orderByAncestors a b = if p < q then .lt else .gt) := by
  obtain ⟨linked, positioned⟩ := made.linked_positioned
  refine ⟨linked.nodup_walk r, fun n ofN => ofN.mem_walk linked, fun a b ofA ofB => ⟨?_, ?_, ?_, ?_, ?_, ?_⟩⟩
  · exact order_eq_eq_iff linked positioned ofA ofB
  · rw [order_eq_lt_iff linked positioned ofA ofB, linked.idxOf_walk_lt (ofA.mem_walk linked) (ofB.mem_walk linked)]
  · rw [order_eq_gt_iff linked positioned ofA ofB, linked.idxOf_walk_lt (ofB.mem_walk linked) (ofA.mem_walk linked)]
  · cases result : f.order a b with
    | lt =>
      refine (order_eq_gt_iff linked positioned ofB ofA).mpr ?_
      exact (order_eq_lt_iff linked positioned ofA ofB).mp result
    | eq =>
      obtain rfl := (order_eq_eq_iff linked positioned ofA ofB).mp result
      exact result
    | gt =>
      refine (order_eq_lt_iff linked positioned ofB ofA).mpr ?_
      exact (order_eq_gt_iff linked positioned ofA ofB).mp result
  · intro c ofC first second
    rw [order_eq_lt_iff linked positioned ofA ofB] at first
    rw [order_eq_lt_iff linked positioned ofB ofC] at second
    exact (order_eq_lt_iff linked positioned ofA ofC).mpr (first.trans second)
  · intro p q posA posB same apart
    rw [ofA.orderByAncestors_eq linked ofB apart]
    simp only [(positioned.compare posA posB same).2]

/-- An element with an attribute, a text, a child and another text. -/
def note : Xml.Document where
  before := []
  root := .mk ⟨⟨none, "note"⟩, ""⟩ [] [⟨⟨⟨none, "lang"⟩, ""⟩, "en"⟩] "see "
    [(.element (.mk ⟨⟨none, "ref"⟩, ""⟩ [] [] "" []), ".")]
  after := []

/-- The tree of the note, and a comment beside it. -/
def noteAndComment : Forest := ((Forest.empty.build (.plain false []) none note).1.create (.comment "draft")).1

theorem isSome_append_note : (noteAndComment.append? 0 (.item 5)).isSome = true := by decide +kernel

/-- The note with the comment appended: the comment has no position, the other records have one. -/
def commented : Forest := (noteAndComment.append? 0 (.item 5)).get isSome_append_note

theorem order_walk_commented : commented.Made ∧
    commented.walk (.item 0) =
      [.item 0, .binding 0 0, .item 1, .item 2, .item 3, .binding 3 0, .item 4, .item 5] ∧
    commented.order (.binding 0 0) (.item 1) = .lt ∧ commented.order (.item 3) (.item 2) = .gt ∧
    commented.order (.binding 3 0) (.item 5) = .lt := by
  have made : commented.Made := by
    refine .append (.create _ (.build _ _ _ .empty) ⟨rfl, rfl⟩) ?_ ?_ ?_ (Option.some_get _).symm
    all_goals decide +kernel
  obtain ⟨-, -, order⟩ := order_walk made (.item 0)
  refine ⟨made, by decide +kernel, ?_, ?_, ?_⟩
  · exact (order (.binding 0 0) (.item 1) (by decide +kernel) (by decide +kernel)).2.1.mpr (by decide +kernel)
  · exact (order (.item 3) (.item 2) (by decide +kernel) (by decide +kernel)).2.2.1.mpr (by decide +kernel)
  · exact (order (.binding 3 0) (.item 5) (by decide +kernel) (by decide +kernel)).2.1.mpr (by decide +kernel)

end Forest

end XPathAnnotator
