/-
**Attaching a tree.**

A change of a forest either leaves all nodes where they are or hangs one root on another node, as its last
child or its last attribute. Both keep a forest linked. The nodes below the root that was hung get its new
address put in front of their own ones; all other nodes keep their root and address.

* `Alike.linked`, `Attached.linked` — changed forests stay linked;
* `Alike.root`, `Alike.address` — where nothing moved;
* `Attached.outside`, `Attached.below` — where a tree was attached.
-/

import Mathlib
import XPathAnnotator.Proofs.Tree.Lineages

namespace XPathAnnotator

namespace Forest

/-- Two forests in which the nodes hang together in the same way. -/
structure Alike (f g : Forest) : Prop where
  size : f.nodes.size ≤ g.nodes.size
  parent? : ∀ n, g.parent? n = f.parent? n
  index : ∀ n, g.index n = f.index n
  kind : ∀ id < f.nodes.size, g.kind (.item id) = f.kind (.item id)
  children : ∀ n, g.children n = f.children n
  attributes : ∀ n, g.attributes n = f.attributes n

/-- The forest `g` is `f` with the root `c` hung on `p` as its last child. -/
structure Joined (f g : Forest) (p c : Nat) : Prop where
  index : g.index (.item c) = (f.children (.item p)).size
  children : ∀ n, g.children n = if n = .item p then (f.children n).push (.item c) else f.children n
  attributes : ∀ n, g.attributes n = f.attributes n

/-- The forest `g` is `f` with the root `c` hung on `p` as its last attribute. -/
structure Endowed (f g : Forest) (p c : Nat) : Prop where
  index : g.index (.item c) = (f.attributes (.item p)).size
  kind : g.kind (.item c) = NodeKind.attribute
  children : ∀ n, g.children n = f.children n
  attributes : ∀ n, g.attributes n = if n = .item p then (f.attributes n).push (.item c) else f.attributes n

/-- The forest `g` is `f` with the root `c` hung on a node `p` of another tree. -/
structure Attached (f g : Forest) (p c : Nat) : Prop where
  top : f.parent? (.item c) = none
  apart : f.root (.item p) ≠ .item c
  parent? : ∀ n, g.parent? n = if n = .item c then some p else f.parent? n
  index : ∀ n, n ≠ .item c → g.index n = f.index n
  kind : ∀ n, n ≠ .item c → g.kind n = f.kind n
  held : f.Joined g p c ∨ f.Endowed g p c

variable {f g : Forest}

/-! ### Nothing moved -/

namespace Alike

theorem listed (alike : f.Alike g) (n : Node) : g.listed n = f.listed n := by
  unfold Forest.listed
  rw [alike.parent?]
  cases f.parent? n with
  | none => rfl
  | some p =>
    show (g.attributes (.item p)).contains n = (f.attributes (.item p)).contains n
    rw [alike.attributes]

theorem linked (alike : f.Alike g) (linked : f.Linked) : g.Linked where
  ofChild p i c found := by
    rw [alike.children] at found
    rw [alike.parent?, alike.index, alike.listed]
    exact linked.ofChild p i c found
  ofAttribute p i c found := by
    rw [alike.attributes] at found
    obtain ⟨id, rfl, parent, index, kind⟩ := linked.ofAttribute p i c found
    rw [alike.parent?, alike.index, alike.kind id (lt_size_of_parent? parent)]
    exact ⟨id, rfl, parent, index, kind⟩
  held id p parent := by
    rw [alike.parent?] at parent
    rw [alike.children, alike.attributes, alike.index]
    exact linked.held id p parent
  height := by
    obtain ⟨height, lower⟩ := linked.height
    refine ⟨height, fun id p parent => lower id p ?_⟩
    rw [← alike.parent?]
    exact parent

theorem spot (alike : f.Alike g) (n : Node) : g.spot n = f.spot n := by
  cases n with
  | binding owner index => rfl
  | item id =>
    unfold Forest.spot
    rw [alike.listed, alike.index]

/-- Nodes stay where they are. -/
theorem root_address (alike : f.Alike g) (linked : f.Linked) (n : Node) :
    g.root n = f.root n ∧ g.address n = f.address n := by
  have linkedG : g.Linked := alike.linked linked
  refine linked.climb (P := fun n => g.root n = f.root n ∧ g.address n = f.address n) (fun n ih => ?_) n
  cases parent : f.parent? n with
  | none =>
    have parentG : g.parent? n = none := (alike.parent? n).trans parent
    rw [root_eq_self parent, root_eq_self parentG, address_eq_nil parent, address_eq_nil parentG]
    exact ⟨rfl, rfl⟩
  | some p =>
    have parentG : g.parent? n = some p := (alike.parent? n).trans parent
    obtain ⟨root, address⟩ := ih p parent
    rw [linked.root_eq parent, linkedG.root_eq parentG, linked.address_eq parent,
      linkedG.address_eq parentG, alike.spot, address]
    exact ⟨root, rfl⟩

theorem root (alike : f.Alike g) (linked : f.Linked) (n : Node) : g.root n = f.root n :=
  (alike.root_address linked n).1

theorem address (alike : f.Alike g) (linked : f.Linked) (n : Node) : g.address n = f.address n :=
  (alike.root_address linked n).2

end Alike

/-! ### A tree was attached -/

namespace Attached

variable {p c : Nat}

theorem parent_new (attached : f.Attached g p c) : g.parent? (.item c) = some p := by
  rw [attached.parent?, if_pos rfl]

theorem parent_old (attached : f.Attached g p c) {n : Node} (other : n ≠ .item c) :
    g.parent? n = f.parent? n := by
  rw [attached.parent?, if_neg other]

/-- Nodes that hang somewhere are not the root that gets attached. -/
theorem ne_of_parent (attached : f.Attached g p c) {n : Node} {q : Nat} (parent : f.parent? n = some q) :
    n ≠ .item c := by
  rintro rfl
  rw [attached.top] at parent
  exact absurd parent.symm (Option.some_ne_none q)

/-- Attributes stay attributes, and only the new one is added. -/
theorem mem_attributes (attached : f.Attached g p c) {q : Nat} {n : Node} (other : n ≠ .item c) :
    n ∈ g.attributes (.item q) ↔ n ∈ f.attributes (.item q) := by
  rcases attached.held with joined | endowed
  · rw [joined.attributes]
  · rw [endowed.attributes]
    split
    · rw [Array.mem_push]
      exact ⟨fun met => met.resolve_right other, .inl⟩
    · rfl

theorem listed_old (attached : f.Attached g p c) {n : Node} (other : n ≠ .item c) :
    g.listed n = f.listed n := by
  unfold Forest.listed
  rw [attached.parent_old other]
  cases f.parent? n with
  | none => rfl
  | some q =>
    show (g.attributes (.item q)).contains n = (f.attributes (.item q)).contains n
    rw [Bool.eq_iff_iff, Array.contains_iff_mem, Array.contains_iff_mem]
    exact attached.mem_attributes other

theorem spot_old (attached : f.Attached g p c) {n : Node} (other : n ≠ .item c) : g.spot n = f.spot n := by
  cases n with
  | binding owner index => rfl
  | item id =>
    unfold Forest.spot
    rw [attached.listed_old other, attached.index _ other]

/-- The new child or attribute is not among the attributes that were there. -/
theorem not_listed_new (attached : f.Attached g p c) (linked : f.Linked) :
    Node.item c ∉ f.attributes (.item p) := by
  intro met
  obtain ⟨i, found⟩ := Array.mem_iff_getElem?.mp met
  obtain ⟨_, -, parent, -, -⟩ := linked.ofAttribute _ _ _ found
  rw [attached.top] at parent
  exact absurd parent.symm (Option.some_ne_none p)

/-- Links of the old forest are links of the new one. -/
theorem ofChild_old (attached : f.Attached g p c) (linked : f.Linked) {q i : Nat} {n : Node}
    (found : (f.children (.item q))[i]? = some n) :
    ∃ id, n = .item id ∧ g.parent? n = some q ∧ g.index n = i ∧ g.listed n = false := by
  obtain ⟨id, same, parent, index, apart⟩ := linked.ofChild q i n found
  have other : n ≠ .item c := attached.ne_of_parent parent
  rw [attached.parent_old other, attached.index n other, attached.listed_old other]
  exact ⟨id, same, parent, index, apart⟩

theorem ofAttribute_old (attached : f.Attached g p c) (linked : f.Linked) {q i : Nat} {n : Node}
    (found : (f.attributes (.item q))[i]? = some n) :
    ∃ id, n = .item id ∧ g.parent? n = some q ∧ g.index n = i ∧ g.kind n = NodeKind.attribute := by
  obtain ⟨id, same, parent, index, kind⟩ := linked.ofAttribute q i n found
  have other : n ≠ .item c := attached.ne_of_parent parent
  rw [attached.parent_old other, attached.index n other, attached.kind n other]
  exact ⟨id, same, parent, index, kind⟩

/-- Below an attached tree, heights are raised above the node that it hangs on. -/
theorem exists_height (attached : f.Attached g p c) (linked : f.Linked) :
    ∃ height : Nat → Nat, ∀ id q : Nat, g.parent? (.item id) = some q → height q < height id := by
  obtain ⟨height, lower⟩ := linked.height
  refine ⟨fun id => if f.root (.item id) = .item c then height id + height p + 1 else height id,
    fun id q parent => ?_⟩
  dsimp only
  by_cases new : Node.item id = .item c
  · obtain rfl := Node.item.inj new
    have host : p = q := Option.some.inj (attached.parent_new.symm.trans parent)
    subst host
    rw [if_neg attached.apart, if_pos (root_eq_self attached.top)]
    omega
  · rw [attached.parent_old new] at parent
    have less : height q < height id := lower id q parent
    rw [linked.root_eq parent]
    by_cases below : f.root (.item q) = .item c
    · rw [if_pos below, if_pos below]
      omega
    · rw [if_neg below, if_neg below]
      exact less

/-- What was held is held. -/
theorem held_old (attached : f.Attached g p c) {q i : Nat} {n : Node}
    (found : (f.children (.item q))[i]? = some n ∨ (f.attributes (.item q))[i]? = some n) :
    (g.children (.item q))[i]? = some n ∨ (g.attributes (.item q))[i]? = some n := by
  have pushed : ∀ {nodes : Array Node}, nodes[i]? = some n → (nodes.push (.item c))[i]? = some n := by
    intro nodes found
    have inside : i < nodes.size := (Array.getElem?_eq_some_iff.mp found).1
    rw [Array.getElem?_push, if_neg (Nat.ne_of_lt inside)]
    exact found
  rcases attached.held with joined | endowed
  · rw [joined.children, joined.attributes]
    refine found.imp_left fun found => ?_
    split
    · exact pushed found
    · exact found
  · rw [endowed.children, endowed.attributes]
    refine found.imp_right fun found => ?_
    split
    · exact pushed found
    · exact found

theorem linked (attached : f.Attached g p c) (linked : f.Linked) : g.Linked where
  ofChild q i n found := by
    rcases attached.held with joined | endowed
    · rw [joined.children] at found
      split at found
      next host =>
        obtain rfl : q = p := Node.item.inj host
        rw [Array.getElem?_push] at found
        split at found
        next last =>
          obtain rfl : Node.item c = n := Option.some.inj found
          have unlisted : g.listed (.item c) = false := by
            unfold Forest.listed
            rw [attached.parent_new]
            show (g.attributes (.item q)).contains (.item c) = false
            rw [joined.attributes, ← Bool.not_eq_true, Array.contains_iff_mem]
            exact attached.not_listed_new linked
          exact ⟨c, rfl, attached.parent_new, joined.index.trans last.symm, unlisted⟩
        next => exact attached.ofChild_old linked found
      next => exact attached.ofChild_old linked found
    · rw [endowed.children] at found
      exact attached.ofChild_old linked found
  ofAttribute q i n found := by
    rcases attached.held with joined | endowed
    · rw [joined.attributes] at found
      exact attached.ofAttribute_old linked found
    · rw [endowed.attributes] at found
      split at found
      next host =>
        obtain rfl : q = p := Node.item.inj host
        rw [Array.getElem?_push] at found
        split at found
        next last =>
          obtain rfl : Node.item c = n := Option.some.inj found
          exact ⟨c, rfl, attached.parent_new, endowed.index.trans last.symm, endowed.kind⟩
        next => exact attached.ofAttribute_old linked found
      next => exact attached.ofAttribute_old linked found
  held id q parent := by
    by_cases new : Node.item id = .item c
    · obtain rfl := Node.item.inj new
      have host : p = q := Option.some.inj (attached.parent_new.symm.trans parent)
      subst host
      rcases attached.held with joined | endowed
      · rw [joined.children, joined.index, if_pos rfl, Array.getElem?_push, if_pos rfl]
        exact .inl rfl
      · rw [endowed.attributes, endowed.index, if_pos rfl, Array.getElem?_push, if_pos rfl]
        exact .inr rfl
    · rw [attached.parent_old new] at parent
      rw [attached.index _ new]
      exact attached.held_old (linked.held id q parent)
  height := attached.exists_height linked

/-! ### Addresses after attaching -/

/-- What is in other trees stays where it is. -/
theorem outside (attached : f.Attached g p c) (linked : f.Linked) {n : Node} (out : f.root n ≠ .item c) :
    g.root n = f.root n ∧ g.address n = f.address n := by
  have linkedG : g.Linked := attached.linked linked
  refine linked.climb (P := fun n => f.root n ≠ .item c → g.root n = f.root n ∧ g.address n = f.address n)
    (fun n ih out => ?_) n out
  cases parent : f.parent? n with
  | none =>
    rw [root_eq_self parent] at out
    have parentG : g.parent? n = none := (attached.parent_old out).trans parent
    rw [root_eq_self parent, root_eq_self parentG, address_eq_nil parent, address_eq_nil parentG]
    exact ⟨rfl, rfl⟩
  | some q =>
    have other : n ≠ .item c := attached.ne_of_parent parent
    have parentG : g.parent? n = some q := (attached.parent_old other).trans parent
    rw [linked.root_eq parent] at out
    obtain ⟨root, address⟩ := ih q parent out
    rw [linked.root_eq parent, linkedG.root_eq parentG, linked.address_eq parent,
      linkedG.address_eq parentG, attached.spot_old other, address]
    exact ⟨root, rfl⟩

theorem root_new (attached : f.Attached g p c) (linked : f.Linked) :
    g.root (.item c) = f.root (.item p) := by
  rw [(attached.linked linked).root_eq attached.parent_new]
  exact (attached.outside linked attached.apart).1

theorem address_new (attached : f.Attached g p c) (linked : f.Linked) :
    g.address (.item c) = f.address (.item p) ++ g.spot (.item c) := by
  rw [(attached.linked linked).address_eq attached.parent_new,
    (attached.outside linked attached.apart).2]

/-- What is in the attached tree moves with its root. -/
theorem below (attached : f.Attached g p c) (linked : f.Linked) {n : Node} (under : f.root n = .item c) :
    g.root n = f.root (.item p) ∧ g.address n = g.address (.item c) ++ f.address n := by
  have linkedG : g.Linked := attached.linked linked
  refine linked.climb (P := fun n => f.root n = .item c →
    g.root n = f.root (.item p) ∧ g.address n = g.address (.item c) ++ f.address n)
    (fun n ih under => ?_) n under
  cases parent : f.parent? n with
  | none =>
    rw [root_eq_self parent] at under
    subst under
    rw [address_eq_nil parent, List.append_nil]
    exact ⟨attached.root_new linked, rfl⟩
  | some q =>
    have other : n ≠ .item c := attached.ne_of_parent parent
    have parentG : g.parent? n = some q := (attached.parent_old other).trans parent
    rw [linked.root_eq parent] at under
    obtain ⟨root, address⟩ := ih q parent under
    rw [linkedG.root_eq parentG, linked.address_eq parent, linkedG.address_eq parentG,
      attached.spot_old other, address, List.append_assoc]
    exact ⟨root, rfl⟩

end Attached

theorem Joined.spot_new {p c : Nat} (joined : f.Joined g p c) (linkedG : g.Linked) :
    g.spot (.item c) = [2, (f.children (.item p)).size] := by
  refine (linkedG.spot_child (p := p) ?_).2
  rw [joined.children, if_pos rfl, Array.getElem?_push, if_pos rfl]

theorem Endowed.spot_new {p c : Nat} (endowed : f.Endowed g p c) (linkedG : g.Linked) :
    g.spot (.item c) = [1, (f.attributes (.item p)).size] := by
  refine (linkedG.spot_attribute (p := p) ?_).2
  rw [endowed.attributes, if_pos rfl, Array.getElem?_push, if_pos rfl]

end Forest

end XPathAnnotator
