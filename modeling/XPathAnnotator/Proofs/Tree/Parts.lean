/-
**The parts of a document and their nodes.**

Elements, comments and processing instructions are parts of a document, and each stands for one node of its tree; the
other nodes are texts. In document order the nodes without the texts are those of the parts, one by one, of all that is
inside the root element and of this element itself.

* `Element.parts` — the parts in document order;
* `StandsFor`, `Inherited` — which tree a part stands for, and what is known of elements because of those around them;
* `forall₂_parts` — a conversion is made of the trees of its parts;
* `holds_of_addDocument` — the records of a document that has been added to a forest;
* `forall₂_partNodes` — **the nodes of a document are those of its parts**.
-/

import Mathlib
import XPathAnnotator.Proofs.Tree.Converted
import XPathAnnotator.Tree.Build

namespace XPathAnnotator

open XPathAnnotator.Xml

/-! ### Parts -/

mutual

/-- An element, and the elements, comments and processing instructions inside it, in document order. -/
def Xml.Element.parts : Element → List Child
  | .mk tag declarations attributes text children =>
    .element (.mk tag declarations attributes text children) :: Xml.Element.partsAll children

/-- The parts among and inside children, in document order. -/
def Xml.Element.partsAll : List (Child × String) → List Child
  | [] => []
  | (.remark remark, _) :: rest => .remark remark :: Xml.Element.partsAll rest
  | (.element e, _) :: rest => e.parts ++ Xml.Element.partsAll rest

end

/-- The tree that a part stands for, where something is known of an element in the scope around it. -/
def StandsFor (naming : Naming) (Q : NamespaceMap → Element → Prop) (t : NodeTree) : Child → Prop
  | .element e => ∃ outer, t = e.toTree naming outer ∧ Q outer e
  | .remark remark => t = remark.toTree naming

/-- What is known of an element is known of those in it, in its own scope. -/
def Inherited (Q : NamespaceMap → Element → Prop) : Prop :=
  ∀ outer tag declarations attributes text children, Q outer (.mk tag declarations attributes text children) →
    ∀ e tail, (Child.element e, tail) ∈ children → Q (outer.extend declarations) e

namespace NodeTree

/-- The places of nodes other than texts. -/
def marked (places : List (Nat × NodeTree)) : List (Nat × NodeTree) := places.filter fun place => !place.2.isText

theorem marked_append (places more : List (Nat × NodeTree)) : marked (places ++ more) = marked places ++ marked more :=
  List.filter_append ..

theorem marked_ofText (id : Nat) (text : String) : marked (placesAll id (ofText text)) = [] := by
  rcases ofText_cases text with ⟨none, -⟩ | ⟨one, -⟩
  · rw [none]
    rfl
  · rw [one]
    rfl

theorem marked_remark (naming : Naming) (remark : Remark) (id : Nat) :
    marked ((remark.toTree naming).places id) = [(id, remark.toTree naming)] := by
  obtain ⟨alone, -, other, -⟩ := toTree_remark naming remark
  simp [alone, marked, other]

variable (naming : Naming) {Q : NamespaceMap → Element → Prop}

mutual

/-- **The nodes of a conversion are those of the parts**, texts apart. -/
theorem forall₂_parts (inherited : Inherited Q) {outer : NamespaceMap} : (e : Element) → Q outer e → (id : Nat) →
    List.Forall₂ (fun place part => StandsFor naming Q place.2 part)
      (marked ((e.toTree naming outer).places id)) e.parts
  | .mk tag declarations attributes start children, known, id => by
    rw [places_eq, ← List.singleton_append, marked_append, Xml.Element.parts]
    refine .cons ⟨outer, rfl, known⟩ ?_
    rw [Xml.Element.toTree, NodeTree.children, placesAll_append, marked_append, marked_ofText]
    exact forall₂_partsAll inherited children (inherited _ _ _ _ _ _ known) _

theorem forall₂_partsAll (inherited : Inherited Q) {scope : NamespaceMap} : (children : List (Child × String)) →
    (∀ e tail, (Child.element e, tail) ∈ children → Q scope e) → (id : Nat) →
    List.Forall₂ (fun place part => StandsFor naming Q place.2 part)
      (marked (placesAll id (Xml.Element.childTrees naming scope children))) (Xml.Element.partsAll children)
  | [], _, _ => .nil
  | (.remark remark, tail) :: rest, known, id => by
    rw [Xml.Element.childTrees, placesAll, marked_append, marked_remark, placesAll_append, marked_append, marked_ofText,
      Xml.Element.partsAll]
    exact .cons rfl (forall₂_partsAll inherited rest (fun e tail met => known e tail (List.mem_cons_of_mem _ met)) _)
  | (.element e, tail) :: rest, known, id => by
    rw [Xml.Element.childTrees, placesAll, marked_append, placesAll_append, marked_append, marked_ofText,
      Xml.Element.partsAll]
    exact List.rel_append (forall₂_parts inherited e (known e tail List.mem_cons_self) id)
      (forall₂_partsAll inherited rest (fun e tail met => known e tail (List.mem_cons_of_mem _ met)) _)

end

end NodeTree

/-! ### Nodes -/

namespace Forest

variable {f g : Forest} {root : Node} {uri : Option String} {text : String}

/-- **The records of a document** that has been added to a forest: they come after all others. -/
theorem holds_of_addDocument (added : f.addDocument uri text = .ok (g, root)) :
    ∃ document, Document.readSafely text = .ok document ∧ root = .item f.nodes.size ∧
      g.Holds f.nodes.size (((⟨[], document.root, []⟩ : Document).toTree .fromScope uri).records f.trees.size none 0
        f.nodes.size 1) := by
  unfold addDocument at added
  cases read : Document.readSafely text with
  | error e =>
    rw [read] at added
    cases added
  | ok document =>
    rw [read] at added
    have built : (f.buildDocument .fromScope uri ⟨[], document.root, []⟩).1 = g ∧
        Node.item (f.buildDocument .fromScope uri ⟨[], document.root, []⟩).2 = root :=
      Prod.mk.inj (Except.ok.inj added)
    rw [buildDocument_eq_graft] at built
    obtain ⟨rfl, rfl⟩ := built
    exact ⟨document, rfl, rfl, holds_graft (f.plant uri).1 f.trees.size _ [.item f.nodes.size]⟩

/-- The nodes below the root of a document, without texts. -/
def partNodes (g : Forest) (root : Node) : List Node := (g.descendants root).filter fun n => g.kind n != .text

/-- A node other than a text shows the tree that a part stands for. -/
def ShowsPart (g : Forest) (Q : NamespaceMap → Element → Prop) (n : Node) (part : Child) : Prop :=
  ∃ t, StandsFor .fromScope Q t part ∧ ∃ id, n = .item id ∧ g.Shows (.item id) t

/-- **The nodes of a document are those of its parts**, one by one in document order. -/
theorem forall₂_partNodes {Q : NamespaceMap → Element → Prop} (inherited : Inherited Q)
    (known : ∀ document, Document.readSafely text = .ok document → Q [] document.root)
    (added : f.addDocument uri text = .ok (g, root)) :
    ∃ document, Document.readSafely text = .ok document ∧
      List.Forall₂ (g.ShowsPart Q) (g.partNodes root) document.root.parts := by
  obtain ⟨document, read, rfl, holds⟩ := holds_of_addDocument added
  refine ⟨document, read, ?_⟩
  have below := holds.descendantsWithin holds.size_le
  have single : ((⟨[], document.root, []⟩ : Document).toTree .fromScope uri).places f.nodes.size =
      (f.nodes.size, (⟨[], document.root, []⟩ : Document).toTree .fromScope uri) ::
        (document.root.toTree .fromScope []).places (f.nodes.size + 1) := by
    simp [Document.toTree, NodeTree.places, NodeTree.placesAll]
  have each := holds.place
  rw [single] at below each
  have descendants := (List.cons.inj below).2
  have nodes : g.partNodes (.item f.nodes.size) = (NodeTree.marked ((document.root.toTree .fromScope []).places
      (f.nodes.size + 1))).map fun place => Node.item place.1 := by
    show List.filter _ (g.descendantsWithin _ _) = _
    rw [descendants, List.filter_map, NodeTree.marked]
    refine congrArg _ (List.filter_congr fun place met => ?_)
    obtain ⟨_, _, _, inner⟩ := each place (List.mem_cons_of_mem _ met)
    rw [Function.comp_apply, Bool.eq_iff_iff, bne_iff_ne, ne_eq, inner.isText, Bool.not_eq_true', Bool.not_eq_true]
  rw [nodes, List.forall₂_map_left_iff, List.forall₂_iff_get]
  have parts := NodeTree.forall₂_parts .fromScope inherited document.root (known document read) (f.nodes.size + 1)
  refine ⟨parts.length_eq, fun i inside insideParts => ?_⟩
  have met := List.mem_of_mem_filter (List.get_mem _ ⟨i, inside⟩)
  obtain ⟨_, _, _, inner⟩ := each _ (List.mem_cons_of_mem _ met)
  exact ⟨_, parts.get inside insideParts, _, rfl, inner.shows⟩

end Forest

end XPathAnnotator
