/-
**Trees that have been built.**

Building a document or an element puts the records of the tree that it stands for behind all others. What can be
asked of the nodes is read off these records: they show that tree, their positions count from one in the order of
the walk, children and parents agree, texts are in order, and the string value of an element is the text inside it.

* `Forest.Holds` — a run of records in a forest;
* `Forest.Shows` — a node shows a tree;
* `Holds.walkWithin`, `Holds.subtree` — the walk and the subtree of a node with a run of records;
* `build_converted` — what building comes to.
-/

import Mathlib
import XPathAnnotator.Proofs.Tree.Grafting
import XPathAnnotator.Proofs.Tree.Preorder

namespace XPathAnnotator

open XPathAnnotator.Xml

/-- Whether a node has a record of its own. -/
def Node.isItem : Node → Bool
  | .item _ => true
  | .binding _ _ => false

namespace Forest

/-- The records from a number on. -/
def Holds (g : Forest) (id : Nat) (records : List NodeRecord) : Prop :=
  ∀ (i : Nat) (record : NodeRecord), records[i]? = some record → g.record? (id + i) = some record

mutual

/-- A node shows a tree: its content is that of the root, and its attributes and children show those below. -/
def Shows (g : Forest) (n : Node) : NodeTree → Prop
  | .document uri children =>
    g.content? n = some (.document uri (g.children n)) ∧ ShowsAll g (g.children n).toList children
  | .element name declarations scope attributes children =>
    g.content? n = some (.element ⟨name, declarations, g.attributes n, g.children n, some scope⟩) ∧
      (g.attributes n).toList.map g.content? =
        attributes.map (fun (name, value) => some (.attribute name value)) ∧
      ShowsAll g (g.children n).toList children
  | .text value => g.content? n = some (.text value)
  | .comment value => g.content? n = some (.comment value)
  | .instruction target data => g.content? n = some (.instruction target data)

/-- Nodes show trees one by one. -/
def ShowsAll (g : Forest) (nodes : List Node) : List NodeTree → Prop
  | [] => nodes = []
  | t :: ts => ∃ n rest, nodes = n :: rest ∧ Shows g n t ∧ ShowsAll g rest ts

end

variable {f g : Forest} {T : Nat}

theorem kind_of_content {n : Node} {content : Content} (found : g.content? n = some content) :
    g.kind n = content.kind := by
  cases n with
  | item id =>
    obtain ⟨record, known, rfl⟩ := Option.map_eq_some_iff.mp found
    rw [kind, known]
    rfl
  | binding owner index =>
    obtain ⟨binding, -, rfl⟩ := Option.map_eq_some_iff.mp found
    rfl

/-! ### Runs of records -/

theorem Holds.head {id : Nat} {record : NodeRecord} {records : List NodeRecord}
    (holds : g.Holds id (record :: records)) : g.record? id = some record :=
  holds 0 record rfl

theorem Holds.tail {id : Nat} {record : NodeRecord} {records : List NodeRecord}
    (holds : g.Holds id (record :: records)) : g.Holds (id + 1) records := by
  intro i other found
  rw [Nat.add_assoc, Nat.add_comm 1]
  exact holds (i + 1) other found

theorem Holds.left {id : Nat} {records more : List NodeRecord} (holds : g.Holds id (records ++ more)) :
    g.Holds id records := by
  intro i record found
  refine holds i record ?_
  rw [List.getElem?_append_left (List.getElem?_eq_some_iff.mp found).1, found]

theorem Holds.right {id : Nat} {records more : List NodeRecord} (holds : g.Holds id (records ++ more)) :
    g.Holds (id + records.length) more := by
  intro i record found
  rw [Nat.add_assoc]
  refine holds (records.length + i) record ?_
  rw [List.getElem?_append_right (Nat.le_add_right _ _), Nat.add_sub_cancel_left, found]

/-! ### The root of a run -/

section Root

variable {t : NodeTree} {parent : Option Nat} {index id position : Nat}
  (holds : g.Holds id (t.records T parent index id position))

include holds

theorem Holds.record : g.record? id = some (t.headRecord T parent index id position) := by
  rw [NodeTree.records_eq] at holds
  exact holds.head

theorem Holds.attributeRecords :
    g.Holds (id + 1) (NodeTree.attributeRecords T id 0 (position + 1) t.attributes) := by
  rw [NodeTree.records_eq] at holds
  exact holds.tail.left

theorem Holds.below : g.Holds (id + 1 + t.attributes.length)
    (NodeTree.recordsAll T id 0 (id + 1 + t.attributes.length) (position + 1 + t.attributes.length) t.children) := by
  rw [NodeTree.records_eq] at holds
  have rest := holds.tail.right
  rwa [NodeTree.length_attributeRecords] at rest

theorem Holds.parent?_eq : g.parent? (.item id) = parent := by
  show (g.record? id).bind NodeRecord.parent = parent
  rw [holds.record]
  rfl

theorem Holds.index_eq : g.index (.item id) = index := by
  show ((g.record? id).map NodeRecord.index).getD 0 = index
  rw [holds.record]
  rfl

theorem Holds.content? : g.content? (.item id) =
    some (t.content (NodeTree.attributeNodes (id + 1) t.attributes.length).toArray
      (NodeTree.childNodes (id + 1 + t.attributes.length) t.children).toArray) := by
  show (g.record? id).map NodeRecord.content = _
  rw [holds.record]
  rfl

theorem Holds.children : g.children (.item id) =
    (NodeTree.childNodes (id + 1 + t.attributes.length) t.children).toArray := by
  rw [children_of_record? holds.record]
  cases t <;> rfl

theorem Holds.attributes : g.attributes (.item id) =
    (NodeTree.attributeNodes (id + 1) t.attributes.length).toArray := by
  rw [attributes_of_record? holds.record]
  cases t <;> rfl

end Root

/-- Trees one after the other below a node: what holds of each of them. -/
theorem Holds.each {ts : List NodeTree} {p index id position : Nat}
    (holds : g.Holds id (NodeTree.recordsAll T p index id position ts)) (i : Nat) (t : NodeTree)
    (found : ts[i]? = some t) :
    ∃ k position, (NodeTree.childNodes id ts)[i]? = some (.item k) ∧
      g.Holds k (t.records T (some p) (index + i) k position) := by
  induction ts generalizing index id position i with
  | nil => exact absurd found (by simp)
  | cons s ts ih =>
    cases i with
    | zero =>
      obtain rfl : s = t := Option.some.inj found
      exact ⟨id, position, rfl, holds.left⟩
    | succ i =>
      have rest := holds.right
      rw [NodeTree.length_records] at rest
      obtain ⟨k, position, child, below⟩ := ih rest i found
      refine ⟨k, position, child, ?_⟩
      rwa [Nat.add_assoc, Nat.add_comm 1] at below

/-! ### What is shown -/

theorem Holds.contents {attributes : List (NodeName × String)} {owner index id position : Nat}
    (holds : g.Holds id (NodeTree.attributeRecords T owner index position attributes)) :
    (NodeTree.attributeNodes id attributes.length).map g.content? =
      attributes.map fun (name, value) => some (.attribute name value) := by
  induction attributes generalizing index id position with
  | nil => rfl
  | cons a attributes ih =>
    have first : g.content? (.item id) = some (.attribute a.1 a.2) := by
      show (g.record? id).map NodeRecord.content = _
      rw [holds.head]
      rfl
    have rest := ih holds.tail
    rw [NodeTree.attributeNodes] at rest ⊢
    rw [List.length_cons, List.range'_succ, List.map_cons, List.map_cons, first, rest, List.map_cons]

theorem showsAll_of {ts : List NodeTree}
    (each : ∀ t ∈ ts, ∀ parent index id position, g.Holds id (t.records T parent index id position) →
      g.Shows (.item id) t) {p index id position : Nat}
    (holds : g.Holds id (NodeTree.recordsAll T p index id position ts)) :
    g.ShowsAll (NodeTree.childNodes id ts) ts := by
  induction ts generalizing index id position with
  | nil => rfl
  | cons t ts ih =>
    have rest := holds.right
    rw [NodeTree.length_records] at rest
    exact ⟨.item id, _, rfl, each t List.mem_cons_self _ _ _ _ holds.left,
      ih (fun s met => each s (List.mem_cons_of_mem _ met)) rest⟩

/-- **A run of records shows its tree.** -/
theorem Holds.shows {t : NodeTree} {parent : Option Nat} {index id position : Nat}
    (holds : g.Holds id (t.records T parent index id position)) : g.Shows (.item id) t := by
  induction t using NodeTree.byChildren generalizing parent index id position with
  | step t ih =>
    have content := holds.content?
    have below := showsAll_of (fun c met _ _ _ _ inner => ih c met inner) holds.below
    have entries := holds.attributeRecords.contents
    have children := holds.children
    have attributes := holds.attributes
    cases t with
    | document uri ts =>
      refine ⟨?_, ?_⟩
      · rw [children]
        exact content
      · rw [children]
        exact below
    | element name declarations scope entries' ts =>
      refine ⟨?_, ?_, ?_⟩
      · rw [children, attributes]
        exact content
      · rw [attributes]
        exact entries
      · rw [children]
        exact below
    | text value => exact content
    | comment value => exact content
    | instruction target data => exact content

/-! ### The walk -/

theorem filter_namespaceNodes (n : Node) : (g.namespaceNodes n).filter Node.isItem = [] := by
  cases n with
  | item id => simp [namespaceNodes, Node.isItem]
  | binding owner index => rfl

theorem filter_attributeNodes (id count : Nat) :
    (NodeTree.attributeNodes id count).filter Node.isItem = NodeTree.attributeNodes id count := by
  refine List.filter_eq_self.mpr fun n met => ?_
  obtain ⟨k, -, rfl⟩ := List.mem_map.mp met
  rfl

/-- The walk over trees one after the other meets the nodes one after the other. -/
theorem walk_each {ts : List NodeTree} {depth : Nat}
    (each : ∀ t ∈ ts, ∀ parent index id position, g.Holds id (t.records T parent index id position) →
      (g.walkWithin depth (.item id)).filter Node.isItem = (List.range' id t.size).map .item)
    {p index id position : Nat} (holds : g.Holds id (NodeTree.recordsAll T p index id position ts)) :
    ((NodeTree.childNodes id ts).flatMap (g.walkWithin depth)).filter Node.isItem =
      (List.range' id (NodeTree.sizeAll ts)).map .item := by
  induction ts generalizing index id position with
  | nil => rfl
  | cons t ts ih =>
    have rest := holds.right
    rw [NodeTree.length_records] at rest
    rw [NodeTree.childNodes, List.flatMap_cons, List.filter_append, each t List.mem_cons_self _ _ _ _ holds.left,
      ih (fun s met => each s (List.mem_cons_of_mem _ met)) rest, ← List.map_append, List.range'_append_1,
      NodeTree.sizeAll]

/-- **The walk over a tree** meets its nodes in the order of their records. -/
theorem Holds.walkWithin {t : NodeTree} {parent : Option Nat} {index id position depth : Nat}
    (holds : g.Holds id (t.records T parent index id position)) (deep : t.size ≤ depth) :
    (g.walkWithin depth (.item id)).filter Node.isItem = (List.range' id t.size).map .item := by
  induction t using NodeTree.byChildren generalizing parent index id position depth with
  | step t ih =>
    have size := t.size_eq
    obtain ⟨depth, rfl⟩ : ∃ less, depth = less + 1 := ⟨depth - 1, by omega⟩
    have below : ∀ c ∈ t.children, c.size ≤ depth := by
      intro c met
      have part : c.size ≤ NodeTree.sizeAll t.children := NodeTree.size_le_sizeAll met
      omega
    have children := walk_each (fun c met _ _ _ _ inner => ih c met inner (below c met)) holds.below
    rw [Forest.walkWithin, holds.children, holds.attributes, List.filter_cons_of_pos rfl, List.filter_append,
      filter_namespaceNodes, List.nil_append, List.filter_append, filter_attributeNodes, children,
      NodeTree.attributeNodes, ← List.map_append, List.range'_append_1, ← List.map_cons (f := Node.item),
      ← List.range'_succ, size]

/-! ### Positions -/

theorem Holds.positions {id : Nat} {records : List NodeRecord} (holds : g.Holds id records) :
    ((List.range' id records.length).map Node.item).map g.position? = records.map NodeRecord.position := by
  induction records generalizing id with
  | nil => rfl
  | cons record records ih =>
    have first : g.position? (.item id) = record.position := by
      show (g.record? id).bind NodeRecord.position = _
      rw [holds.head]
      rfl
    rw [List.length_cons, List.range'_succ, List.map_cons, List.map_cons, first, ih holds.tail, List.map_cons]

/-! ### The subtree -/

theorem subtree_each {ts : List NodeTree} {depth : Nat}
    (each : ∀ t ∈ ts, ∀ parent index id position, g.Holds id (t.records T parent index id position) →
      .item id :: g.descendantsWithin depth (.item id) = (t.places id).map fun place => Node.item place.1)
    {p index id position : Nat} (holds : g.Holds id (NodeTree.recordsAll T p index id position ts)) :
    ((NodeTree.childNodes id ts).flatMap fun c => c :: g.descendantsWithin depth c) =
      (NodeTree.placesAll id ts).map fun place => Node.item place.1 := by
  induction ts generalizing index id position with
  | nil => rfl
  | cons t ts ih =>
    have rest := holds.right
    rw [NodeTree.length_records] at rest
    rw [NodeTree.childNodes, List.flatMap_cons, each t List.mem_cons_self _ _ _ _ holds.left,
      ih (fun s met => each s (List.mem_cons_of_mem _ met)) rest, ← List.map_append, NodeTree.placesAll]

/-- **The nodes of a subtree** are those of its tree without attributes. -/
theorem Holds.descendantsWithin {t : NodeTree} {parent : Option Nat} {index id position depth : Nat}
    (holds : g.Holds id (t.records T parent index id position)) (deep : t.size ≤ depth) :
    .item id :: g.descendantsWithin depth (.item id) = (t.places id).map fun place => Node.item place.1 := by
  induction t using NodeTree.byChildren generalizing parent index id position depth with
  | step t ih =>
    have size := t.size_eq
    obtain ⟨depth, rfl⟩ : ∃ less, depth = less + 1 := ⟨depth - 1, by omega⟩
    have below : ∀ c ∈ t.children, c.size ≤ depth := by
      intro c met
      have part : c.size ≤ NodeTree.sizeAll t.children := NodeTree.size_le_sizeAll met
      omega
    have children := subtree_each (fun c met _ _ _ _ inner => ih c met inner (below c met)) holds.below
    rw [Forest.descendantsWithin, holds.children, children, NodeTree.places_eq, List.map_cons]

theorem holds_each {ts : List NodeTree}
    (each : ∀ t ∈ ts, ∀ parent index id position, g.Holds id (t.records T parent index id position) →
      ∀ place ∈ t.places id, ∃ parent index position,
        g.Holds place.1 (place.2.records T parent index place.1 position))
    {p index id position : Nat} (holds : g.Holds id (NodeTree.recordsAll T p index id position ts)) :
    ∀ place ∈ NodeTree.placesAll id ts, ∃ parent index position,
      g.Holds place.1 (place.2.records T parent index place.1 position) := by
  induction ts generalizing index id position with
  | nil => exact fun _ met => absurd met List.not_mem_nil
  | cons t ts ih =>
    intro place met
    have rest := holds.right
    rw [NodeTree.length_records] at rest
    rcases List.mem_append.mp met with met | met
    · exact each t List.mem_cons_self _ _ _ _ holds.left place met
    · exact ih (fun s met => each s (List.mem_cons_of_mem _ met)) rest place met

/-- Every node of a tree has the run of its own tree. -/
theorem Holds.place {t : NodeTree} {parent : Option Nat} {index id position : Nat}
    (holds : g.Holds id (t.records T parent index id position)) :
    ∀ place ∈ t.places id, ∃ parent index position,
      g.Holds place.1 (place.2.records T parent index place.1 position) := by
  induction t using NodeTree.byChildren generalizing parent index id position with
  | step t ih =>
    intro place met
    rw [NodeTree.places_eq] at met
    rcases List.mem_cons.mp met with rfl | met
    · exact ⟨parent, index, position, holds⟩
    · exact holds_each (fun c met _ _ _ _ inner => ih c met inner) holds.below place met

/-! ### String values -/

section Texts

variable {t : NodeTree} {parent : Option Nat} {index id position : Nat}
  (holds : g.Holds id (t.records T parent index id position))

include holds

/-- A run of records fits into its forest. -/
theorem Holds.size_le : t.size ≤ g.nodes.size + 1 := by
  have length := NodeTree.length_records T t parent index id position
  have last : t.size - 1 < (t.records T parent index id position).length := by
    rw [length, t.size_eq]
    exact Nat.lt_succ_self _
  have inside := lt_size_of_record? (holds _ _ (List.getElem?_eq_getElem last))
  omega

theorem Holds.isElement : g.isElement (.item id) = t.isElement := by
  unfold Forest.isElement
  rw [kind_of_content holds.content?]
  cases t <;> rfl

theorem Holds.isText : g.kind (.item id) = .text ↔ t.isText := by
  rw [kind_of_content holds.content?]
  cases t <;> simp [NodeTree.content, Content.kind, NodeTree.isText]

/-- **The texts below a node** are those of its tree, when the node is no text itself. -/
theorem Holds.texts (other : t.isText = false) :
    g.texts (.item id) = t.texts := by
  have subtree := holds.descendantsWithin holds.size_le
  have head : t.text? = none := by
    cases t <;> first | rfl | exact absurd other Bool.noConfusion
  rw [NodeTree.places_eq, List.map_cons] at subtree
  have rest : g.descendants (.item id) = _ := (List.cons.inj subtree).2
  calc g.texts (.item id)
      = (NodeTree.placesAll (id + 1 + t.attributes.length) t.children).filterMap fun place => place.2.text? := by
        unfold Forest.texts
        rw [rest, List.filterMap_map]
        refine List.filterMap_congr fun place met => ?_
        have inside : place ∈ t.places id := by
          rw [NodeTree.places_eq]
          exact List.mem_cons_of_mem _ met
        obtain ⟨_, _, _, inner⟩ := holds.place place inside
        simp only [Function.comp_apply, inner.content?]
        cases place.2 <;> rfl
    _ = t.texts := by
        rw [← t.filterMap_places id, NodeTree.places_eq, List.filterMap_cons]
        simp only [head]

theorem Holds.stringValue (element : t.isElement = true) :
    g.stringValue (.item id) = String.join t.texts := by
  have texts := holds.texts
  unfold Forest.stringValue
  rw [holds.content?]
  cases t with
  | element name declarations scope attributes ts => exact congrArg String.join (texts rfl)
  | _ => exact absurd element Bool.false_ne_true

/-! ### Subtrees -/

/-- A child of a node with a run of records has a run of its own. -/
theorem Holds.linked {i : Nat} {c : Node} (child : (g.children (.item id))[i]? = some c) :
    ∃ s k position, t.children[i]? = some s ∧ c = .item k ∧ g.Holds k (s.records T (some id) i k position) := by
  rw [holds.children, List.getElem?_toArray] at child
  have inside : i < t.children.length := by
    rw [← NodeTree.length_childNodes]
    exact (List.getElem?_eq_some_iff.mp child).1
  have found : t.children[i]? = some t.children[i] := List.getElem?_eq_getElem inside
  obtain ⟨k, position, same, below⟩ := holds.below.each i _ found
  rw [Nat.zero_add] at below
  exact ⟨_, k, position, found, Option.some.inj (child.symm.trans same), below⟩

/-- No two children of a neat tree next to each other are texts. -/
theorem Holds.isChain_children (neat : t.Neat) :
    (g.children (.item id)).toList.IsChain fun a b => ¬ (g.kind a = .text ∧ g.kind b = .text) := by
  obtain ⟨-, apart⟩ := neat
  rw [List.isChain_iff_getElem] at apart ⊢
  intro i inside texts
  have found : ∀ j (below : j < (g.children (.item id)).toList.length),
      (g.children (.item id))[j]? = some (g.children (.item id)).toList[j] := by
    intro j below
    rw [← Array.getElem?_toList, List.getElem?_eq_getElem below]
  obtain ⟨s, _, _, first, sameFirst, belowFirst⟩ := holds.linked (found i (Nat.lt_of_succ_lt inside))
  obtain ⟨s', _, _, second, sameSecond, belowSecond⟩ := holds.linked (found (i + 1) inside)
  obtain ⟨insideFirst, rfl⟩ := List.getElem?_eq_some_iff.mp first
  obtain ⟨insideSecond, rfl⟩ := List.getElem?_eq_some_iff.mp second
  rw [sameFirst, sameSecond] at texts
  exact apart i insideSecond ⟨belowFirst.isText.mp texts.1, belowSecond.isText.mp texts.2⟩

theorem Holds.subtree : g.subtree (.item id) = (t.places id).map fun place => Node.item place.1 :=
  holds.descendantsWithin holds.size_le

/-- What holds at every node with the run of its tree holds in the whole subtree. -/
theorem Holds.forall_subtree {P : Node → Prop}
    (each : ∀ place ∈ t.places id, ∀ parent index position,
      g.Holds place.1 (place.2.records T parent index place.1 position) → P (.item place.1)) :
    ∀ n ∈ g.subtree (.item id), P n := by
  intro n met
  rw [holds.subtree] at met
  obtain ⟨place, inside, rfl⟩ := List.mem_map.mp met
  obtain ⟨parent, index, position, inner⟩ := holds.place place inside
  exact each place inside parent index position inner

/-- **The string values of the elements** of a subtree are the texts inside those of its tree. -/
theorem Holds.stringValues :
    ((g.subtree (.item id)).filter g.isElement).map g.stringValue = NodeTree.elementTexts (t.places id) := by
  have elements : (t.places id).filter (g.isElement ∘ fun place => Node.item place.1) =
      (t.places id).filter fun place => place.2.isElement := by
    refine List.filter_congr fun place met => ?_
    obtain ⟨_, _, _, inner⟩ := holds.place place met
    exact inner.isElement
  rw [holds.subtree, List.filter_map, List.map_map, NodeTree.elementTexts, elements]
  refine List.map_congr_left fun place met => ?_
  obtain ⟨inside, element⟩ := List.mem_filter.mp met
  obtain ⟨_, _, _, inner⟩ := holds.place place inside
  exact inner.stringValue element

end Texts

/-! ### What building comes to -/

/-- The forest `g` is `f` with a tree whose root is the node `id`, and this tree is a conversion of an element,
with or without a document around it. -/
structure Converted (f g : Forest) (id : Nat) (tree : NodeTree) (root : Element) : Prop where
  kept : ∀ k < f.nodes.size, g.record? k = f.record? k
  top : g.parent? (.item id) = none
  shows : g.Shows (.item id) tree
  listed : (g.walk (.item id)).filter Node.isItem = (List.range' f.nodes.size tree.size).map .item
  numbered : ((g.walk (.item id)).filter Node.isItem).map g.position? = (List.range' 1 tree.size).map some
  linked : ∀ p, .item p ∈ g.subtree (.item id) → ∀ i c, (g.children (.item p))[i]? = some c →
    g.parent? c = some p ∧ g.index c = i
  filled : ∀ n ∈ g.subtree (.item id), g.content? n ≠ some (.text "")
  apart : ∀ n ∈ g.subtree (.item id),
    (g.children n).toList.IsChain fun a b => ¬ (g.kind a = .text ∧ g.kind b = .text)
  strings : ((g.subtree (.item id)).filter g.isElement).map g.stringValue = root.elements.map Element.innerText

section Converted

variable {t : NodeTree} {uri : Option String}

/-- The graft of a tree that stands alone. -/
theorem holds_graft (f : Forest) (T : Nat) (records : List NodeRecord) (children : List Node) :
    (f.graft T none [] children records).Holds f.nodes.size records := by
  intro i record found
  rw [record?_graft, if_neg (Nat.not_lt_of_le (Nat.le_add_right _ _)), Nat.add_sub_cancel_left, found]

/-- **A graft of a conversion** is a tree that has been converted. -/
theorem converted_graft (f : Forest) (T : Nat) (children : List Node) {root : Element}
    (neat : ∀ place ∈ t.places f.nodes.size, place.2.Neat)
    (strings : NodeTree.elementTexts (t.places f.nodes.size) = root.elements.map Element.innerText) :
    f.Converted (f.graft T none [] children (t.records T none 0 f.nodes.size 1)) f.nodes.size t root := by
  have holds := holds_graft f T (t.records T none 0 f.nodes.size 1) children
  have old : ∀ k < f.nodes.size,
      (f.graft T none [] children (t.records T none 0 f.nodes.size 1)).record? k = f.record? k := by
    intro k inside
    rw [record?_graft, if_pos inside, if_neg (Option.some_ne_none k).symm]
  generalize f.graft T none [] children (t.records T none 0 f.nodes.size 1) = g at holds old
  have walk := holds.walkWithin holds.size_le
  refine ⟨old, holds.parent?_eq, holds.shows, walk, ?_, ?_, ?_, ?_, holds.stringValues.trans strings⟩
  · show ((g.walkWithin _ _).filter Node.isItem).map g.position? = _
    rw [walk, ← NodeTree.length_records T t none 0 f.nodes.size 1, holds.positions,
      NodeTree.map_position_records, NodeTree.length_records]
  · intro p met i c child
    refine holds.forall_subtree (P := fun n => n = .item p → g.parent? c = some p ∧ g.index c = i) ?_ _ met rfl
    intro place _ _ _ _ inner same
    obtain rfl : place.1 = p := Node.item.inj same
    obtain ⟨s, k, position, -, rfl, below⟩ := inner.linked child
    exact ⟨below.parent?_eq, below.index_eq⟩
  · refine holds.forall_subtree fun place met _ _ _ inner empty => ?_
    rw [inner.content?] at empty
    exact (neat place met).1 (NodeTree.eq_text_of_content (Option.some.inj empty))
  · exact holds.forall_subtree fun place met _ _ _ inner => inner.isChain_children (neat place met)

/-- A new tree without nodes makes no difference. -/
theorem Converted.of_plant {id : Nat} {root : Element} (converted : (f.plant uri).1.Converted g id t root) :
    f.Converted g id t root :=
  { converted with }

/-- **Building is the conversion**: the tree of a document or of an element alone is the one that it stands for,
its nodes are numbered from one in the order of the walk, children and parents agree, no text is empty or next to
another one, and the string values of its elements are the texts inside them. -/
theorem build_converted (f : Forest) (naming : Naming) (uri : Option String) :
    (∀ document : Document, f.Converted (f.buildDocument naming uri document).1
      (f.buildDocument naming uri document).2 (document.toTree naming uri) document.root) ∧
    ∀ root : Element, f.Converted (f.buildRoot naming uri root).1 (f.buildRoot naming uri root).2
      (root.toTree naming []) root := by
  constructor
  · intro document
    rw [buildDocument_eq_graft]
    exact (converted_graft (f.plant uri).1 f.trees.size [.item f.nodes.size]
      (NodeTree.neat_document naming uri document _)
      (NodeTree.elementTexts_document naming uri document _)).of_plant
  · intro root
    rw [buildRoot_eq_graft]
    exact (converted_graft (f.plant uri).1 f.trees.size [.item f.nodes.size]
      (NodeTree.neat_toTree naming [] root _)
      (NodeTree.elementTexts_toTree naming [] root _)).of_plant

end Converted

end Forest

end XPathAnnotator
