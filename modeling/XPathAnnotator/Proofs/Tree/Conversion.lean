/-
**The conversion of elements.**

An element stands for a tree: a node for itself with its attributes, below it its text and, for each child, what
that child stands for and the text after it. Empty texts make no nodes. In an array of records such a tree takes
a run of them, a node before its attributes and these before its children.

* `NodeTree` — trees of nodes as terms;
* `Xml.Element.toTree`, `Xml.Document.toTree` — the conversion by recursion;
* `NodeTree.records`, `NodeTree.places` — the run of records, and where each node of it stands;
* `Neat`, `neat_document` — no text of a conversion is empty, and no two are neighbours;
* `elementTexts_document` — the text inside each element, in document order.
-/

import Mathlib
import XPathAnnotator.Tree.Build

namespace XPathAnnotator

open XPathAnnotator.Xml

/-- A tree of nodes. -/
inductive NodeTree where
  | document (uri : Option String) (children : List NodeTree)
  | element (name : NodeName) (declarations scope : NamespaceMap) (attributes : List (NodeName × String))
    (children : List NodeTree)
  | text (value : String)
  | comment (value : String)
  | instruction (target data : String)

namespace NodeTree

/-- The trees below the root of a tree. -/
def children : NodeTree → List NodeTree
  | document _ children | element _ _ _ _ children => children
  | text _ | comment _ | instruction _ _ => []

/-- The attributes at the root of a tree. -/
def attributes : NodeTree → List (NodeName × String)
  | element _ _ _ attributes _ => attributes
  | _ => []

/-- The content of the root of a tree, where the nodes of its attributes and children are given. -/
def content (attributes children : Array Node) : NodeTree → Content
  | document uri _ => .document uri children
  | element name declarations scope _ _ => .element ⟨name, declarations, attributes, children, some scope⟩
  | text value => .text value
  | comment value => .comment value
  | instruction target data => .instruction target data

theorem eq_text_of_content {attributes children : Array Node} {t : NodeTree} {value : String}
    (same : t.content attributes children = .text value) : t = .text value := by
  cases t with
  | text other => exact congrArg text (Content.text.inj same)
  | _ => exact Content.noConfusion same

/-- Whether a tree is a text. -/
def isText : NodeTree → Bool
  | text _ => true
  | _ => false

/-- Whether the root of a tree is an element. -/
def isElement : NodeTree → Bool
  | element _ _ _ _ _ => true
  | _ => false

mutual

/-- What holds of a tree if it holds of the trees below it holds of every tree. -/
theorem byChildren {P : NodeTree → Prop} (step : ∀ t, (∀ c ∈ t.children, P c) → P t) : (t : NodeTree) → P t
  | document _ below => step _ (byChildrenAll step below)
  | element _ _ _ _ below => step _ (byChildrenAll step below)
  | text _ => step _ fun _ met => absurd met List.not_mem_nil
  | comment _ => step _ fun _ met => absurd met List.not_mem_nil
  | instruction _ _ => step _ fun _ met => absurd met List.not_mem_nil

theorem byChildrenAll {P : NodeTree → Prop} (step : ∀ t, (∀ c ∈ t.children, P c) → P t) :
    (ts : List NodeTree) → ∀ c ∈ ts, P c
  | [] => fun _ met => absurd met List.not_mem_nil
  | t :: ts => List.forall_mem_cons.mpr ⟨byChildren step t, byChildrenAll step ts⟩

end

/-! ### Sizes -/

mutual

/-- How many nodes a tree has, attributes included. -/
def size : NodeTree → Nat
  | document _ children => sizeAll children + 1
  | element _ _ _ attributes children => attributes.length + sizeAll children + 1
  | text _ | comment _ | instruction _ _ => 1

/-- How many nodes trees have. -/
def sizeAll : List NodeTree → Nat
  | [] => 0
  | t :: ts => t.size + sizeAll ts

end

theorem size_eq (t : NodeTree) : t.size = t.attributes.length + sizeAll t.children + 1 := by
  cases t <;> simp [size, attributes, children, sizeAll]

theorem size_le_sizeAll {t : NodeTree} {ts : List NodeTree} (met : t ∈ ts) : t.size ≤ sizeAll ts := by
  induction ts with
  | nil => exact absurd met List.not_mem_nil
  | cons s ts ih =>
    rw [sizeAll]
    rcases List.mem_cons.mp met with rfl | met
    · exact Nat.le_add_right _ _
    · exact (ih met).trans (Nat.le_add_left _ _)

/-! ### Records -/

/-- The nodes of attributes that come one after the other. -/
def attributeNodes (id count : Nat) : List Node := (List.range' id count).map .item

/-- The roots of trees that come one after the other. -/
def childNodes (id : Nat) : List NodeTree → List Node
  | [] => []
  | t :: ts => .item id :: childNodes (id + t.size) ts

theorem childNodes_append (id : Nat) (ts more : List NodeTree) :
    childNodes id (ts ++ more) = childNodes id ts ++ childNodes (id + sizeAll ts) more := by
  induction ts generalizing id with
  | nil => simp [childNodes, sizeAll]
  | cons t ts ih => simp only [List.cons_append, childNodes, ih, sizeAll, Nat.add_assoc]

theorem length_childNodes (id : Nat) (ts : List NodeTree) : (childNodes id ts).length = ts.length := by
  induction ts generalizing id with
  | nil => rfl
  | cons t ts ih => simp only [childNodes, List.length_cons, ih]

section Records

variable (T : Nat)

/-- The record of the root of a tree. -/
def headRecord (parent : Option Nat) (index id position : Nat) (t : NodeTree) : NodeRecord where
  content := t.content (attributeNodes (id + 1) t.attributes.length).toArray
    (childNodes (id + 1 + t.attributes.length) t.children).toArray
  parent := parent
  index := index
  tree := some T
  position := some position

/-- The records of attributes of an element. -/
def attributeRecords (owner index position : Nat) : List (NodeName × String) → List NodeRecord
  | [] => []
  | (name, value) :: rest =>
    ⟨.attribute name value, some owner, index, some T, some position⟩ ::
      attributeRecords owner (index + 1) (position + 1) rest

mutual

/-- The records of a tree, where the number and the position of its root are given: the root comes before its
attributes, and these before its children. -/
def records (parent : Option Nat) (index id position : Nat) : NodeTree → List NodeRecord
  | document uri children =>
    (document uri children).headRecord T parent index id position ::
      recordsAll id 0 (id + 1) (position + 1) children
  | element name declarations scope attributes children =>
    (element name declarations scope attributes children).headRecord T parent index id position ::
      (attributeRecords T id 0 (position + 1) attributes ++
        recordsAll id 0 (id + 1 + attributes.length) (position + 1 + attributes.length) children)
  | text value => [(text value).headRecord T parent index id position]
  | comment value => [(comment value).headRecord T parent index id position]
  | instruction target data => [(instruction target data).headRecord T parent index id position]

/-- The records of the children of a node, from a place among them on. -/
def recordsAll (parent index id position : Nat) : List NodeTree → List NodeRecord
  | [] => []
  | t :: ts =>
    t.records (some parent) index id position ++ recordsAll parent (index + 1) (id + t.size) (position + t.size) ts

end

theorem records_eq (parent : Option Nat) (index id position : Nat) (t : NodeTree) :
    t.records T parent index id position = t.headRecord T parent index id position ::
      (attributeRecords T id 0 (position + 1) t.attributes ++
        recordsAll T id 0 (id + 1 + t.attributes.length) (position + 1 + t.attributes.length) t.children) := by
  cases t <;> simp [records, attributes, children, recordsAll, attributeRecords]

theorem recordsAll_append (parent index id position : Nat) (ts more : List NodeTree) :
    recordsAll T parent index id position (ts ++ more) = recordsAll T parent index id position ts ++
      recordsAll T parent (index + ts.length) (id + sizeAll ts) (position + sizeAll ts) more := by
  induction ts generalizing index id position with
  | nil => simp [recordsAll, sizeAll]
  | cons t ts ih =>
    simp only [List.cons_append, recordsAll, ih, sizeAll, List.append_assoc, List.length_cons, Nat.add_assoc,
      Nat.add_comm 1]

theorem length_attributeRecords (owner index position : Nat) (attributes : List (NodeName × String)) :
    (attributeRecords T owner index position attributes).length = attributes.length := by
  induction attributes generalizing index position with
  | nil => rfl
  | cons a attributes ih => simp only [attributeRecords, List.length_cons, ih]

theorem length_recordsAll_of {ts : List NodeTree}
    (each : ∀ t ∈ ts, ∀ parent index id position, (t.records T parent index id position).length = t.size)
    (parent index id position : Nat) : (recordsAll T parent index id position ts).length = sizeAll ts := by
  induction ts generalizing index id position with
  | nil => rfl
  | cons t ts ih =>
    rw [recordsAll, List.length_append, each t List.mem_cons_self,
      ih fun s met => each s (List.mem_cons_of_mem _ met)]
    rfl

theorem length_records (t : NodeTree) (parent : Option Nat) (index id position : Nat) :
    (t.records T parent index id position).length = t.size := by
  induction t using byChildren generalizing parent index id position with
  | step t ih =>
    rw [records_eq, List.length_cons, List.length_append, length_attributeRecords,
      length_recordsAll_of T fun c met => ih c met, size_eq]

theorem length_recordsAll (ts : List NodeTree) (parent index id position : Nat) :
    (recordsAll T parent index id position ts).length = sizeAll ts :=
  length_recordsAll_of T (fun t _ => length_records T t) parent index id position

theorem map_position_attributeRecords (owner index position : Nat) (attributes : List (NodeName × String)) :
    (attributeRecords T owner index position attributes).map NodeRecord.position =
      (List.range' position attributes.length).map some := by
  induction attributes generalizing index position with
  | nil => rfl
  | cons a attributes ih =>
    rw [attributeRecords, List.map_cons, ih, List.length_cons, List.range'_succ, List.map_cons]

theorem map_position_recordsAll_of {ts : List NodeTree}
    (each : ∀ t ∈ ts, ∀ parent index id position,
      (t.records T parent index id position).map NodeRecord.position = (List.range' position t.size).map some)
    (parent index id position : Nat) :
    (recordsAll T parent index id position ts).map NodeRecord.position =
      (List.range' position (sizeAll ts)).map some := by
  induction ts generalizing index id position with
  | nil => rfl
  | cons t ts ih =>
    rw [recordsAll, List.map_append, each t List.mem_cons_self, ih fun s met => each s (List.mem_cons_of_mem _ met),
      ← List.map_append, List.range'_append_1, sizeAll]

/-- The positions in a run of records count up. -/
theorem map_position_records (t : NodeTree) (parent : Option Nat) (index id position : Nat) :
    (t.records T parent index id position).map NodeRecord.position = (List.range' position t.size).map some := by
  induction t using byChildren generalizing parent index id position with
  | step t ih =>
    rw [records_eq, List.map_cons, List.map_append, map_position_attributeRecords,
      map_position_recordsAll_of T fun c met => ih c met, ← List.map_append, List.range'_append_1, size_eq,
      List.range'_succ, List.map_cons]
    rfl

end Records

/-! ### Places -/

mutual

/-- The nodes of a tree without attributes, in document order, each with its number and what is below it. -/
def places (id : Nat) : NodeTree → List (Nat × NodeTree)
  | document uri children => (id, document uri children) :: placesAll (id + 1) children
  | element name declarations scope attributes children =>
    (id, element name declarations scope attributes children) :: placesAll (id + 1 + attributes.length) children
  | text value => [(id, text value)]
  | comment value => [(id, comment value)]
  | instruction target data => [(id, instruction target data)]

/-- The nodes of trees that come one after the other. -/
def placesAll (id : Nat) : List NodeTree → List (Nat × NodeTree)
  | [] => []
  | t :: ts => t.places id ++ placesAll (id + t.size) ts

end

theorem places_eq (id : Nat) (t : NodeTree) :
    t.places id = (id, t) :: placesAll (id + 1 + t.attributes.length) t.children := by
  cases t <;> simp [places, attributes, children, placesAll]

theorem placesAll_append (id : Nat) (ts more : List NodeTree) :
    placesAll id (ts ++ more) = placesAll id ts ++ placesAll (id + sizeAll ts) more := by
  induction ts generalizing id with
  | nil => simp [placesAll, sizeAll]
  | cons t ts ih => simp only [List.cons_append, placesAll, ih, sizeAll, List.append_assoc, Nat.add_assoc]

/-! ### Texts -/

mutual

/-- The texts below a node, in document order. -/
def texts : NodeTree → List String
  | document _ children | element _ _ _ _ children => textsAll children
  | text value => [value]
  | comment _ | instruction _ _ => []

/-- The texts of trees that come one after the other. -/
def textsAll : List NodeTree → List String
  | [] => []
  | t :: ts => t.texts ++ textsAll ts

end

theorem textsAll_append (ts more : List NodeTree) : textsAll (ts ++ more) = textsAll ts ++ textsAll more := by
  induction ts with
  | nil => rfl
  | cons t ts ih => simp only [List.cons_append, textsAll, ih, List.append_assoc]

/-- The text of a text. -/
def text? : NodeTree → Option String
  | text value => some value
  | _ => none

theorem filterMap_placesAll_of {ts : List NodeTree}
    (each : ∀ t ∈ ts, ∀ id, (t.places id).filterMap (fun place => place.2.text?) = t.texts) (id : Nat) :
    (placesAll id ts).filterMap (fun place => place.2.text?) = textsAll ts := by
  induction ts generalizing id with
  | nil => rfl
  | cons t ts ih =>
    rw [placesAll, List.filterMap_append, each t List.mem_cons_self,
      ih fun s met => each s (List.mem_cons_of_mem _ met), textsAll]

/-- The texts of a tree are the texts at its places. -/
theorem filterMap_places (t : NodeTree) (id : Nat) :
    (t.places id).filterMap (fun place => place.2.text?) = t.texts := by
  induction t using byChildren generalizing id with
  | step t ih =>
    rw [places_eq, List.filterMap_cons, filterMap_placesAll_of fun c met => ih c met]
    cases t <;> rfl

/-- Whether the texts of a node are in order: it is no empty text, and no two of its children next to each other
are texts. -/
def Neat (t : NodeTree) : Prop :=
  t ≠ .text "" ∧ t.children.IsChain fun a b => ¬ (a.isText ∧ b.isText)

end NodeTree

/-! ### The conversion -/

/-- What a text stands for: an empty one for nothing. -/
def NodeTree.ofText (text : String) : List NodeTree :=
  if text.isEmpty then [] else [.text text]

/-- What a comment or a processing instruction stands for. -/
def Xml.Remark.toTree (naming : Naming) : Remark → NodeTree
  | .comment text => .comment text
  | .instruction target data =>
    match naming with
    | .asWritten => .instruction target data
    | .fromScope => .instruction target (Text.trimStartBy Text.isSpace data)

/-- The name and value of the node of an attribute. -/
def Xml.Attribute.entry (scope : NamespaceMap) (a : Attribute) : NodeName × String :=
  (⟨scope.qualifierFor a.tag.uri true, a.tag.written.localPart, a.tag.uri⟩, a.value)

mutual

/-- **The tree that an element stands for**, where the namespaces in scope around it are given. -/
def Xml.Element.toTree (naming : Naming) (outer : NamespaceMap) : Element → NodeTree
  | .mk tag declarations attributes text children =>
    let scope := outer.extend declarations
    .element (Forest.elementName naming scope tag) declarations scope (attributes.map (·.entry scope))
      (NodeTree.ofText text ++ Xml.Element.childTrees naming scope children)

/-- The trees that the children of an element stand for, each with the text after it. -/
def Xml.Element.childTrees (naming : Naming) (scope : NamespaceMap) : List (Child × String) → List NodeTree
  | [] => []
  | (.remark remark, tail) :: rest =>
    remark.toTree naming :: (NodeTree.ofText tail ++ Xml.Element.childTrees naming scope rest)
  | (.element e, tail) :: rest =>
    e.toTree naming scope :: (NodeTree.ofText tail ++ Xml.Element.childTrees naming scope rest)

end

/-- The tree that a document stands for: nothing is in scope around its root element. -/
def Xml.Document.toTree (naming : Naming) (uri : Option String) (document : Document) : NodeTree :=
  .document uri (document.before.map (·.toTree naming) ++
    document.root.toTree naming [] :: document.after.map (·.toTree naming))

mutual

/-- The texts and the texts after children inside an element, one after the other. -/
def Xml.Element.innerText : Element → String
  | .mk _ _ _ text children => text ++ Xml.Element.innerTextAll children

/-- The texts in and after children, one after the other. -/
def Xml.Element.innerTextAll : List (Child × String) → String
  | [] => ""
  | (.remark _, tail) :: rest => tail ++ Xml.Element.innerTextAll rest
  | (.element e, tail) :: rest => e.innerText ++ tail ++ Xml.Element.innerTextAll rest

end

mutual

/-- An element and the elements inside it, in document order. -/
def Xml.Element.elements : Element → List Element
  | .mk tag declarations attributes text children =>
    .mk tag declarations attributes text children :: Xml.Element.elementsAll children

/-- The elements among and inside children, in document order. -/
def Xml.Element.elementsAll : List (Child × String) → List Element
  | [] => []
  | (.remark _, _) :: rest => Xml.Element.elementsAll rest
  | (.element e, _) :: rest => e.elements ++ Xml.Element.elementsAll rest

end

/-! ### Texts of conversions -/

namespace NodeTree

variable {naming : Naming}

theorem ofText_cases (text : String) : ofText text = [] ∧ text = "" ∨ ofText text = [.text text] ∧ text ≠ "" := by
  unfold ofText
  by_cases empty : text = ""
  · subst empty
    exact .inl ⟨rfl, rfl⟩
  · rw [if_neg fun isEmpty => empty (String.isEmpty_iff.mp isEmpty)]
    exact .inr ⟨rfl, empty⟩

theorem join_ofText (text : String) : String.join (textsAll (ofText text)) = text := by
  rcases ofText_cases text with ⟨none, rfl⟩ | ⟨one, -⟩
  · rw [none]
    rfl
  · rw [one]
    simp [textsAll, texts]

theorem neat_ofText {text : String} {id : Nat} {place : Nat × NodeTree} (met : place ∈ placesAll id (ofText text)) :
    place.2.Neat := by
  rcases ofText_cases text with ⟨none, -⟩ | ⟨one, filled⟩
  · rw [none] at met
    exact absurd met List.not_mem_nil
  · rw [one] at met
    obtain rfl : place = (id, .text text) := by simpa [placesAll, places] using met
    exact ⟨fun same => filled (NodeTree.text.inj same), .nil⟩

/-- A text may stand before nodes that do not start with a text. -/
theorem isChain_ofText_append (text : String) {ts : List NodeTree}
    (chain : ts.IsChain fun a b => ¬ (a.isText ∧ b.isText)) (start : ∀ t ∈ ts.head?, ¬ t.isText) :
    (ofText text ++ ts).IsChain fun a b => ¬ (a.isText ∧ b.isText) := by
  rcases ofText_cases text with ⟨none, -⟩ | ⟨one, -⟩
  · rw [none]
    exact chain
  · rw [one]
    exact chain.cons fun t first texts => start t first texts.2

/-- A comment or processing instruction is a single node without texts. -/
theorem toTree_remark (naming : Naming) (remark : Remark) :
    (∀ id, (remark.toTree naming).places id = [(id, remark.toTree naming)]) ∧
      (remark.toTree naming).texts = [] ∧ (remark.toTree naming).isText = false ∧
      (remark.toTree naming).isElement = false ∧ (remark.toTree naming).Neat := by
  cases remark <;> cases naming <;>
    exact ⟨fun _ => rfl, rfl, rfl, rfl, fun same => NodeTree.noConfusion same, .nil⟩

/-- No two of the nodes that children stand for are neighbouring texts, and the first one is no text. -/
theorem isChain_childTrees (naming : Naming) (scope : NamespaceMap) (children : List (Child × String)) :
    (Xml.Element.childTrees naming scope children).IsChain (fun a b => ¬ (a.isText ∧ b.isText)) ∧
      ∀ t ∈ (Xml.Element.childTrees naming scope children).head?, ¬ t.isText := by
  have cons : ∀ {t : NodeTree} {tail : String} {rest : List NodeTree}, t.isText = false →
      (rest.IsChain (fun a b => ¬ (a.isText ∧ b.isText)) ∧ ∀ t ∈ rest.head?, ¬ t.isText) →
      (t :: (ofText tail ++ rest)).IsChain (fun a b => ¬ (a.isText ∧ b.isText)) ∧
        ∀ s ∈ (t :: (ofText tail ++ rest)).head?, ¬ s.isText := by
    intro t tail rest other ⟨chain, start⟩
    refine ⟨(isChain_ofText_append tail chain start).cons fun s _ texts => ?_, fun s first => ?_⟩
    · rw [other] at texts
      exact absurd texts.1 Bool.false_ne_true
    · obtain rfl := Option.some.inj first
      rw [other]
      exact Bool.false_ne_true
  induction children with
  | nil => exact ⟨.nil, fun t first => absurd first (by simp [Xml.Element.childTrees])⟩
  | cons child rest ih =>
    obtain ⟨child, tail⟩ := child
    cases child with
    | remark remark => exact cons (toTree_remark naming remark).2.2.1 ih
    | element e =>
      obtain ⟨tag, declarations, attributes, text, children⟩ := e
      exact cons rfl ih

mutual

theorem join_texts_toTree (naming : Naming) (outer : NamespaceMap) :
    (e : Element) → String.join (e.toTree naming outer).texts = e.innerText
  | .mk tag declarations attributes start children => by
    rw [Xml.Element.toTree, texts, textsAll_append, String.join_append, join_ofText,
      join_texts_childTrees naming _ children, Xml.Element.innerText]

theorem join_texts_childTrees (naming : Naming) (scope : NamespaceMap) :
    (children : List (Child × String)) →
      String.join (textsAll (Xml.Element.childTrees naming scope children)) = Xml.Element.innerTextAll children
  | [] => rfl
  | (.remark remark, tail) :: rest => by
    rw [Xml.Element.childTrees, textsAll, (toTree_remark naming remark).2.1, List.nil_append, textsAll_append,
      String.join_append, join_ofText, join_texts_childTrees naming scope rest, Xml.Element.innerTextAll]
  | (.element e, tail) :: rest => by
    rw [Xml.Element.childTrees, textsAll, textsAll_append, String.join_append, String.join_append, join_ofText,
      join_texts_toTree naming scope e, join_texts_childTrees naming scope rest, Xml.Element.innerTextAll,
      String.append_assoc]

end

mutual

/-- **The texts of a conversion are in order** at every node of it. -/
theorem neat_toTree (naming : Naming) (outer : NamespaceMap) :
    (e : Element) → (id : Nat) → ∀ place ∈ (e.toTree naming outer).places id, place.2.Neat
  | .mk tag declarations attributes start children, id => by
    intro place met
    rw [places_eq] at met
    rcases List.mem_cons.mp met with rfl | met
    · obtain ⟨chain, first⟩ := isChain_childTrees naming (outer.extend declarations) children
      exact ⟨fun same => NodeTree.noConfusion same, isChain_ofText_append start chain first⟩
    · rw [Xml.Element.toTree, NodeTree.children, placesAll_append] at met
      rcases List.mem_append.mp met with met | met
      · exact neat_ofText met
      · exact neat_childTrees naming _ children _ place met

theorem neat_childTrees (naming : Naming) (scope : NamespaceMap) :
    (children : List (Child × String)) → (id : Nat) →
      ∀ place ∈ placesAll id (Xml.Element.childTrees naming scope children), place.2.Neat
  | [], _ => fun _ met => absurd met List.not_mem_nil
  | (.remark remark, tail) :: rest, id => by
    intro place met
    obtain ⟨alone, -, -, -, neat⟩ := toTree_remark naming remark
    rw [Xml.Element.childTrees, placesAll, alone, placesAll_append] at met
    rcases List.mem_append.mp met with met | met
    · obtain rfl := List.mem_singleton.mp met
      exact neat
    · rcases List.mem_append.mp met with met | met
      · exact neat_ofText met
      · exact neat_childTrees naming scope rest _ place met
  | (.element e, tail) :: rest, id => by
    intro place met
    rw [Xml.Element.childTrees, placesAll, placesAll_append] at met
    rcases List.mem_append.mp met with met | met
    · exact neat_toTree naming scope e id place met
    · rcases List.mem_append.mp met with met | met
      · exact neat_ofText met
      · exact neat_childTrees naming scope rest _ place met

end

/-- The texts inside the elements among places, one after the other. -/
def elementTexts (places : List (Nat × NodeTree)) : List String :=
  (places.filter fun place => place.2.isElement).map fun place => String.join place.2.texts

theorem elementTexts_append (places more : List (Nat × NodeTree)) :
    elementTexts (places ++ more) = elementTexts places ++ elementTexts more := by
  simp only [elementTexts, List.filter_append, List.map_append]

theorem elementTexts_ofText (id : Nat) (text : String) : elementTexts (placesAll id (ofText text)) = [] := by
  rcases ofText_cases text with ⟨none, -⟩ | ⟨one, -⟩
  · rw [none]
    rfl
  · rw [one]
    rfl

theorem elementTexts_remark (naming : Naming) (remark : Remark) (id : Nat) :
    elementTexts ((remark.toTree naming).places id) = [] := by
  obtain ⟨alone, -, -, other, -⟩ := toTree_remark naming remark
  simp [alone, elementTexts, other]

mutual

/-- **The texts inside the elements of a conversion** are those inside the elements themselves. -/
theorem elementTexts_toTree (naming : Naming) (outer : NamespaceMap) :
    (e : Element) → (id : Nat) →
      elementTexts ((e.toTree naming outer).places id) = e.elements.map Xml.Element.innerText
  | .mk tag declarations attributes start children, id => by
    have head := join_texts_toTree naming outer (.mk tag declarations attributes start children)
    rw [places_eq, ← List.singleton_append, elementTexts_append]
    have root : elementTexts [(id, (Element.mk tag declarations attributes start children).toTree naming outer)] =
        [(Element.mk tag declarations attributes start children).innerText] := by
      rw [← head]
      rfl
    rw [root]
    conv_lhs => rw [Xml.Element.toTree, NodeTree.children]
    rw [placesAll_append, elementTexts_append, elementTexts_ofText, List.nil_append,
      elementTexts_childTrees naming _ children, Xml.Element.elements]
    rfl

theorem elementTexts_childTrees (naming : Naming) (scope : NamespaceMap) :
    (children : List (Child × String)) → (id : Nat) →
      elementTexts (placesAll id (Xml.Element.childTrees naming scope children)) =
        (Xml.Element.elementsAll children).map Xml.Element.innerText
  | [], _ => rfl
  | (.remark remark, tail) :: rest, id => by
    rw [Xml.Element.childTrees, placesAll, elementTexts_append, elementTexts_remark, placesAll_append,
      elementTexts_append, elementTexts_ofText, elementTexts_childTrees naming scope rest,
      Xml.Element.elementsAll]
    rfl
  | (.element e, tail) :: rest, id => by
    rw [Xml.Element.childTrees, placesAll, elementTexts_append, elementTexts_toTree naming scope e,
      placesAll_append, elementTexts_append, elementTexts_ofText, elementTexts_childTrees naming scope rest,
      Xml.Element.elementsAll, List.map_append]
    rfl

end

/-! ### Documents -/

section Document

variable (naming : Naming) (uri : Option String) (document : Document) (id : Nat)

theorem neat_document : ∀ place ∈ (document.toTree naming uri).places id, place.2.Neat := by
  intro place met
  have apart : ∀ t ∈ (document.toTree naming uri).children, t.isText = false := by
    intro t held
    rcases List.mem_append.mp held with before | held
    · obtain ⟨remark, -, rfl⟩ := List.mem_map.mp before
      exact (toTree_remark naming remark).2.2.1
    · rcases List.mem_cons.mp held with rfl | after
      · cases document.root
        rfl
      · obtain ⟨remark, -, rfl⟩ := List.mem_map.mp after
        exact (toTree_remark naming remark).2.2.1
  have remarks : ∀ (remarks : List Remark) (id : Nat),
      ∀ place ∈ placesAll id (remarks.map (·.toTree naming)), place.2.Neat := by
    intro remarks
    induction remarks with
    | nil => exact fun _ _ met => absurd met List.not_mem_nil
    | cons remark remarks ih =>
      intro id place met
      obtain ⟨alone, -, -, -, neat⟩ := toTree_remark naming remark
      rw [List.map_cons, placesAll, alone] at met
      rcases List.mem_append.mp met with met | met
      · obtain rfl := List.mem_singleton.mp met
        exact neat
      · exact ih _ place met
  rw [places_eq] at met
  rcases List.mem_cons.mp met with rfl | met
  · refine ⟨fun same => NodeTree.noConfusion same, List.Pairwise.isChain (List.pairwise_of_forall_mem_list ?_)⟩
    intro a held b _ texts
    rw [apart a held] at texts
    exact absurd texts.1 Bool.false_ne_true
  · rw [Xml.Document.toTree, NodeTree.children, placesAll_append, placesAll] at met
    rcases List.mem_append.mp met with met | met
    · exact remarks _ _ place met
    · rcases List.mem_append.mp met with met | met
      · exact neat_toTree naming [] document.root _ place met
      · exact remarks _ _ place met

theorem elementTexts_document : elementTexts ((document.toTree naming uri).places id) =
    document.root.elements.map Xml.Element.innerText := by
  have remarks : ∀ (remarks : List Remark) (id : Nat),
      elementTexts (placesAll id (remarks.map (·.toTree naming))) = [] := by
    intro remarks
    induction remarks with
    | nil => exact fun _ => rfl
    | cons remark remarks ih =>
      intro id
      rw [List.map_cons, placesAll, elementTexts_append, elementTexts_remark, ih]
      rfl
  rw [places_eq, ← List.singleton_append, elementTexts_append, Xml.Document.toTree, NodeTree.children,
    placesAll_append, placesAll, elementTexts_append, elementTexts_append, remarks, remarks,
    elementTexts_toTree, List.append_nil]
  rfl

end Document

end NodeTree

end XPathAnnotator
