/-
**Grafting.**

All that building does is to put new records behind those that there are and to hang their roots on one node,
which may be one of the new ones. Grafts come one after the other: what is grafted on a node of a graft belongs
to that graft. So an element is added as one graft, whose records are those of the tree that it stands for.

* `Forest.graft` — new records under a node of the forest;
* `graft_graft`, `graft_graft_head` — a graft after a graft is a graft;
* `addPlaced_eq`, `addAttributes_eq`, `openElement_eq` — single nodes and attributes;
* `buildElement_eq`, `buildChildren_eq` — whole elements.
-/

import Mathlib
import XPathAnnotator.Proofs.Tree.Building
import XPathAnnotator.Proofs.Tree.Conversion
import XPathAnnotator.Proofs.Tree.Positions

namespace XPathAnnotator

open XPathAnnotator.Xml

/-- A content that holds more attributes and children, for documents and elements. -/
def Content.holding (attributes children : List Node) : Content → Content
  | .document uri old => .document uri (old ++ children.toArray)
  | .element data => .element { data with
      attributes := data.attributes ++ attributes.toArray
      children := data.children ++ children.toArray }
  | content => content

/-- The namespaces in scope of what can have children, if they are known. -/
def Content.scope? : Content → Option NamespaceMap
  | .document _ _ => some []
  | .element data => data.scope
  | _ => none

theorem Content.holding_nil (content : Content) : content.holding [] [] = content := by
  cases content <;> simp [Content.holding]

theorem Content.holding_holding (content : Content) (attributes more children others : List Node) :
    (content.holding attributes children).holding more others =
      content.holding (attributes ++ more) (children ++ others) := by
  cases content <;> simp [Content.holding]

@[simp] theorem Content.scope?_holding (content : Content) (attributes children : List Node) :
    (content.holding attributes children).scope? = content.scope? := by
  cases content <;> rfl

/-- A record whose content holds more attributes and children. -/
def NodeRecord.holding (attributes children : List Node) (record : NodeRecord) : NodeRecord :=
  { record with content := record.content.holding attributes children }

namespace Forest

variable {f g : Forest} {T : Nat} {host : Option Nat}

/-- The last position in a tree. -/
def total (f : Forest) (T : Nat) : Nat := (f.trees.getD T default).total

/-- A forest with new records that count for a tree; a node of the forest, if one is given, holds new attributes
and children. -/
def graft (f : Forest) (T : Nat) (host : Option Nat) (attributes children : List Node)
    (records : List NodeRecord) : Forest where
  nodes := (match host with
    | some p => f.nodes.modify p (NodeRecord.holding attributes children)
    | none => f.nodes) ++ records.toArray
  trees := f.trees.modify T fun status => { status with total := status.total + records.length }

theorem ext_record? (records : ∀ k, g.record? k = f.record? k) (trees : ∀ k : Nat, g.trees[k]? = f.trees[k]?) :
    g = f := by
  obtain ⟨nodes, statuses⟩ := f
  obtain ⟨nodes', statuses'⟩ := g
  have sameNodes : nodes' = nodes := Array.ext_getElem? records
  have sameTrees : statuses' = statuses := Array.ext_getElem? trees
  rw [sameNodes, sameTrees]

section Graft

variable (attributes children more others : List Node) (records later : List NodeRecord)

theorem size_graft : (f.graft T host attributes children records).nodes.size = f.nodes.size + records.length := by
  cases host <;> simp [graft]

theorem record?_graft (k : Nat) : (f.graft T host attributes children records).record? k =
    if k < f.nodes.size then
      if host = some k then (f.record? k).map (NodeRecord.holding attributes children) else f.record? k
    else records[k - f.nodes.size]? := by
  unfold graft record?
  cases host with
  | none => simp [Array.getElem?_append]
  | some p => simp [Array.getElem?_append, Array.getElem?_modify]

theorem trees_graft (k : Nat) : (f.graft T host attributes children records).trees[k]? =
    if T = k then (f.trees[k]?).map fun status => { status with total := status.total + records.length }
    else f.trees[k]? :=
  Array.getElem?_modify

theorem size_trees_graft : (f.graft T host attributes children records).trees.size = f.trees.size :=
  Array.size_modify

theorem total_graft (planted : T < f.trees.size) :
    (f.graft T host attributes children records).total T = f.total T + records.length := by
  have found : f.trees[T]? = some f.trees[T] := Array.getElem?_eq_getElem planted
  unfold total
  rw [Array.getD_eq_getD_getElem?, trees_graft, if_pos rfl, Array.getD_eq_getD_getElem?, found]
  rfl

theorem trees_graft_graft (other : Option Nat) (k : Nat) :
    ((f.graft T host attributes children records).graft T other more others later).trees[k]? =
      if T = k then (f.trees[k]?).map fun status =>
        { status with total := status.total + (records.length + later.length) }
      else f.trees[k]? := by
  rw [trees_graft, trees_graft]
  split
  · rw [Option.map_map]
    simp only [Function.comp_def, Nat.add_assoc]
  · rfl

/-- Nothing comes of a graft without records. -/
theorem graft_nil : f.graft T host [] [] [] = f := by
  have same : ∀ record : NodeRecord, record.holding [] [] = record := by
    intro record
    rw [NodeRecord.holding, Content.holding_nil]
  refine ext_record? (fun k => ?_) fun k => ?_
  · rw [record?_graft]
    by_cases old : k < f.nodes.size
    · rw [if_pos old]
      split
      · rw [funext same, Option.map_id']
      · rfl
    · rw [if_neg old, record?_eq_none (Nat.le_of_not_lt old)]
      rfl
  · rw [trees_graft]
    split
    · exact Option.map_id'
    · rfl

/-- **A graft on the node of the last one** is one graft with it. -/
theorem graft_graft {p : Nat} (inside : p < f.nodes.size) :
    (f.graft T (some p) attributes children records).graft T (some p) more others later =
      f.graft T (some p) (attributes ++ more) (children ++ others) (records ++ later) := by
  refine ext_record? (fun k => ?_) fun k => ?_
  · rw [record?_graft, record?_graft, record?_graft, size_graft]
    by_cases old : k < f.nodes.size
    · rw [if_pos (by omega), if_pos old, if_pos old]
      by_cases same : p = k
      · subst same
        rw [if_pos rfl, if_pos rfl, if_pos rfl, Option.map_map]
        congr 1
        funext record
        simp only [Function.comp_apply, NodeRecord.holding, Content.holding_holding]
      · have other : some p ≠ some k := fun h => same (Option.some.inj h)
        rw [if_neg other, if_neg other, if_neg other]
    · have other : some p ≠ some k := fun h => old (Option.some.inj h ▸ inside)
      rw [if_neg old, if_neg old, if_neg other]
      by_cases mid : k < f.nodes.size + records.length
      · rw [if_pos mid, List.getElem?_append_left (by omega)]
      · rw [if_neg mid, List.getElem?_append_right (by omega)]
        congr 1
        omega
  · rw [trees_graft_graft, trees_graft, List.length_append]

/-- **A graft on the first node of the last one** is one graft with it. -/
theorem graft_graft_head (head : NodeRecord) :
    (f.graft T host attributes children (head :: records)).graft T (some f.nodes.size) more others later =
      f.graft T host attributes children (head.holding more others :: (records ++ later)) := by
  refine ext_record? (fun k => ?_) fun k => ?_
  · rw [record?_graft, record?_graft, record?_graft, size_graft, List.length_cons]
    by_cases old : k < f.nodes.size
    · have other : some f.nodes.size ≠ some k := fun h => Nat.ne_of_lt old (Option.some.inj h).symm
      rw [if_pos (by omega), if_pos old, if_pos old, if_neg other]
    · rw [if_neg old, if_neg old]
      obtain ⟨i, rfl⟩ := Nat.exists_eq_add_of_le (Nat.le_of_not_lt old)
      rw [Nat.add_sub_cancel_left]
      cases i with
      | zero =>
        rw [Nat.add_zero, if_pos (by omega), if_pos rfl]
        rfl
      | succ i =>
        rw [if_neg fun h => absurd (Option.some.inj h) (by omega)]
        rw [List.getElem?_cons_succ, List.getElem?_cons_succ]
        by_cases mid : i < records.length
        · rw [if_pos (by omega), List.getElem?_append_left mid]
        · rw [if_neg (by omega), List.getElem?_append_right (by omega)]
          congr 1
          omega
  · rw [trees_graft_graft, trees_graft, List.length_cons, List.length_cons, List.length_append]
    simp only [Nat.add_right_comm]

end Graft

/-! ### Single nodes -/

/-- The place of the next child of a node. -/
def nextIndex (f : Forest) : Option Nat → Nat
  | some p => (f.children (.item p)).size
  | none => 0

/-- A tree that grows below a parent, which is a document or an element with known namespaces in scope, or
without a parent. -/
structure Hosts (f : Forest) (T : Nat) (parent : Option Nat) (scope : NamespaceMap) : Prop where
  planted : T < f.trees.size
  top : parent = none → scope = []
  holds : ∀ p, parent = some p → ∃ record, f.record? p = some record ∧ record.content.scope? = some scope

theorem lt_size_of_record? {k : Nat} {record : NodeRecord} (found : f.record? k = some record) :
    k < f.nodes.size := by
  by_contra beyond
  rw [record?_eq_none (Nat.le_of_not_lt beyond)] at found
  exact absurd found.symm (Option.some_ne_none _)

theorem children_of_record? {k : Nat} {record : NodeRecord} (found : f.record? k = some record) :
    f.children (.item k) = record.content.children := by
  show ((f.record? k).map fun record => record.content.children).getD #[] = _
  rw [found]
  rfl

theorem attributes_of_record? {k : Nat} {record : NodeRecord} (found : f.record? k = some record) :
    f.attributes (.item k) = record.content.attributes := by
  rw [attributes_item, found]
  rfl

/-- What has namespaces in scope can have children. -/
theorem addChild?_eq {content : Content} {scope : NamespaceMap} (known : content.scope? = some scope)
    (child : Node) : content.addChild? child = some (content.holding [] [child]) := by
  cases content with
  | document uri children => simp [Content.addChild?, Content.holding]
  | element data => simp [Content.addChild?, Content.holding]
  | _ => exact absurd known.symm (Option.some_ne_none _)

namespace Hosts

variable {scope : NamespaceMap} {parent : Option Nat}

theorem scope_eq {p : Nat} (hosts : f.Hosts T (some p) scope) : f.scope p = scope := by
  obtain ⟨record, found, known⟩ := hosts.holds p rfl
  obtain ⟨content, parent, index, tree, position⟩ := record
  unfold Forest.scope
  rw [scopeWithin, found]
  cases content with
  | document uri children => exact Option.some.inj known
  | element data =>
    have remembered : data.scope = some scope := known
    simp only [remembered]
  | _ => exact absurd known.symm (Option.some_ne_none _)

theorem graft (hosts : f.Hosts T parent scope) (host : Option Nat) (attributes children : List Node)
    (records : List NodeRecord) : (f.graft T host attributes children records).Hosts T parent scope where
  planted := by
    rw [size_trees_graft]
    exact hosts.planted
  top := hosts.top
  holds p same := by
    obtain ⟨record, found, known⟩ := hosts.holds p same
    rw [record?_graft, if_pos (lt_size_of_record? found), found]
    split
    · exact ⟨_, rfl, by simpa [NodeRecord.holding] using known⟩
    · exact ⟨record, rfl, known⟩

theorem nextIndex_graft {p : Nat} (hosts : f.Hosts T (some p) scope) (attributes children : List Node)
    (records : List NodeRecord) :
    (f.graft T (some p) attributes children records).nextIndex (some p) =
      f.nextIndex (some p) + children.length := by
  obtain ⟨record, found, known⟩ := hosts.holds p rfl
  have grown : (f.graft T (some p) attributes children records).record? p =
      some (record.holding attributes children) := by
    rw [record?_graft, if_pos (lt_size_of_record? found), if_pos rfl, found]
    rfl
  show ((f.graft T (some p) attributes children records).children (.item p)).size =
    (f.children (.item p)).size + children.length
  rw [children_of_record? found, children_of_record? grown]
  obtain ⟨content, _, _, _, _⟩ := record
  cases content with
  | document uri old => simp [NodeRecord.holding, Content.holding, Content.children]
  | element data => simp [NodeRecord.holding, Content.holding, Content.children]
  | _ => exact absurd known.symm (Option.some_ne_none _)

/-- A new node can be appended to a host. Only the host and the record of the node are other ones then. -/
theorem exists_appended {p : Nat} (hosts : f.Hosts T (some p) scope) (content : Content) :
    ∃ g, (f.create content).1.append? p (.item f.nodes.size) = some g ∧ g.trees = f.trees ∧
      g.record? f.nodes.size = some ⟨content, some p, f.nextIndex (some p), none, none⟩ ∧
      ∀ k, k ≠ f.nodes.size → g.record? k =
        if some p = some k then (f.record? k).map (NodeRecord.holding [] [.item f.nodes.size]) else f.record? k := by
  obtain ⟨record, found, known⟩ := hosts.holds p rfl
  have inside : p < f.nodes.size := lt_size_of_record? found
  have still : (f.create content).1.record? p = some record := by
    rw [record?_create, if_neg (Nat.ne_of_lt inside), found]
  have added := addChild?_eq known (.item f.nodes.size)
  obtain ⟨g, appended⟩ : ∃ g, (f.create content).1.append? p (.item f.nodes.size) = some g := by
    unfold append?
    simp only [still, added]
    exact ⟨_, rfl⟩
  have insideNew : f.nodes.size < (f.create content).1.nodes.size := by
    rw [size_create]
    exact Nat.lt_succ_self _
  obtain ⟨record', more, child, foundP, added', foundC, changedP, changedC, rest, -, trees⟩ :=
    records_append appended (Nat.ne_of_lt inside) insideNew
  obtain rfl : record = record' := Option.some.inj (still.symm.trans foundP)
  obtain rfl : more = record.content.holding [] [.item f.nodes.size] := Option.some.inj (added'.symm.trans added)
  rw [record?_create, if_pos rfl] at foundC
  obtain rfl := Option.some.inj foundC
  refine ⟨g, appended, trees, ?_, fun k other => ?_⟩
  · have index : f.nextIndex (some p) = record.content.children.size := by
      show (f.children (.item p)).size = _
      rw [children_of_record? found]
    rw [changedC, index]
  · by_cases same : p = k
    · subst same
      rw [if_pos rfl, changedP, found]
      rfl
    · rw [if_neg fun h => same (Option.some.inj h), rest k (Ne.symm same) other, record?_create, if_neg other]

end Hosts

/-- Numbering a node counts it, as grafting a record does. -/
theorem trees_place_eq {id : Nat} {attributes children : List Node} {record : NodeRecord}
    (same : g.trees = f.trees) (k : Nat) :
    (g.place T id).trees[k]? = (f.graft T host attributes children [record]).trees[k]? := by
  rw [trees_place, trees_graft, same]
  by_cases here : T = k
  · subst here
    rw [if_pos rfl, if_pos rfl]
    cases found : f.trees[T]? with
    | none => rfl
    | some status => rw [total_eq found]; rfl
  · rw [if_neg here, if_neg here]

/-- To number a new node that its host has got as a child is to graft its record. -/
theorem place_eq_graft {record : NodeRecord} (trees : g.trees = f.trees)
    (new : g.record? f.nodes.size = some record)
    (old : ∀ k, k ≠ f.nodes.size → g.record? k =
      if host = some k then (f.record? k).map (NodeRecord.holding [] [.item f.nodes.size]) else f.record? k) :
    g.place T f.nodes.size = f.graft T host [] [.item f.nodes.size]
      [{ record with tree := some T, position := some (f.total T + 1) }] := by
  refine ext_record? (fun k => ?_) (trees_place_eq (f := f) trees)
  rw [record?_place, record?_graft, trees]
  by_cases here : k = f.nodes.size
  · subst here
    rw [if_pos rfl, if_neg (Nat.lt_irrefl _), Nat.sub_self, new]
    rfl
  rw [if_neg (Ne.symm here), old k here]
  by_cases inside : k < f.nodes.size
  · rw [if_pos inside]
  · have beyond : 1 ≤ k - f.nodes.size := by omega
    rw [if_neg inside, record?_eq_none (Nat.le_of_not_lt inside), Option.map_none, ite_self,
      List.getElem?_eq_none beyond]

/-- **A single node** is a graft with one record. -/
theorem addPlaced_eq {scope : NamespaceMap} {parent : Option Nat} (hosts : f.Hosts T parent scope)
    (content : Content) :
    f.addPlaced T parent content =
      (f.graft T parent [] [.item f.nodes.size]
        [⟨content, parent, f.nextIndex parent, some T, some (f.total T + 1)⟩], f.nodes.size) := by
  cases parent with
  | none =>
    have trees : (f.create content).1.trees = f.trees := rfl
    have new : (f.create content).1.record? f.nodes.size = some ⟨content, none, 0, none, none⟩ := by
      rw [record?_create, if_pos rfl]
    have old : ∀ k, k ≠ f.nodes.size → (f.create content).1.record? k =
        if none = some k then (f.record? k).map (NodeRecord.holding [] [.item f.nodes.size]) else f.record? k := by
      intro k other
      rw [record?_create, if_neg other, if_neg (Option.some_ne_none k).symm]
    calc f.addPlaced T none content
        = ((f.create content).1.place T f.nodes.size, f.nodes.size) := rfl
      _ = _ := by
        rw [place_eq_graft trees new old]
        rfl
  | some p =>
    obtain ⟨g, appended, trees, new, old⟩ := hosts.exists_appended content
    calc f.addPlaced T (some p) content
        = ((((f.create content).1.append? p (.item f.nodes.size)).getD (f.create content).1).place T f.nodes.size,
            f.nodes.size) := rfl
      _ = (g.place T f.nodes.size, f.nodes.size) := by rw [appended, Option.getD_some]
      _ = _ := by rw [place_eq_graft trees new old]

/-- A graft of trees below a node, each of them behind the children that the node has. -/
def graftAll (f : Forest) (T p : Nat) (ts : List NodeTree) : Forest :=
  f.graft T (some p) [] (NodeTree.childNodes f.nodes.size ts)
    (NodeTree.recordsAll T p (f.nextIndex (some p)) f.nodes.size (f.total T + 1) ts)

section Children

variable {p : Nat} {scope : NamespaceMap} (hosts : f.Hosts T (some p) scope)

theorem graftAll_nil : f.graftAll T p [] = f := graft_nil

include hosts

/-- **Trees that are grafted one after the other** are grafted at once. -/
theorem graftAll_append (ts more : List NodeTree) :
    (f.graftAll T p ts).graftAll T p more = f.graftAll T p (ts ++ more) := by
  obtain ⟨record, found, -⟩ := hosts.holds p rfl
  have size : (f.graftAll T p ts).nodes.size = f.nodes.size + NodeTree.sizeAll ts := by
    unfold graftAll
    rw [size_graft, NodeTree.length_recordsAll]
  have index : (f.graftAll T p ts).nextIndex (some p) = f.nextIndex (some p) + ts.length := by
    unfold graftAll
    rw [hosts.nextIndex_graft, NodeTree.length_childNodes]
  have total : (f.graftAll T p ts).total T = f.total T + NodeTree.sizeAll ts := by
    unfold graftAll
    rw [total_graft _ _ _ hosts.planted, NodeTree.length_recordsAll]
  calc (f.graftAll T p ts).graftAll T p more
      = (f.graftAll T p ts).graft T (some p) [] (NodeTree.childNodes (f.nodes.size + NodeTree.sizeAll ts) more)
          (NodeTree.recordsAll T p (f.nextIndex (some p) + ts.length) (f.nodes.size + NodeTree.sizeAll ts)
            (f.total T + NodeTree.sizeAll ts + 1) more) := by
        rw [graftAll, size, index, total]
    _ = f.graftAll T p (ts ++ more) := by
        unfold graftAll
        rw [graft_graft _ _ _ _ _ _ (lt_size_of_record? found), ← NodeTree.childNodes_append,
          Nat.add_right_comm, ← NodeTree.recordsAll_append, List.nil_append]

/-- A tree of a single node without attributes is grafted by adding the node. -/
theorem addPlaced_eq_graftAll (t : NodeTree) (alone : ∀ i id position,
    t.records T (some p) i id position = [⟨t.content #[] #[], some p, i, some T, some position⟩]) :
    (f.addPlaced T (some p) (t.content #[] #[])).1 = f.graftAll T p [t] := by
  rw [addPlaced_eq hosts]
  unfold graftAll
  rw [NodeTree.recordsAll, alone]
  rfl

theorem addText_eq (text : String) : f.addText T p text = f.graftAll T p (NodeTree.ofText text) := by
  unfold addText NodeTree.ofText
  split
  · exact graftAll_nil.symm
  · exact addPlaced_eq_graftAll hosts (.text text) fun _ _ _ => rfl

theorem addRemark_eq (naming : Naming) (remark : Remark) :
    f.addRemark T naming p remark = f.graftAll T p [remark.toTree naming] := by
  have content : remarkContent naming remark = (remark.toTree naming).content #[] #[] := by
    cases remark <;> cases naming <;> rfl
  unfold addRemark
  rw [content]
  refine addPlaced_eq_graftAll hosts _ fun _ _ _ => ?_
  cases remark <;> cases naming <;> rfl

theorem hosts_graftAll (ts : List NodeTree) : (f.graftAll T p ts).Hosts T (some p) scope :=
  hosts.graft _ _ _ _

theorem addRemarks_eq (naming : Naming) (remarks : List Remark) :
    remarks.foldl (fun f remark => f.addRemark T naming p remark) f =
      f.graftAll T p (remarks.map (·.toTree naming)) := by
  induction remarks generalizing f with
  | nil => exact graftAll_nil.symm
  | cons remark remarks ih =>
    rw [List.foldl_cons, addRemark_eq hosts, ih (hosts_graftAll hosts _), graftAll_append hosts]
    rfl

end Children

/-! ### Attributes -/

/-- An attribute is a graft below its element. -/
theorem setAttribute_eq {p : Nat} {record : NodeRecord} {data : ElementData} (found : f.record? p = some record)
    (content : record.content = .element data) (name : NodeName) (value : String) :
    ∃ h id, f.setAttribute? p name value = some (h, id) ∧
      h.place T id = f.graft T (some p) [.item f.nodes.size] []
        [⟨.attribute name value, some p, data.attributes.size, some T, some (f.total T + 1)⟩] := by
  have inside : p < f.nodes.size := lt_size_of_record? found
  have known : f.element? p = some data := by
    obtain ⟨_, _, _, _, _⟩ := record
    subst content
    simp only [element?, found]
  obtain ⟨⟨h, id⟩, put⟩ : ∃ result, f.setAttribute? p name value = some result := by
    unfold setAttribute?
    simp only [known]
    exact ⟨_, rfl⟩
  obtain ⟨data', record', rfl, found', content', -, changed, new, rest, -, trees⟩ := records_setAttribute put
  obtain rfl : record = record' := Option.some.inj (found.symm.trans found')
  obtain rfl : data = data' := Content.element.inj (content.symm.trans content')
  refine ⟨h, f.nodes.size, put, ext_record? (fun k => ?_) (trees_place_eq (f := f) trees)⟩
  rw [record?_place, record?_graft, trees]
  by_cases fresh : k = f.nodes.size
  · subst fresh
    rw [if_pos rfl, if_neg (Nat.lt_irrefl _), Nat.sub_self, new]
    rfl
  · rw [if_neg (Ne.symm fresh)]
    by_cases old : k < f.nodes.size
    · rw [if_pos old]
      by_cases same : p = k
      · subst same
        rw [if_pos rfl, changed, found]
        simp [NodeRecord.holding, content, Content.holding]
      · rw [if_neg fun h => same (Option.some.inj h), rest k (Ne.symm same) fresh]
    · have apart : k ≠ p := fun same => old (same ▸ inside)
      rw [if_neg old, rest k apart fresh, record?_eq_none (Nat.le_of_not_lt old), List.getElem?_eq_none]
      show 1 ≤ k - f.nodes.size
      omega

/-- **The attributes of an element** are grafted below it. -/
theorem addAttributes_eq {p : Nat} {record : NodeRecord} {data : ElementData} (planted : T < f.trees.size)
    (found : f.record? p = some record) (content : record.content = .element data) (scope : NamespaceMap)
    (attributes : List Attribute) :
    f.addAttributes T p scope attributes =
      f.graft T (some p) (NodeTree.attributeNodes f.nodes.size attributes.length) []
        (NodeTree.attributeRecords T p data.attributes.size (f.total T + 1) (attributes.map (·.entry scope))) := by
  unfold addAttributes
  induction attributes generalizing f record data with
  | nil =>
    exact graft_nil.symm
  | cons a attributes ih =>
    obtain ⟨h, id, put, placed⟩ := setAttribute_eq (T := T) found content (a.entry scope).1 a.value
    let first : NodeRecord :=
      ⟨.attribute (a.entry scope).1 a.value, some p, data.attributes.size, some T, some (f.total T + 1)⟩
    have planted' : T < (f.graft T (some p) [.item f.nodes.size] [] [first]).trees.size := by
      rw [size_trees_graft]
      exact planted
    have found' : (f.graft T (some p) [.item f.nodes.size] [] [first]).record? p =
        some (record.holding [.item f.nodes.size] []) := by
      rw [record?_graft, if_pos (lt_size_of_record? found), if_pos rfl, found]
      rfl
    have content' : (record.holding [.item f.nodes.size] []).content =
        .element { data with attributes := data.attributes.push (.item f.nodes.size) } := by
      simp [NodeRecord.holding, content, Content.holding]
    have step : f.setAttribute? p
        ⟨scope.qualifierFor a.tag.uri true, a.tag.written.localPart, a.tag.uri⟩ a.value = some (h, id) := put
    rw [List.foldl_cons]
    simp only [step]
    rw [placed, ih planted' found' content', graft_graft _ _ _ _ _ _ (lt_size_of_record? found), size_graft,
      total_graft _ _ _ planted]
    simp [NodeTree.attributeNodes, NodeTree.attributeRecords, List.range'_succ, Attribute.entry, first]

/-! ### Elements -/

section Element

variable {naming : Naming} {parent : Option Nat} {scope : NamespaceMap}

/-- The node of an element that has been opened: it has its attributes, but no children yet. -/
def openedRecord (f : Forest) (T : Nat) (naming : Naming) (parent : Option Nat) (outer : NamespaceMap) (tag : Tag)
    (declarations : NamespaceMap) (attributes : List Attribute) : NodeRecord where
  content := .element
    { name := elementName naming (outer.extend declarations) tag
      declarations := declarations
      attributes := (NodeTree.attributeNodes (f.nodes.size + 1) attributes.length).toArray
      children := #[]
      scope := some (outer.extend declarations) }
  parent := parent
  index := f.nextIndex parent
  tree := some T
  position := some (f.total T + 1)

/-- **Opening an element** grafts its node and those of its attributes. -/
theorem openElement_eq (hosts : f.Hosts T parent scope) (tag : Tag) (declarations : NamespaceMap)
    (attributes : List Attribute) :
    f.openElement T naming parent tag declarations attributes =
      (f.graft T parent [] [.item f.nodes.size]
        (f.openedRecord T naming parent scope tag declarations attributes ::
          NodeTree.attributeRecords T f.nodes.size 0 (f.total T + 2)
            (attributes.map (·.entry (scope.extend declarations)))), f.nodes.size) := by
  unfold openElement
  extract_lets outer inner element
  have same : outer = scope := by
    cases parent with
    | none => exact (hosts.top rfl).symm
    | some p => exact hosts.scope_eq
  have within : inner = scope.extend declarations := congrArg (NamespaceMap.extend · declarations) same
  simp only [addPlaced_eq hosts]
  let data : ElementData :=
    { name := elementName naming (scope.extend declarations) tag
      declarations := declarations
      attributes := #[]
      children := #[]
      scope := some (scope.extend declarations) }
  let head : NodeRecord := ⟨.element data, parent, f.nextIndex parent, some T, some (f.total T + 1)⟩
  have planted : T < (f.graft T parent [] [.item f.nodes.size] [head]).trees.size := by
    rw [size_trees_graft]
    exact hosts.planted
  have found : (f.graft T parent [] [.item f.nodes.size] [head]).record? f.nodes.size = some head := by
    rw [record?_graft, if_neg (Nat.lt_irrefl _), Nat.sub_self]
    rfl
  have added := addAttributes_eq planted found rfl (scope.extend declarations) attributes
  have made : element = data := by
    simp only [element, within, data]
  rw [made, within]
  show ((f.graft T parent [] [.item f.nodes.size] [head]).addAttributes T f.nodes.size
    (scope.extend declarations) attributes, f.nodes.size) = _
  rw [added, graft_graft_head, size_graft, total_graft _ _ _ hosts.planted]
  simp [openedRecord, NodeRecord.holding, Content.holding, head, data]

mutual

/-- **An element is grafted as the tree that it stands for.** -/
theorem buildElement_eq {f : Forest} {parent : Option Nat} {scope : NamespaceMap}
    (hosts : f.Hosts T parent scope) : (e : Element) →
      buildElement T naming parent f e =
        (f.graft T parent [] [.item f.nodes.size]
          ((e.toTree naming scope).records T parent (f.nextIndex parent) f.nodes.size (f.total T + 1)),
          f.nodes.size)
  | .mk tag declarations attributes text children => by
    let head := f.openedRecord T naming parent scope tag declarations attributes
    let rest := NodeTree.attributeRecords T f.nodes.size 0 (f.total T + 2)
      (attributes.map (·.entry (scope.extend declarations)))
    have opened : f.openElement T naming parent tag declarations attributes = _ :=
      openElement_eq hosts tag declarations attributes
    have found : (f.graft T parent [] [.item f.nodes.size] (head :: rest)).record? f.nodes.size = some head := by
      rw [record?_graft, if_neg (Nat.lt_irrefl _), Nat.sub_self]
      rfl
    have inner : (f.graft T parent [] [.item f.nodes.size] (head :: rest)).Hosts T (some f.nodes.size)
        (scope.extend declarations) := by
      refine ⟨?_, fun same => absurd same (Option.some_ne_none _), fun p same => ?_⟩
      · rw [size_trees_graft]
        exact hosts.planted
      · obtain rfl := Option.some.inj same
        exact ⟨head, found, rfl⟩
    have index : (f.graft T parent [] [.item f.nodes.size] (head :: rest)).nextIndex (some f.nodes.size) = 0 := by
      show ((f.graft T parent [] [.item f.nodes.size] (head :: rest)).children (.item f.nodes.size)).size = 0
      rw [children_of_record? found]
      rfl
    have count : rest.length = attributes.length := by
      rw [NodeTree.length_attributeRecords, List.length_map]
    rw [buildElement, opened]
    dsimp only
    rw [addText_eq inner, buildChildren_eq (hosts_graftAll inner _) children, graftAll_append inner]
    unfold graftAll
    rw [graft_graft_head, index, size_graft, total_graft _ _ _ hosts.planted, List.length_cons, count,
      NodeTree.records_eq]
    simp [Xml.Element.toTree, NodeTree.headRecord, NodeTree.content, NodeTree.attributes, NodeTree.children,
      NodeRecord.holding, openedRecord, Content.holding, head, rest, Nat.add_assoc, Nat.add_comm 1, Nat.add_comm 2]

/-- **Children are grafted as the trees that they stand for**, each with the text after it. -/
theorem buildChildren_eq {f : Forest} {p : Nat} {scope : NamespaceMap} (hosts : f.Hosts T (some p) scope) :
    (children : List (Child × String)) →
      buildChildren T naming p f children = f.graftAll T p (Xml.Element.childTrees naming scope children)
  | [] => by
    rw [buildChildren]
    exact graftAll_nil.symm
  | (.remark remark, tail) :: rest => by
    have remarked := hosts_graftAll hosts [remark.toTree naming]
    rw [buildChildren, addRemark_eq hosts, addText_eq remarked,
      buildChildren_eq (hosts_graftAll remarked _) rest, graftAll_append remarked, graftAll_append hosts]
    rfl
  | (.element e, tail) :: rest => by
    have whole : (buildElement T naming (some p) f e).1 = f.graftAll T p [e.toTree naming scope] := by
      rw [buildElement_eq hosts e]
      simp [graftAll, NodeTree.childNodes, NodeTree.recordsAll]
    have added := hosts_graftAll hosts [e.toTree naming scope]
    rw [buildChildren, whole, addText_eq added, buildChildren_eq (hosts_graftAll added _) rest,
      graftAll_append added, graftAll_append hosts]
    rfl

end

end Element

/-! ### Whole trees -/

section Whole

variable (f : Forest) (naming : Naming) (uri : Option String)

theorem hosts_plant : (f.plant uri).1.Hosts f.trees.size none [] where
  planted := by
    show f.trees.size < (f.trees.push ⟨uri, 0⟩).size
    rw [Array.size_push]
    exact Nat.lt_succ_self _
  top _ := rfl
  holds p same := absurd same.symm (Option.some_ne_none p)

theorem total_plant : (f.plant uri).1.total f.trees.size = 0 := by
  show ((f.trees.push ⟨uri, 0⟩).getD f.trees.size default).total = 0
  simp [Array.getD_eq_getD_getElem?]

/-- **The tree of an element** is grafted as a whole. -/
theorem buildRoot_eq_graft (root : Element) :
    f.buildRoot naming uri root =
      ((f.plant uri).1.graft f.trees.size none [] [.item f.nodes.size]
        ((root.toTree naming []).records f.trees.size none 0 f.nodes.size 1), f.nodes.size) := by
  rw [buildRoot_eq, buildElement_eq (hosts_plant f uri), total_plant]
  rfl

/-- **The tree of a document** is grafted as a whole. -/
theorem buildDocument_eq_graft (document : Document) :
    f.buildDocument naming uri document =
      ((f.plant uri).1.graft f.trees.size none [] [.item f.nodes.size]
        ((document.toTree naming uri).records f.trees.size none 0 f.nodes.size 1), f.nodes.size) := by
  let planted := (f.plant uri).1
  let head : NodeRecord := ⟨.document uri #[], none, 0, some f.trees.size, some 1⟩
  let start := planted.graft f.trees.size none [] [.item f.nodes.size] [head]
  have found : start.record? planted.nodes.size = some head := by
    rw [record?_graft, if_neg (Nat.lt_irrefl _), Nat.sub_self]
    rfl
  have inner : start.Hosts f.trees.size (some f.nodes.size) [] := by
    refine ⟨?_, fun same => absurd same (Option.some_ne_none _), fun p same => ?_⟩
    · rw [size_trees_graft]
      exact (hosts_plant f uri).planted
    · obtain rfl := Option.some.inj same
      exact ⟨head, found, rfl⟩
  have index : start.nextIndex (some f.nodes.size) = 0 := by
    show (start.children (.item planted.nodes.size)).size = 0
    rw [children_of_record? found]
    rfl
  have placed : planted.addPlaced f.trees.size none (.document uri #[]) = (start, f.nodes.size) := by
    rw [addPlaced_eq (hosts_plant f uri), total_plant]
    rfl
  have before := hosts_graftAll inner (document.before.map (·.toTree naming))
  have whole : (Forest.buildWhole (start.graftAll f.trees.size f.nodes.size (document.before.map (·.toTree naming)))
      f.trees.size naming (some f.nodes.size) document.root).1 =
      (start.graftAll f.trees.size f.nodes.size (document.before.map (·.toTree naming))).graftAll f.trees.size
        f.nodes.size [document.root.toTree naming []] := by
    rw [buildWhole_eq, buildElement_eq before]
    simp [graftAll, NodeTree.childNodes, NodeTree.recordsAll]
  have result : f.buildDocument naming uri document = (start.graftAll f.trees.size f.nodes.size
      (document.toTree naming uri).children, f.nodes.size) := by
    unfold buildDocument
    show (document.after.foldl
        (fun grown remark => grown.addRemark f.trees.size naming f.nodes.size remark)
        (Forest.buildWhole
          (document.before.foldl
            (fun grown remark => grown.addRemark f.trees.size naming f.nodes.size remark)
            (planted.addPlaced f.trees.size none (.document uri #[])).1)
          f.trees.size naming (some f.nodes.size) document.root).1, f.nodes.size) = _
    rw [placed, addRemarks_eq inner, whole, addRemarks_eq (hosts_graftAll before _), graftAll_append before,
      graftAll_append inner]
    rfl
  have size : start.nodes.size = f.nodes.size + 1 := size_graft _ _ _
  have total : start.total f.trees.size = 1 := by
    rw [total_graft _ _ _ (hosts_plant f uri).planted, total_plant]
    rfl
  rw [result]
  unfold graftAll
  rw [index, size, total]
  show (Forest.graft (planted.graft f.trees.size none [] [.item planted.nodes.size] [head]) f.trees.size
    (some planted.nodes.size) [] _ _, _) = _
  have held : head.holding [] (NodeTree.childNodes (f.nodes.size + 1) (document.toTree naming uri).children) =
      (document.toTree naming uri).headRecord f.trees.size none 0 f.nodes.size 1 := by
    simp [head, NodeRecord.holding, Content.holding, NodeTree.headRecord, NodeTree.content, NodeTree.attributes,
      Xml.Document.toTree]
  rw [graft_graft_head, NodeTree.records_eq, held]
  rfl

end Whole

end Forest

end XPathAnnotator
