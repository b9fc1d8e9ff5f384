/-
**What the operations change.**

Making a node, declaring a namespace and remembering scopes move no node. Appending a root and setting an
attribute attach one node. None of them changes the tree or the position that a node was built with.

* `alike_create`, `alike_declare`, `alike_rememberScope` — nothing moves;
* `attached_append`, `attached_setAttribute` — one node is attached;
* `SameLabels` — trees and positions stay as they are.
-/

import Mathlib
import XPathAnnotator.Proofs.Tree.Attachment

namespace XPathAnnotator

/-- The attributes that a content holds. -/
def Content.attributes : Content → Array Node
  | .element data => data.attributes
  | _ => #[]

/-- Whether a content holds no other nodes. -/
def Content.IsBare (content : Content) : Prop := content.children = #[] ∧ content.attributes = #[]

namespace Forest

/-- Two forests with the same trees, in which every record has the same tree and position. -/
structure SameLabels (f g : Forest) : Prop where
  tree? : ∀ id, g.tree? (.item id) = f.tree? (.item id)
  position? : ∀ id, g.position? (.item id) = f.position? (.item id)
  trees : g.trees = f.trees

variable {f g h : Forest}

/-! ### Records -/

theorem record?_create (content : Content) (k : Nat) :
    (f.create content).1.record? k =
      if k = f.nodes.size then some ⟨content, none, 0, none, none⟩ else f.record? k :=
  Array.getElem?_push

theorem record?_update (id : Nat) (change : NodeRecord → NodeRecord) (k : Nat) :
    (f.update id change).record? k = if id = k then (f.record? k).map change else f.record? k :=
  Array.getElem?_modify

theorem size_update (id : Nat) (change : NodeRecord → NodeRecord) :
    (f.update id change).nodes.size = f.nodes.size := Array.size_modify

theorem record?_eq_none {k : Nat} (beyond : f.nodes.size ≤ k) : f.record? k = none :=
  Array.getElem?_eq_none beyond

theorem attributes_item (id : Nat) :
    f.attributes (.item id) = ((f.record? id).map fun record => record.content.attributes).getD #[] := by
  show ((f.element? id).map ElementData.attributes).getD #[] = _
  unfold element?
  cases f.record? id with
  | none => rfl
  | some record =>
    obtain ⟨content, parent, index, tree, position⟩ := record
    cases content <;> rfl

section Reading

variable {α : Type} {p c : Nat}

/-- What is read off the records reads the same at all but one, if it does at the other one that changed. -/
theorem read_eq_of_ne (read : Option NodeRecord → α)
    (rest : ∀ k, k ≠ p → k ≠ c → g.record? k = f.record? k)
    (atHost : read (g.record? p) = read (f.record? p)) {k : Nat} (notNew : k ≠ c) :
    read (g.record? k) = read (f.record? k) := by
  by_cases host : k = p
  · rw [host]
    exact atHost
  · rw [rest k host notNew]

/-- What is read off the records reads the same everywhere, if it does at the two that changed. -/
theorem read_eq (read : Option NodeRecord → α) (rest : ∀ k, k ≠ p → k ≠ c → g.record? k = f.record? k)
    (atHost : read (g.record? p) = read (f.record? p)) (atNew : read (g.record? c) = read (f.record? c))
    (k : Nat) : read (g.record? k) = read (f.record? k) := by
  by_cases new : k = c
  · rw [new]
    exact atNew
  · exact read_eq_of_ne read rest atHost new

end Reading

/-! ### Relations between forests -/

/-- Nodes hang together alike where the records agree. -/
theorem alike_of_records (size : f.nodes.size ≤ g.nodes.size)
    (parent : ∀ k, (g.record? k).bind NodeRecord.parent = (f.record? k).bind NodeRecord.parent)
    (index : ∀ k, ((g.record? k).map NodeRecord.index).getD 0 = ((f.record? k).map NodeRecord.index).getD 0)
    (kind : ∀ k record, f.record? k = some record →
      ((g.record? k).map fun record => record.content.kind) = some record.content.kind)
    (children : ∀ k, ((g.record? k).map fun record => record.content.children).getD #[] =
      ((f.record? k).map fun record => record.content.children).getD #[])
    (attributes : ∀ k, ((g.record? k).map fun record => record.content.attributes).getD #[] =
      ((f.record? k).map fun record => record.content.attributes).getD #[]) : f.Alike g where
  size := size
  parent? n := by
    cases n with
    | binding owner index => rfl
    | item id => exact parent id
  index n := by
    cases n with
    | binding owner index => rfl
    | item id => exact index id
  kind id inside := by
    have found : f.record? id = some f.nodes[id] := Array.getElem?_eq_getElem inside
    unfold Forest.kind
    simp only [kind id _ found, found, Option.map_some]
  children n := by
    cases n with
    | binding owner index => rfl
    | item id => exact children id
  attributes n := by
    cases n with
    | binding owner index => rfl
    | item id =>
      rw [attributes_item, attributes_item]
      exact attributes id

theorem Alike.refl (f : Forest) : f.Alike f where
  size := le_rfl
  parent? _ := rfl
  index _ := rfl
  kind _ _ := rfl
  children _ := rfl
  attributes _ := rfl

theorem Alike.trans (first : f.Alike g) (second : g.Alike h) : f.Alike h where
  size := first.size.trans second.size
  parent? n := (second.parent? n).trans (first.parent? n)
  index n := (second.index n).trans (first.index n)
  kind id inside := (second.kind id (inside.trans_le first.size)).trans (first.kind id inside)
  children n := (second.children n).trans (first.children n)
  attributes n := (second.attributes n).trans (first.attributes n)

theorem SameLabels.refl (f : Forest) : f.SameLabels f where
  tree? _ := rfl
  position? _ := rfl
  trees := rfl

theorem SameLabels.trans (first : f.SameLabels g) (second : g.SameLabels h) : f.SameLabels h where
  tree? id := (second.tree? id).trans (first.tree? id)
  position? id := (second.position? id).trans (first.position? id)
  trees := second.trees.trans first.trees

/-! ### Changes of one record -/

section Update

variable {id : Nat} {change : NodeRecord → NodeRecord}

theorem alike_update (parent : ∀ record, (change record).parent = record.parent)
    (index : ∀ record, (change record).index = record.index)
    (kind : ∀ record, (change record).content.kind = record.content.kind)
    (children : ∀ record, (change record).content.children = record.content.children)
    (attributes : ∀ record, (change record).content.attributes = record.content.attributes) :
    f.Alike (f.update id change) := by
  refine alike_of_records (size_update id change).ge (fun k => ?_) (fun k => ?_)
    (fun k record found => ?_) (fun k => ?_) (fun k => ?_)
  all_goals rw [record?_update]
  · cases f.record? k <;> split <;> simp [parent]
  · cases f.record? k <;> split <;> simp [index]
  · rw [found]
    split <;> simp [kind]
  · cases f.record? k <;> split <;> simp [children]
  · cases f.record? k <;> split <;> simp [attributes]

theorem sameLabels_update (tree : ∀ record, (change record).tree = record.tree)
    (position : ∀ record, (change record).position = record.position) :
    f.SameLabels (f.update id change) where
  tree? k := by
    show ((f.update id change).record? k).bind NodeRecord.tree = (f.record? k).bind NodeRecord.tree
    rw [record?_update]
    cases f.record? k <;> split <;> simp [tree]
  position? k := by
    show ((f.update id change).record? k).bind NodeRecord.position = (f.record? k).bind NodeRecord.position
    rw [record?_update]
    cases f.record? k <;> split <;> simp [position]
  trees := rfl

end Update

section UpdateElement

variable {id : Nat} {change : ElementData → ElementData}

theorem alike_updateElement (children : ∀ data, (change data).children = data.children)
    (attributes : ∀ data, (change data).attributes = data.attributes) :
    f.Alike (f.updateElement id change) := by
  refine alike_update ?_ ?_ ?_ ?_ ?_
  all_goals
    intro record
    obtain ⟨content, parent, index, tree, position⟩ := record
    cases content
  all_goals first | rfl | exact children _ | exact attributes _

theorem sameLabels_updateElement : f.SameLabels (f.updateElement id change) := by
  refine sameLabels_update ?_ ?_
  all_goals
    intro record
    obtain ⟨content, parent, index, tree, position⟩ := record
    cases content <;> rfl

end UpdateElement

/-! ### Making nodes and naming namespaces -/

theorem size_create (content : Content) : (f.create content).1.nodes.size = f.nodes.size + 1 :=
  Array.size_push _

theorem alike_create {content : Content} (bare : content.IsBare) : f.Alike (f.create content).1 := by
  have none : f.record? f.nodes.size = none := record?_eq_none le_rfl
  refine alike_of_records (Nat.le_of_lt (size_create content).ge) (fun k => ?_) (fun k => ?_)
    (fun k record found => ?_) (fun k => ?_) (fun k => ?_)
  all_goals
    rw [record?_create]
    split
  · simp_all
  · rfl
  · simp_all
  · rfl
  · simp_all
  · rw [found]
    rfl
  · simp_all [bare.1]
  · rfl
  · simp_all [bare.2]
  · rfl

theorem sameLabels_create (content : Content) : f.SameLabels (f.create content).1 where
  tree? k := by
    show ((f.create content).1.record? k).bind NodeRecord.tree = (f.record? k).bind NodeRecord.tree
    rw [record?_create]
    split
    next new => rw [new, record?_eq_none le_rfl]; rfl
    next => rfl
  position? k := by
    show ((f.create content).1.record? k).bind NodeRecord.position = (f.record? k).bind NodeRecord.position
    rw [record?_create]
    split
    next new => rw [new, record?_eq_none le_rfl]; rfl
    next => rfl
  trees := rfl

theorem alike_declare {owner : Nat} {qualifier uri : String} (declared : f.declare? owner qualifier uri = some g) :
    f.Alike g ∧ f.SameLabels g := by
  unfold declare? at declared
  cases found : f.element? owner with
  | none => simp [found] at declared
  | some data =>
    simp only [found, Option.some.injEq] at declared
    subst declared
    exact ⟨alike_updateElement (fun _ => rfl) fun _ => rfl, sameLabels_updateElement⟩

theorem alike_rememberWithin (fuel id : Nat) :
    f.Alike (f.rememberWithin fuel id) ∧ f.SameLabels (f.rememberWithin fuel id) := by
  induction fuel generalizing f id with
  | zero => exact ⟨Alike.refl f, SameLabels.refl f⟩
  | succ fuel ih =>
    unfold rememberWithin
    split
    · split
      · exact ⟨Alike.refl f, SameLabels.refl f⟩
      · have step : f.Alike (f.updateElement id fun data => { data with scope := some (f.scope id) }) :=
          alike_updateElement (fun _ => rfl) fun _ => rfl
        have labels : f.SameLabels (f.updateElement id fun data => { data with scope := some (f.scope id) }) :=
          sameLabels_updateElement
        dsimp only
        split
        · exact ⟨step.trans (ih _).1, labels.trans (ih _).2⟩
        · exact ⟨step, labels⟩
    · exact ⟨Alike.refl f, SameLabels.refl f⟩

theorem alike_rememberScope (id : Nat) : f.Alike (f.rememberScope id) ∧ f.SameLabels (f.rememberScope id) :=
  alike_rememberWithin _ id

/-! ### Appending -/

theorem addChild?_eq_some {content more : Content} {child : Node} (added : content.addChild? child = some more) :
    more.kind = content.kind ∧ more.children = content.children.push child ∧
      more.attributes = content.attributes := by
  cases content with
  | document uri children =>
    obtain rfl := Option.some.inj added
    exact ⟨rfl, rfl, rfl⟩
  | element data =>
    obtain rfl := Option.some.inj added
    exact ⟨rfl, rfl, rfl⟩
  | _ => exact absurd added (Option.some_ne_none _).symm

/-- The records after appending: those of the parent and of the child have changed. -/
theorem records_append {p c : Nat} (appended : f.append? p (.item c) = some g) (other : p ≠ c)
    (inside : c < f.nodes.size) :
    ∃ record more child, f.record? p = some record ∧ record.content.addChild? (.item c) = some more ∧
      f.record? c = some child ∧ g.record? p = some { record with content := more } ∧
      g.record? c = some { child with parent := some p, index := record.content.children.size } ∧
      (∀ k, k ≠ p → k ≠ c → g.record? k = f.record? k) ∧ g.nodes.size = f.nodes.size ∧ g.trees = f.trees := by
  unfold append? at appended
  cases found : f.record? p with
  | none => simp [found] at appended
  | some record =>
    cases added : record.content.addChild? (.item c) with
    | none => simp [found, added] at appended
    | some more =>
      simp only [found, added, Option.some.injEq] at appended
      subst appended
      have known : f.record? c = some (f.nodes[c]) := Array.getElem?_eq_getElem inside
      refine ⟨record, more, f.nodes[c], rfl, added, known, ?_, ?_, fun k notP notC => ?_, ?_, rfl⟩
      · rw [record?_update, if_neg (Ne.symm other), record?_update, if_pos rfl, found]
        rfl
      · rw [record?_update, if_pos rfl, record?_update, if_neg other, known]
        rfl
      · rw [record?_update, if_neg (Ne.symm notC), record?_update, if_neg (Ne.symm notP)]
      · rw [size_update, size_update]

/-- Appending changes no kind. -/
theorem kind_append {p c : Nat} (appended : f.append? p (.item c) = some g) (other : p ≠ c)
    (inside : c < f.nodes.size) (n : Node) : g.kind n = f.kind n := by
  obtain ⟨record, more, child, foundP, added, foundC, changedP, changedC, rest, -, -⟩ :=
    records_append appended other inside
  obtain ⟨sameKind, -, -⟩ := addChild?_eq_some added
  cases n with
  | binding owner index => rfl
  | item k =>
    refine read_eq (fun record => (record.map (·.content.kind)).getD .text) rest ?_ ?_ k
    · simp only [changedP, foundP, Option.map_some, sameKind]
    · simp only [changedC, foundC, Option.map_some]

theorem joined_append {p c : Nat} (appended : f.append? p (.item c) = some g) (other : p ≠ c)
    (inside : c < f.nodes.size) : f.Joined g p c := by
  obtain ⟨record, more, child, foundP, added, foundC, changedP, changedC, rest, -, -⟩ :=
    records_append appended other inside
  obtain ⟨-, pushed, sameAttributes⟩ := addChild?_eq_some added
  refine ⟨?_, ?_, ?_⟩
  · show ((g.record? c).map NodeRecord.index).getD 0 =
      (((f.record? p).map fun record => record.content.children).getD #[]).size
    rw [changedC, foundP]
    rfl
  · intro n
    cases n with
    | binding owner index => rw [if_neg (by simp)]; rfl
    | item k =>
      show ((g.record? k).map fun record => record.content.children).getD #[] =
        if Node.item k = Node.item p then
          (((f.record? k).map fun record => record.content.children).getD #[]).push (.item c)
        else ((f.record? k).map fun record => record.content.children).getD #[]
      by_cases host : k = p
      · rw [host, if_pos rfl, changedP, foundP]
        exact pushed
      · rw [if_neg (fun same => host (Node.item.inj same))]
        refine read_eq_of_ne (fun record => (record.map (·.content.children)).getD #[])
          (fun k notNew notHost => rest k notHost notNew) ?_ host
        rw [changedC, foundC]
        rfl
  · intro n
    cases n with
    | binding owner index => rfl
    | item k =>
      rw [attributes_item, attributes_item]
      refine read_eq (fun record => (record.map (·.content.attributes)).getD #[]) rest ?_ ?_ k
      · rw [changedP, foundP]
        exact sameAttributes
      · rw [changedC, foundC]
        rfl

theorem attached_append {p c : Nat} (inside : c < f.nodes.size) (top : f.parent? (.item c) = none)
    (apart : f.root (.item p) ≠ .item c) (appended : f.append? p (.item c) = some g) : f.Attached g p c := by
  have other : p ≠ c := by
    rintro rfl
    exact apart (root_eq_self top)
  obtain ⟨record, more, child, foundP, added, foundC, changedP, changedC, rest, -, -⟩ :=
    records_append appended other inside
  refine ⟨top, apart, ?_, ?_, fun n _ => kind_append appended other inside n,
    .inl (joined_append appended other inside)⟩
  · intro n
    cases n with
    | binding owner index => rw [if_neg (by simp)]; rfl
    | item k =>
      show (g.record? k).bind NodeRecord.parent = _
      by_cases new : k = c
      · rw [new, if_pos rfl, changedC]
        rfl
      · rw [if_neg (fun same => new (Node.item.inj same))]
        refine read_eq_of_ne (·.bind NodeRecord.parent) rest ?_ new
        rw [changedP, foundP]
        rfl
  · intro n notNew
    cases n with
    | binding owner index => rfl
    | item k =>
      have new : k ≠ c := fun same => notNew (congrArg Node.item same)
      refine read_eq_of_ne (fun record => (record.map NodeRecord.index).getD 0) rest ?_ new
      rw [changedP, foundP]
      rfl

theorem sameLabels_append {p c : Nat} (appended : f.append? p (.item c) = some g) (other : p ≠ c)
    (inside : c < f.nodes.size) : f.SameLabels g := by
  obtain ⟨record, more, child, foundP, -, foundC, changedP, changedC, rest, -, trees⟩ :=
    records_append appended other inside
  refine ⟨read_eq (·.bind NodeRecord.tree) rest ?_ ?_, read_eq (·.bind NodeRecord.position) rest ?_ ?_, trees⟩
  · rw [changedP, foundP]
    rfl
  · rw [changedC, foundC]
    rfl
  · rw [changedP, foundP]
    rfl
  · rw [changedC, foundC]
    rfl

/-! ### Setting attributes -/

/-- The records after setting an attribute: there is a new one, and the element has changed. -/
theorem records_setAttribute {owner id : Nat} {name : NodeName} {value : String}
    (put : f.setAttribute? owner name value = some (g, id)) :
    ∃ data record, id = f.nodes.size ∧ f.record? owner = some record ∧ record.content = .element data ∧
      owner ≠ f.nodes.size ∧
      g.record? owner = some { record with
        content := .element { data with attributes := data.attributes.push (.item id) } } ∧
      g.record? f.nodes.size =
        some ⟨.attribute name value, some owner, data.attributes.size, none, none⟩ ∧
      (∀ k, k ≠ owner → k ≠ f.nodes.size → g.record? k = f.record? k) ∧
      g.nodes.size = f.nodes.size + 1 ∧ g.trees = f.trees := by
  unfold setAttribute? at put
  cases found : f.element? owner with
  | none => simp [found] at put
  | some data =>
    simp only [found, Option.some.injEq, Prod.mk.injEq] at put
    obtain ⟨changed, numbered⟩ := put
    have known : ∃ record, f.record? owner = some record ∧ record.content = .element data := by
      unfold element? at found
      split at found
      next data' parent index tree position same =>
        obtain rfl := Option.some.inj found
        exact ⟨_, same, rfl⟩
      next => exact absurd found.symm (Option.some_ne_none _)
    obtain ⟨record, foundOwner, content⟩ := known
    have other : owner ≠ f.nodes.size := by
      rintro same
      rw [same, record?_eq_none le_rfl] at foundOwner
      exact absurd foundOwner.symm (Option.some_ne_none _)
    have number : id = f.nodes.size := numbered.symm
    subst changed number
    refine ⟨data, record, rfl, foundOwner, content, other, ?_, ?_, fun k notOwner notNew => ?_, ?_, rfl⟩
    · show Forest.record? (Forest.update _ owner _) owner = _
      have apart : (f.create (.attribute name value)).2 ≠ owner := Ne.symm other
      rw [record?_update, if_pos rfl, record?_update, if_neg apart, record?_create, if_neg other, foundOwner]
      obtain ⟨_, _, _, _, _⟩ := record
      subst content
      rfl
    · show Forest.record? (Forest.update _ owner _) f.nodes.size = _
      rw [record?_update, if_neg other, record?_update]
      show (if f.nodes.size = f.nodes.size then _ else _) = _
      rw [if_pos rfl, record?_create, if_pos rfl]
      rfl
    · show Forest.record? (Forest.update _ owner _) k = _
      rw [record?_update, if_neg (Ne.symm notOwner), record?_update]
      show (if f.nodes.size = k then _ else _) = _
      rw [if_neg (Ne.symm notNew), record?_create, if_neg notNew]
    · show (Forest.update _ owner _).nodes.size = _
      rw [size_update, size_update, size_create]

theorem endowed_setAttribute {owner id : Nat} {name : NodeName} {value : String}
    (put : f.setAttribute? owner name value = some (g, id)) : f.Endowed g owner id := by
  obtain ⟨data, record, rfl, foundOwner, content, other, changedOwner, new, rest, -, -⟩ :=
    records_setAttribute put
  have none : f.record? f.nodes.size = none := record?_eq_none le_rfl
  have count : (f.attributes (.item owner)).size = data.attributes.size := by
    rw [attributes_item, foundOwner]
    show record.content.attributes.size = _
    rw [content]
    rfl
  refine ⟨?_, ?_, ?_, ?_⟩
  · rw [count]
    show ((g.record? f.nodes.size).map NodeRecord.index).getD 0 = _
    rw [new]
    rfl
  · unfold Forest.kind
    simp only [new, Option.map_some, Option.getD_some, Content.kind]
  · intro n
    cases n with
    | binding owner index => rfl
    | item k =>
      refine read_eq (fun record => (record.map (·.content.children)).getD #[]) rest ?_ ?_ k
      · rw [changedOwner, foundOwner]
        show data.children = record.content.children
        rw [content]
        rfl
      · rw [new, none]
        rfl
  · intro n
    cases n with
    | binding owner index => rw [if_neg (by simp)]; rfl
    | item k =>
      rw [attributes_item, attributes_item]
      by_cases host : k = owner
      · rw [host, if_pos rfl, changedOwner, foundOwner]
        show data.attributes.push _ = record.content.attributes.push _
        rw [content]
        rfl
      · rw [if_neg (fun same => host (Node.item.inj same))]
        refine read_eq_of_ne (fun record => (record.map (·.content.attributes)).getD #[])
          (fun k notNew notHost => rest k notHost notNew) ?_ host
        rw [new, none]
        rfl

theorem attached_setAttribute (linked : f.Linked) {owner id : Nat} {name : NodeName} {value : String}
    (put : f.setAttribute? owner name value = some (g, id)) : f.Attached g owner id := by
  obtain ⟨data, record, rfl, foundOwner, content, other, changedOwner, new, rest, -, -⟩ :=
    records_setAttribute put
  have none : f.record? f.nodes.size = none := record?_eq_none le_rfl
  refine ⟨?_, ?_, ?_, ?_, ?_, .inr (endowed_setAttribute put)⟩
  · show (f.record? f.nodes.size).bind NodeRecord.parent = Option.none
    rw [none]
    rfl
  · have known : f.Has (.item owner) := by
      by_contra beyond
      rw [record?_eq_none (Nat.le_of_not_lt beyond)] at foundOwner
      exact absurd foundOwner.symm (Option.some_ne_none _)
    intro same
    have below : f.Has (f.root (.item owner)) := known.root linked
    rw [same] at below
    exact absurd below (Nat.lt_irrefl _)
  · intro n
    cases n with
    | binding owner index => rw [if_neg (by simp)]; rfl
    | item k =>
      show (g.record? k).bind NodeRecord.parent = _
      by_cases fresh : k = f.nodes.size
      · rw [fresh, if_pos rfl, new]
        rfl
      · rw [if_neg (fun same => fresh (Node.item.inj same))]
        refine read_eq_of_ne (·.bind NodeRecord.parent) rest ?_ fresh
        rw [changedOwner, foundOwner]
        rfl
  · intro n notNew
    cases n with
    | binding owner index => rfl
    | item k =>
      have fresh : k ≠ f.nodes.size := fun same => notNew (congrArg Node.item same)
      refine read_eq_of_ne (fun record => (record.map NodeRecord.index).getD 0) rest ?_ fresh
      rw [changedOwner, foundOwner]
      rfl
  · intro n notNew
    cases n with
    | binding owner index => rfl
    | item k =>
      have fresh : k ≠ f.nodes.size := fun same => notNew (congrArg Node.item same)
      refine read_eq_of_ne (fun record => (record.map (·.content.kind)).getD .text) rest ?_ fresh
      simp only [changedOwner, foundOwner, Option.map_some, content, Content.kind]

theorem sameLabels_setAttribute {owner id : Nat} {name : NodeName} {value : String}
    (put : f.setAttribute? owner name value = some (g, id)) : f.SameLabels g := by
  obtain ⟨data, record, rfl, foundOwner, -, -, changedOwner, new, rest, -, trees⟩ := records_setAttribute put
  have none : f.record? f.nodes.size = none := record?_eq_none le_rfl
  refine ⟨read_eq (·.bind NodeRecord.tree) rest ?_ ?_, read_eq (·.bind NodeRecord.position) rest ?_ ?_, trees⟩
  · rw [changedOwner, foundOwner]
    rfl
  · rw [new, none]
    rfl
  · rw [changedOwner, foundOwner]
    rfl
  · rw [new, none]
    rfl

end Forest

end XPathAnnotator
