/-
**Scopes that are remembered.**

The namespaces in scope of an element are determined by the declarations on the way to the root: those of its parent
element, with its own added and with the empty ones taken out. They are remembered when they are read, for the element
and for those around it, and read from there later on. A forest is faithful while what its elements remember is what
is determined now. Making nodes and reading keep that; appending a tree keeps it exactly as long as it leaves alone what
is determined for those of its elements that remember their scope.

* `Forest.inScope` — what is determined for an element, with `lookup_inScope`;
* `Forest.Faithful` — what is remembered is what is determined, so what is read is too: `Faithful.scope_eq`;
* `Faithful.create`, `Faithful.rememberScope`, `Faithful.append` — the steps;
* `Recalled` — what reading leaves as it was, and which elements remember their scope afterwards.
-/

import Mathlib
import XPathAnnotator.Proofs.Tree.Above
import XPathAnnotator.Proofs.Tree.Scoping

namespace XPathAnnotator

/-- The namespaces in scope where declarations stand inside one another, the innermost first. -/
def NamespaceMap.gather (lineage : List NamespaceMap) : NamespaceMap :=
  lineage.foldr (fun declarations outer => NamespaceMap.extend outer declarations) []

/-- **A qualifier in scope has the URI of its nearest declaration**, unless that is empty. -/
theorem NamespaceMap.lookup_gather {lineage : List NamespaceMap}
    (distinct : ∀ declarations ∈ lineage, HasDistinctKeys declarations) (qualifier : String) :
    (gather lineage).lookup qualifier = filled? (nearest? lineage qualifier) := by
  induction lineage with
  | nil => rfl
  | cons declarations lineage ih =>
    have inner : gather (declarations :: lineage) = (gather lineage).extend declarations := rfl
    rw [inner, lookup_extend (distinct declarations List.mem_cons_self), nearest?, List.findSome?_cons]
    cases declarations.lookup qualifier with
    | some uri => rfl
    | none => exact ih fun others member => distinct others (List.mem_cons_of_mem _ member)

namespace Forest

variable {f g : Forest} {n m : Node} {id p c : Nat} {data : ElementData}

/-! ### What is determined -/

/-- The namespaces that the declarations on the way from a node to the root determine. -/
def inScope (f : Forest) (n : Node) : NamespaceMap := NamespaceMap.gather ((f.lineage n).map f.declarations)

theorem inScope_of_top (top : f.parent? n = none) :
    f.inScope n = NamespaceMap.extend [] (f.declarations n) := by
  rw [inScope, lineage, ancestors_eq_nil top]
  rfl

/-- **What is inherited**, with the declarations of the node itself. -/
theorem inScope_of_parent (linked : f.Linked) (parent : f.parent? n = some p) :
    f.inScope n = (f.inScope (.item p)).extend (f.declarations n) := by
  rw [inScope, linked.lineage_eq parent]
  rfl

theorem Linked.mem_lineage (linked : f.Linked) : m ∈ f.lineage n ↔ f.Covers m n := by
  rw [lineage, List.mem_cons, linked.mem_ancestors, Covers, eq_comm]

/-- What is determined is the same where the same nodes with the same declarations are above. -/
theorem inScope_congr (linked : f.Linked) (linkedG : g.Linked)
    (parents : ∀ m, f.Covers m n → g.parent? m = f.parent? m)
    (declared : ∀ m, f.Covers m n → g.declarations m = f.declarations m) : g.inScope n = f.inScope n := by
  refine linked.climb (P := fun n => (∀ m, f.Covers m n → g.parent? m = f.parent? m) →
    (∀ m, f.Covers m n → g.declarations m = f.declarations m) → g.inScope n = f.inScope n)
    (fun n ih parents declared => ?_) n parents declared
  have here := parents n (covers_self n)
  cases parent : f.parent? n with
  | none => rw [inScope_of_top parent, inScope_of_top (here.trans parent), declared n (covers_self n)]
  | some p =>
    have above : f.Covers (.item p) n := .of_parent parent (covers_self _)
    rw [inScope_of_parent linked parent, inScope_of_parent linkedG (here.trans parent), declared n (covers_self n),
      ih p parent (fun m covers => parents m (covers.trans above)) fun m covers => declared m (covers.trans above)]

theorem lookup_inScope (distinct : ∀ m, HasDistinctKeys (f.declarations m)) (n : Node) (qualifier : String) :
    (f.inScope n).lookup qualifier = filled? (nearest? ((f.lineage n).map f.declarations) qualifier) := by
  refine NamespaceMap.lookup_gather (fun declarations member => ?_) qualifier
  obtain ⟨m, -, rfl⟩ := List.mem_map.mp member
  exact distinct m

/-! ### Elements and their records -/

/-- What an element holds, read off a content. -/
def elementOf? : Content → Option ElementData
  | .element data => some data
  | _ => none

theorem element?_eq (id : Nat) : f.element? id = (f.record? id).bind fun record => elementOf? record.content := by
  unfold element?
  cases f.record? id with
  | none => rfl
  | some record =>
    obtain ⟨content, parent, index, tree, position⟩ := record
    cases content <;> rfl

theorem exists_record_of_element? (found : f.element? id = some data) :
    ∃ parent index tree position, f.record? id = some ⟨.element data, parent, index, tree, position⟩ := by
  unfold element? at found
  split at found
  next same =>
    obtain rfl := Option.some.inj found
    exact ⟨_, _, _, _, same⟩
  next => cases found

theorem isElement_iff_exists : f.isElement (.item id) = true ↔ ∃ data, f.element? id = some data := by
  rw [isElement, beq_iff_eq, element?_eq]
  show ((f.record? id).map fun record => record.content.kind).getD .text = .element ↔ _
  cases f.record? id with
  | none => exact iff_of_false (by decide) fun ⟨data, found⟩ => Option.some_ne_none data found.symm
  | some record =>
    obtain ⟨content, parent, index, tree, position⟩ := record
    cases content <;> simp [Content.kind, elementOf?]

theorem declarations_item (id : Nat) :
    f.declarations (.item id) = ((f.element? id).map ElementData.declarations).getD [] := by
  have content : f.content? (.item id) = (f.record? id).map NodeRecord.content := rfl
  rw [element?_eq, declarations, content]
  cases f.record? id with
  | none => rfl
  | some record =>
    obtain ⟨content, parent, index, tree, position⟩ := record
    cases content <;> rfl

theorem declarations_of_element? (found : f.element? id = some data) :
    f.declarations (.item id) = data.declarations := by
  rw [declarations_item, found]
  rfl

/-- Whether an element remembers the namespaces in scope. -/
def Remembers (f : Forest) (id : Nat) (scope : NamespaceMap) : Prop :=
  ∃ data, f.element? id = some data ∧ data.scope = some scope

/-! ### Faithful forests -/

/-- A forest in which only elements have nodes below them, and **what an element remembers is what the declarations
above it determine**. -/
structure Faithful (f : Forest) : Prop where
  linked : f.Linked
  hosted : ∀ id p, f.parent? (.item id) = some p → f.isElement (.item p) = true
  current : ∀ id scope, f.Remembers id scope → scope = f.inScope (.item id)

namespace Faithful

theorem scopeWithin_eq (faithful : f.Faithful) {fuel : Nat} (element : f.isElement (.item id) = true)
    (enough : (f.lineage (.item id)).length ≤ fuel) : f.scopeWithin fuel id = f.inScope (.item id) := by
  induction fuel generalizing id with
  | zero => exact absurd enough (Nat.not_succ_le_zero _)
  | succ fuel ih =>
    obtain ⟨data, found⟩ := isElement_iff_exists.mp element
    obtain ⟨parent, index, tree, position, record⟩ := exists_record_of_element? found
    have above : f.parent? (.item id) = parent := by
      rw [parent?, record]
      rfl
    rw [scopeWithin, record]
    dsimp only
    cases remembered : data.scope with
    | some scope => exact faithful.current id scope ⟨data, found, remembered⟩
    | none =>
      cases parent with
      | none => rw [inScope_of_top above, declarations_of_element? found]
      | some p =>
        rw [faithful.linked.lineage_eq above, List.length_cons] at enough
        rw [inScope_of_parent faithful.linked above, declarations_of_element? found]
        exact congrArg (NamespaceMap.extend · data.declarations)
          (ih (faithful.hosted id p above) (Nat.le_of_succ_le_succ enough))

/-- **What is read on an element** is what is determined for it. -/
theorem scope_eq (faithful : f.Faithful) (element : f.isElement (.item id) = true) :
    f.scope id = f.inScope (.item id) := by
  refine faithful.scopeWithin_eq element ?_
  obtain ⟨data, found⟩ := isElement_iff_exists.mp element
  obtain ⟨_, _, _, _, record⟩ := exists_record_of_element? found
  have inside : id < f.nodes.size := (Array.getElem?_eq_some_iff.mp record).1
  have short := faithful.linked.length_ancestorsWithin_lt inside (f.nodes.size + 1)
  rw [lineage, List.length_cons, ancestors]
  omega

end Faithful

theorem faithful_empty : empty.Faithful := by
  have none : ∀ k, empty.record? k = none := fun k => Array.getElem?_eq_none (Nat.zero_le k)
  refine ⟨linked_empty, fun id p parent => ?_, ?_⟩
  · simp [parent?, none] at parent
  · rintro id scope ⟨data, found, -⟩
    simp [element?, none] at found

/-! ### Making nodes -/

/-- What is determined is the same where parents and declarations are the same. -/
theorem inScope_eq_of_parents (linked : f.Linked) (linkedG : g.Linked) (parents : ∀ m, g.parent? m = f.parent? m)
    (declared : ∀ m, g.declarations m = f.declarations m) (n : Node) : g.inScope n = f.inScope n :=
  inScope_congr linked linkedG (fun m _ => parents m) fun m _ => declared m

theorem element?_create (content : Content) (k : Nat) : (f.create content).1.element? k =
    if k = f.nodes.size then elementOf? content else f.element? k := by
  rw [element?_eq, element?_eq, record?_create]
  split <;> rfl

theorem declarations_create (content : Content) (other : n ≠ .item f.nodes.size) :
    (f.create content).1.declarations n = f.declarations n := by
  cases n with
  | binding owner index => simp [declarations, content?]
  | item k =>
    rw [declarations_item, declarations_item, element?_create, if_neg fun same => other (congrArg Node.item same)]

/-- **Making a node** that holds no others and remembers nothing. -/
theorem Faithful.create (faithful : f.Faithful) {content : Content} (bare : content.IsBare)
    (fresh : ∀ data, elementOf? content = some data → data.scope = none) : (f.create content).1.Faithful := by
  have alike : f.Alike (f.create content).1 := alike_create bare
  have linked := alike.linked faithful.linked
  refine ⟨linked, fun id p parent => ?_, ?_⟩
  · rw [alike.parent?] at parent
    obtain ⟨data, found⟩ := isElement_iff_exists.mp (faithful.hosted id p parent)
    have old : p ≠ f.nodes.size := Nat.ne_of_lt (faithful.linked.parent_lt_size parent)
    exact isElement_iff_exists.mpr ⟨data, by rw [element?_create, if_neg old, found]⟩
  · rintro id scope ⟨data, found, remembered⟩
    rw [element?_create] at found
    split at found
    next => exact absurd ((fresh data found).symm.trans remembered) (Option.some_ne_none scope).symm
    next =>
      rw [faithful.current id scope ⟨data, found, remembered⟩]
      obtain ⟨_, _, _, _, record⟩ := exists_record_of_element? found
      have inside : f.Has (.item id) := (Array.getElem?_eq_some_iff.mp record).1
      refine (inScope_congr faithful.linked linked (fun m _ => alike.parent? m) fun m covers => ?_).symm
      refine declarations_create content ?_
      rintro rfl
      exact absurd (covers.has faithful.linked inside) (Nat.lt_irrefl _)

/-! ### Reading -/

section Reading

variable {change : ElementData → ElementData}

theorem element?_updateElement (change : ElementData → ElementData) (k : Nat) :
    (f.updateElement id change).element? k = if id = k then (f.element? k).map change else f.element? k := by
  rw [element?_eq, element?_eq, updateElement, record?_update]
  split
  · cases f.record? k with
    | none => rfl
    | some record =>
      obtain ⟨content, parent, index, tree, position⟩ := record
      cases content <;> rfl
  · rfl

theorem declarations_updateElement (same : ∀ data, (change data).declarations = data.declarations) (n : Node) :
    (f.updateElement id change).declarations n = f.declarations n := by
  cases n with
  | binding owner index => simp [declarations, content?]
  | item k =>
    rw [declarations_item, declarations_item, element?_updateElement]
    split
    · cases f.element? k with
      | none => rfl
      | some data => exact same data
    · rfl

end Reading

theorem Covers.of_parents (parents : ∀ m, g.parent? m = f.parent? m) (covers : g.Covers m n) : f.Covers m n := by
  rcases covers with rfl | above
  · exact covers_self n
  · induction above with
    | parent parent => exact .inr (.parent ((parents _).symm.trans parent))
    | higher parent _ ih => exact ih.of_parent ((parents _).symm.trans parent)

/-- What reading changes: an element and those around it may remember their scopes, and nothing else. -/
structure Recalled (f g : Forest) (n : Node) : Prop where
  faithful : g.Faithful
  parent? : ∀ m, g.parent? m = f.parent? m
  declarations : ∀ m, g.declarations m = f.declarations m
  isElement : ∀ k, g.isElement (.item k) = f.isElement (.item k)
  remembers : ∀ k scope, g.Remembers k scope → (∃ old, f.Remembers k old) ∨ f.Covers (.item k) n

theorem Faithful.recalled (faithful : f.Faithful) (n : Node) : f.Recalled f n :=
  ⟨faithful, fun _ => rfl, fun _ => rfl, fun _ => rfl, fun _ scope remembers => .inl ⟨scope, remembers⟩⟩

theorem Recalled.inScope (recalled : f.Recalled g m) (linked : f.Linked) (n : Node) : g.inScope n = f.inScope n :=
  inScope_eq_of_parents linked recalled.faithful.linked recalled.parent? recalled.declarations n

/-- Reading an element, and then its parent. -/
theorem Recalled.climb {h : Forest} (first : f.Recalled g n) (parent : f.parent? n = some p)
    (second : g.Recalled h (.item p)) : f.Recalled h n where
  faithful := second.faithful
  parent? m := (second.parent? m).trans (first.parent? m)
  declarations m := (second.declarations m).trans (first.declarations m)
  isElement k := (second.isElement k).trans (first.isElement k)
  remembers k scope remembers := by
    rcases second.remembers k scope remembers with ⟨old, before⟩ | covers
    · exact first.remembers k old before
    · exact .inr ((covers.of_parents first.parent?).of_parent parent)

/-- **An element remembers its scope.** -/
theorem Faithful.remember (faithful : f.Faithful) (element : f.isElement (.item id) = true) :
    f.Recalled (f.updateElement id fun data => { data with scope := some (f.scope id) }) (.item id) := by
  have alike : f.Alike (f.updateElement id fun data => { data with scope := some (f.scope id) }) :=
    alike_updateElement (fun _ => rfl) fun _ => rfl
  have declared : ∀ n, (f.updateElement id fun data => { data with scope := some (f.scope id) }).declarations n =
      f.declarations n := declarations_updateElement fun _ => rfl
  have linked := alike.linked faithful.linked
  have elements : ∀ k, (f.updateElement id fun data => { data with scope := some (f.scope id) }).isElement (.item k) =
      f.isElement (.item k) := by
    intro k
    rw [Bool.eq_iff_iff, isElement_iff_exists, isElement_iff_exists, element?_updateElement]
    split
    · simp only [Option.map_eq_some_iff, ↓existsAndEq, and_true]
    · rfl
  refine ⟨⟨linked, fun k p parent => ?_, ?_⟩, alike.parent?, declared, elements, ?_⟩
  · rw [alike.parent?] at parent
    exact (elements p).trans (faithful.hosted k p parent)
  · rintro k scope ⟨data, found, remembered⟩
    rw [element?_updateElement] at found
    rw [inScope_eq_of_parents faithful.linked linked alike.parent? declared]
    split at found
    next here =>
      subst here
      obtain ⟨old, -, rfl⟩ := Option.map_eq_some_iff.mp found
      rw [← Option.some.inj remembered]
      exact faithful.scope_eq element
    next => exact faithful.current k scope ⟨data, found, remembered⟩
  · rintro k scope ⟨data, found, remembered⟩
    rw [element?_updateElement] at found
    split at found
    next here =>
      subst here
      exact .inr (covers_self _)
    next => exact .inl ⟨scope, data, found, remembered⟩

theorem Faithful.rememberWithin (faithful : f.Faithful) (fuel id : Nat) :
    f.Recalled (f.rememberWithin fuel id) (.item id) := by
  induction fuel generalizing f id with
  | zero => exact faithful.recalled _
  | succ fuel ih =>
    unfold Forest.rememberWithin
    split
    next data parent index tree position record =>
      split
      · exact faithful.recalled _
      · have element : f.isElement (.item id) = true := by
          rw [isElement_iff_exists, element?_eq, record]
          exact ⟨data, rfl⟩
        have first := faithful.remember element
        dsimp only
        cases parent with
        | none => exact first
        | some p =>
          have above : f.parent? (.item id) = some p := by
            rw [Forest.parent?, record]
            rfl
          exact first.climb above (ih first.faithful p)
    · exact faithful.recalled _

/-- **Reading the scope of an element** keeps a forest faithful. -/
theorem Faithful.rememberScope (faithful : f.Faithful) (id : Nat) : f.Recalled (f.rememberScope id) (.item id) :=
  faithful.rememberWithin _ id

/-! ### Appending -/

section Append

variable (appended : f.append? p (.item c) = some g) (other : p ≠ c) (inside : c < f.nodes.size)

include appended other inside

/-- Appending changes no declarations and nothing that is remembered. -/
theorem elementOf?_append (k : Nat) :
    (g.element? k).map (fun data => (data.declarations, data.scope)) =
      (f.element? k).map fun data => (data.declarations, data.scope) := by
  obtain ⟨record, more, child, foundP, added, foundC, changedP, changedC, rest, -, -⟩ :=
    records_append appended other inside
  rw [element?_eq, element?_eq]
  refine read_eq (fun record => (record.bind fun record => elementOf? record.content).map
    fun data => (data.declarations, data.scope)) rest ?_ ?_ k
  · rw [changedP, foundP]
    obtain ⟨content, parent, index, tree, position⟩ := record
    cases content with
    | document uri children =>
      obtain rfl := Option.some.inj added
      rfl
    | element data =>
      obtain rfl := Option.some.inj added
      rfl
    | _ => exact absurd added.symm (Option.some_ne_none _)
  · rw [changedC, foundC]
    rfl

theorem declarations_append (n : Node) : g.declarations n = f.declarations n := by
  cases n with
  | binding owner index => simp [declarations, content?]
  | item k =>
    have same := congrArg (Option.map Prod.fst) (elementOf?_append appended other inside k)
    rw [Option.map_map, Option.map_map] at same
    rw [declarations_item, declarations_item]
    exact congrArg (Option.getD · []) same

theorem remembers_append {k : Nat} {scope : NamespaceMap} : g.Remembers k scope ↔ f.Remembers k scope := by
  have read (h : Forest) : h.Remembers k scope ↔
      ∃ declarations, (h.element? k).map (fun data => (data.declarations, data.scope)) =
        some (declarations, some scope) := by
    constructor
    · rintro ⟨data, found, remembered⟩
      exact ⟨data.declarations, by rw [found, Option.map_some, remembered]⟩
    · rintro ⟨declarations, same⟩
      obtain ⟨data, found, same⟩ := Option.map_eq_some_iff.mp same
      exact ⟨data, found, (Prod.mk.inj same).2⟩
  rw [read, read, elementOf?_append appended other inside]

end Append

/-- **Appending a tree** keeps a forest faithful if it leaves alone what is determined for those elements of the tree
that remember their scope. -/
theorem Faithful.append (faithful : f.Faithful) (inside : c < f.nodes.size) (host : f.isElement (.item p) = true)
    (top : f.parent? (.item c) = none) (away : Node.item c ∉ f.lineage (.item p))
    (appended : f.append? p (.item c) = some g)
    (kept : ∀ k scope, f.Remembers k scope → f.Covers (.item c) (.item k) →
      g.inScope (.item k) = f.inScope (.item k)) : g.Faithful := by
  have other : p ≠ c := by
    rintro rfl
    exact away List.mem_cons_self
  have apart : f.root (.item p) ≠ .item c := fun same =>
    away (same ▸ faithful.linked.root_mem_lineage (.item p))
  have attached : f.Attached g p c := attached_append inside top apart appended
  have linked := attached.linked faithful.linked
  have elements : ∀ k, g.isElement (.item k) = f.isElement (.item k) := by
    intro k
    rw [isElement, isElement, kind_append appended other inside]
  refine ⟨linked, fun id q parent => ?_, fun k scope remembers => ?_⟩
  · rw [elements]
    by_cases new : Node.item id = .item c
    · rw [new, attached.parent_new] at parent
      obtain rfl := Option.some.inj parent
      exact host
    · exact faithful.hosted id q ((attached.parent_old new).symm.trans parent)
  · rw [remembers_append appended other inside] at remembers
    rw [faithful.current k scope remembers]
    by_cases under : f.Covers (.item c) (.item k)
    · exact (kept k scope remembers under).symm
    · refine (inScope_congr faithful.linked linked (fun m covers => ?_)
        fun m _ => declarations_append appended other inside m).symm
      refine attached.parent_old ?_
      rintro rfl
      exact under covers

end Forest

end XPathAnnotator
