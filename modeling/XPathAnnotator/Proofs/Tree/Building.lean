/-
**Building trees.**

A document is turned into a tree node by node. Each node is made, appended to its parent and numbered; at any
time the tree is open at one node, where the next child comes behind all nodes that there are.

An element is added with the open elements on a stack. The same trees come out when an element is added by
recursion: first the element itself, then its text, and then each child with the text after it.

* `buildElement`, `buildChildren` — the recursion;
* `buildOpen_cons` — the stack goes on where the recursion returns;
* `buildWhole_eq` — adding an element with the stack is adding it by recursion;
* `Kept` — what building leaves alone: nodes stay where they are, only the parent gets more children;
* `Open` — an element or document whose next child gets the next number;
* `Added` — a node was made, appended and numbered;
* `buildElement_opened`, `buildChildren_open` — building keeps the place around it open;
* `built` — the forest with the tree of a document is linked and positioned.
-/

import Mathlib
import XPathAnnotator.Proofs.Tree.Positions
import XPathAnnotator.Tree.Build

namespace XPathAnnotator

open XPathAnnotator.Xml

/-! ### Building by recursion -/

namespace Forest

mutual

/-- Adds an element with all that it holds. -/
def buildElement (tree : Nat) (naming : Naming) (parent : Option Nat) (f : Forest) :
    Element → Forest × Nat
  | .mk tag declarations attributes text children =>
    let (f, id) := f.openElement tree naming parent tag declarations attributes
    (buildChildren tree naming id (f.addText tree id text) children, id)

/-- Adds the children of an element, each with the text after it. -/
def buildChildren (tree : Nat) (naming : Naming) (parent : Nat) (f : Forest) :
    List (Child × String) → Forest
  | [] => f
  | (.remark remark, tail) :: rest =>
    buildChildren tree naming parent ((f.addRemark tree naming parent remark).addText tree parent tail) rest
  | (.element e, tail) :: rest =>
    buildChildren tree naming parent
      ((buildElement tree naming (some parent) f e).1.addText tree parent tail) rest

end

variable {tree : Nat} {naming : Naming}

/-- What is left to do when the children of an open element have been added: the text after it goes to the
element around it, if there is one. -/
def leave (tree : Nat) (tail : String) (outer : List Frame) (f : Forest) : Forest :=
  match outer with
  | [] => f
  | around :: _ => f.addText tree around.node tail

theorem buildOpen_nil (f : Forest) : buildOpen tree naming f [] = f := by
  rw [buildOpen]

theorem buildOpen_step (f : Forest) (frame : Frame) (outer : List Frame) :
    buildOpen tree naming f (frame :: outer) =
      buildOpen tree naming (buildStep tree naming f frame outer).1 (buildStep tree naming f frame outer).2 := by
  rw [buildOpen]

theorem buildOpen_leave (f : Forest) (id : Nat) (tail : String) (outer : List Frame) :
    buildOpen tree naming f (⟨id, [], tail⟩ :: outer) = buildOpen tree naming (leave tree tail outer f) outer := by
  rw [buildOpen_step]
  cases outer <;> rfl

mutual

/-- **The stack goes on where the recursion returns**: when the children of the innermost open element have been
added, that element is left. -/
theorem buildOpen_cons (id : Nat) (tail : String) (outer : List Frame) :
    (rest : List (Child × String)) → (f : Forest) →
      buildOpen tree naming f (⟨id, rest, tail⟩ :: outer) =
        buildOpen tree naming (leave tree tail outer (buildChildren tree naming id f rest)) outer
  | [], f => by
    rw [buildChildren]
    exact buildOpen_leave f id tail outer
  | (.remark remark, after) :: rest, f => by
    rw [buildOpen_step, buildChildren]
    exact buildOpen_cons id tail outer rest _
  | (.element e, after) :: rest, f => by
    rw [buildOpen_element id tail outer e after rest f, buildChildren]
    exact buildOpen_cons id tail outer rest _

/-- An element among the children is added as a whole, with the text after it. -/
theorem buildOpen_element (id : Nat) (tail : String) (outer : List Frame) :
    (e : Element) → (after : String) → (rest : List (Child × String)) → (f : Forest) →
      buildOpen tree naming f (⟨id, (.element e, after) :: rest, tail⟩ :: outer) =
        buildOpen tree naming ((buildElement tree naming (some id) f e).1.addText tree id after)
          (⟨id, rest, tail⟩ :: outer)
  | .mk tag declarations attributes text children, after, rest, f => by
    rw [buildOpen_step]
    show buildOpen tree naming _ (⟨_, children, after⟩ :: ⟨id, rest, tail⟩ :: outer) = _
    rw [buildOpen_cons _ after (⟨id, rest, tail⟩ :: outer) children, buildElement]
    rfl

end

/-- **Adding an element with the stack is adding it by recursion.** -/
theorem buildWhole_eq (f : Forest) (parent : Option Nat) (e : Element) :
    f.buildWhole tree naming parent e = buildElement tree naming parent f e := by
  obtain ⟨tag, declarations, attributes, text, children⟩ := e
  unfold buildWhole
  dsimp only
  rw [buildOpen_cons, buildOpen_nil, buildElement]
  rfl

theorem buildRoot_eq (f : Forest) (uri : Option String) (root : Element) :
    f.buildRoot naming uri root = buildElement f.trees.size naming none (f.plant uri).1 root := by
  unfold buildRoot plant
  exact buildWhole_eq _ _ _

end Forest

/-! ### Open trees -/

namespace Forest

/-- What is left alone when children are added to a node: the nodes stay where they are, no other node gets
children, and the new nodes are genuine. -/
structure Kept (f g : Forest) (parent : Option Nat) : Prop where
  size : f.nodes.size ≤ g.nodes.size
  root : ∀ k < f.nodes.size, g.root (.item k) = f.root (.item k)
  address : ∀ k < f.nodes.size, g.address (.item k) = f.address (.item k)
  kind : ∀ k < f.nodes.size, g.kind (.item k) = f.kind (.item k)
  listed : ∀ k < f.nodes.size, g.listed (.item k) = f.listed (.item k)
  children : ∀ k < f.nodes.size, parent ≠ some k → g.children (.item k) = f.children (.item k)
  fresh : ∀ k, f.nodes.size ≤ k → k < g.nodes.size → g.Genuine (.item k)

/-- The tree `T` is open at an element or document: its next child comes behind all nodes of the tree. -/
structure Open (f : Forest) (T p : Nat) : Prop where
  inside : p < f.nodes.size
  kind : f.kind (.item p) = .element ∨ f.kind (.item p) = .document
  growing : f.Growing T (f.root (.item p)) (f.address (.item p) ++ [2, (f.children (.item p)).size])

/-- Where a node can be added: to a node at which the tree is open, or as the root of a tree without nodes. -/
def Ready (f : Forest) (T : Nat) : Option Nat → Prop
  | some p => f.Open T p
  | none => ∀ r, f.Growing T r []

/-- The forest `g` is `f` with a node of a content added to a parent and numbered in the tree `T`. -/
structure Added (f g : Forest) (T : Nat) (parent : Option Nat) (content : Content) : Prop where
  kept : f.Kept g parent
  size : g.nodes.size = f.nodes.size + 1
  growing : g.Growing T (g.root (.item f.nodes.size)) (g.address (.item f.nodes.size) ++ [1, 0])
  kind : g.kind (.item f.nodes.size) = content.kind
  children : g.children (.item f.nodes.size) = #[]
  attributes : g.attributes (.item f.nodes.size) = #[]
  under : ∀ p, parent = some p → g.root (.item f.nodes.size) = f.root (.item p) ∧
    g.address (.item f.nodes.size) = f.address (.item p) ++ [2, (f.children (.item p)).size] ∧
    (g.children (.item p)).size = (f.children (.item p)).size + 1
  alone : parent = none → g.root (.item f.nodes.size) = .item f.nodes.size

variable {f g h : Forest} {T : Nat}

/-! ### What is kept -/

namespace Kept

variable {parent : Option Nat}

theorem refl (f : Forest) (parent : Option Nat) : f.Kept f parent where
  size := le_rfl
  root _ _ := rfl
  address _ _ := rfl
  kind _ _ := rfl
  listed _ _ := rfl
  children _ _ _ := rfl
  fresh _ new inside := absurd inside (Nat.not_lt_of_le new)

theorem genuine (kept : f.Kept g parent) {k : Nat} (inside : k < f.nodes.size)
    (genuine : f.Genuine (.item k)) : g.Genuine (.item k) := by
  intro like
  rw [kept.kind k inside] at like
  rw [kept.listed k inside]
  exact genuine like

/-- Two steps keep what both keep: the second one may add children to a node that the first one has made. -/
theorem trans {other : Option Nat} (first : f.Kept g parent) (second : g.Kept h other)
    (within : ∀ k < f.nodes.size, other = some k → parent = some k) : f.Kept h parent where
  size := first.size.trans second.size
  root k inside := (second.root k (inside.trans_le first.size)).trans (first.root k inside)
  address k inside := (second.address k (inside.trans_le first.size)).trans (first.address k inside)
  kind k inside := (second.kind k (inside.trans_le first.size)).trans (first.kind k inside)
  listed k inside := (second.listed k (inside.trans_le first.size)).trans (first.listed k inside)
  children k inside apart := by
    have apartToo : other ≠ some k := fun same => apart (within k inside same)
    exact (second.children k (inside.trans_le first.size) apartToo).trans (first.children k inside apart)
  fresh k new inside := by
    by_cases made : k < g.nodes.size
    · exact second.genuine made (first.fresh k new made)
    · exact second.fresh k (Nat.le_of_not_lt made) inside

end Kept

/-- A change that moves nothing and makes no node keeps everything. -/
theorem Alike.kept (alike : f.Alike g) (linked : f.Linked) (size : g.nodes.size = f.nodes.size)
    (parent : Option Nat) : f.Kept g parent where
  size := size.ge
  root k _ := alike.root linked (.item k)
  address k _ := alike.address linked (.item k)
  kind k inside := alike.kind k inside
  listed k _ := alike.listed (.item k)
  children k _ _ := alike.children (.item k)
  fresh k new inside := by
    rw [size] at inside
    exact absurd inside (Nat.not_lt_of_le new)

theorem Linked.root_ne_of_lt (linked : f.Linked) {k c : Nat} (inside : k < f.nodes.size)
    (beyond : f.nodes.size ≤ c) : f.root (.item k) ≠ .item c := by
  intro same
  have known : f.Has (.item k) := inside
  have below := known.root linked
  rw [same] at below
  exact absurd below (Nat.not_lt_of_le beyond)

theorem parent?_beyond {k : Nat} (beyond : f.nodes.size ≤ k) : f.parent? (.item k) = none := by
  show (f.record? k).bind NodeRecord.parent = none
  rw [record?_eq_none beyond]
  rfl

/-- One new node besides those that were there. -/
theorem genuine_of_size {k : Nat} (size : g.nodes.size = f.nodes.size + 1)
    (genuine : g.Genuine (.item f.nodes.size)) (beyond : f.nodes.size ≤ k) (inside : k < g.nodes.size) :
    g.Genuine (.item k) := by
  rw [size] at inside
  obtain rfl : k = f.nodes.size := by omega
  exact genuine

/-- Attaching a new node keeps the others. -/
theorem Attached.kept {p : Nat} {parent : Option Nat} (attached : f.Attached g p f.nodes.size)
    (linked : f.Linked) (size : g.nodes.size = f.nodes.size + 1) (genuine : g.Genuine (.item f.nodes.size))
    (children : ∀ k < f.nodes.size, parent ≠ some k → g.children (.item k) = f.children (.item k)) :
    f.Kept g parent := by
  have other : ∀ {k}, k < f.nodes.size → Node.item k ≠ .item f.nodes.size := by
    intro k below same
    exact Nat.ne_of_lt below (Node.item.inj same)
  have outside : ∀ {k}, k < f.nodes.size → f.root (.item k) ≠ .item f.nodes.size :=
    fun below => linked.root_ne_of_lt below le_rfl
  refine ⟨?_, ?_, ?_, ?_, ?_, children, fun k beyond inside => genuine_of_size size genuine beyond inside⟩
  · rw [size]
    exact Nat.le_succ _
  · exact fun k below => (attached.outside linked (outside below)).1
  · exact fun k below => (attached.outside linked (outside below)).2
  · exact fun k below => attached.kind _ (other below)
  · exact fun k below => attached.listed_old (other below)

/-- **The next node of a growing tree**: one that was attached at the limit and then numbered. -/
theorem Growing.attach {p : Nat} {limit further : List Nat}
    (growing : f.Growing T (f.root (.item p)) limit) (parent : Option Nat) (attached : f.Attached g p f.nodes.size)
    (labels : f.SameLabels g) (size : g.nodes.size = f.nodes.size + 1)
    (address : f.address (.item p) ++ g.spot (.item f.nodes.size) = limit) (more : limit < further)
    (genuine : g.Genuine (.item f.nodes.size))
    (children : ∀ k < f.nodes.size, parent ≠ some k → g.children (.item k) = f.children (.item k)) :
    (g.place T f.nodes.size).Growing T (f.root (.item p)) further ∧ f.Kept (g.place T f.nodes.size) parent ∧
      (g.place T f.nodes.size).root (.item f.nodes.size) = f.root (.item p) ∧
      (g.place T f.nodes.size).address (.item f.nodes.size) = limit := by
  have grown : g.Growing T (f.root (.item p)) limit := growing.attached attached labels attached.apart
  have root : g.root (.item f.nodes.size) = f.root (.item p) := attached.root_new growing.linked
  have reached : g.address (.item f.nodes.size) = limit := by
    rw [attached.address_new growing.linked, address]
  have inside : f.nodes.size < g.nodes.size := by
    rw [size]
    exact Nat.lt_succ_self _
  have still : g.Alike (g.place T f.nodes.size) := alike_place
  have kept : f.Kept g parent := attached.kept growing.linked size genuine children
  refine ⟨grown.place inside root reached more, ?_, ?_, ?_⟩
  · exact kept.trans (still.kept grown.linked size_place parent) fun _ _ same => same
  · rw [still.root grown.linked, root]
  · rw [still.address grown.linked, reached]

/-! ### Adding a node -/

theorem kind_create (content : Content) :
    (f.create content).1.kind (.item f.nodes.size) = content.kind := by
  unfold Forest.kind
  simp only [record?_create, if_true, Option.map_some, Option.getD_some]

theorem kind_create_other {content : Content} {n : Node} (other : n ≠ .item f.nodes.size) :
    (f.create content).1.kind n = f.kind n := by
  cases n with
  | binding owner index => rfl
  | item k =>
    unfold Forest.kind
    simp only [record?_create, if_neg fun same => other (congrArg Node.item same)]

/-- Making a node and then attaching it is attaching a new node. -/
theorem Attached.of_create {content : Content} (bare : content.IsBare) {p : Nat} (linked : f.Linked)
    (attached : (f.create content).1.Attached g p f.nodes.size) : f.Attached g p f.nodes.size := by
  have alike : f.Alike (f.create content).1 := alike_create bare
  refine ⟨parent?_beyond le_rfl, ?_, fun n => ?_, fun n other => ?_, fun n other => ?_, ?_⟩
  · rw [← alike.root linked]
    exact attached.apart
  · rw [attached.parent?, alike.parent?]
  · rw [attached.index n other, alike.index]
  · rw [attached.kind n other, kind_create_other other]
  · refine attached.held.imp (fun joined => ⟨?_, fun n => ?_, fun n => ?_⟩)
      fun endowed => ⟨?_, endowed.kind, fun n => ?_, fun n => ?_⟩
    · rw [joined.index, alike.children]
    · rw [joined.children, alike.children]
    · rw [joined.attributes, alike.attributes]
    · rw [endowed.index, alike.attributes]
    · rw [endowed.children, alike.children]
    · rw [endowed.attributes, alike.attributes]

theorem children_beyond {k : Nat} (beyond : f.nodes.size ≤ k) : f.children (.item k) = #[] := by
  show ((f.record? k).map fun record => record.content.children).getD #[] = #[]
  rw [record?_eq_none beyond]
  rfl

theorem attributes_beyond {k : Nat} (beyond : f.nodes.size ≤ k) : f.attributes (.item k) = #[] := by
  rw [attributes_item, record?_eq_none beyond]
  rfl

/-- Nodes that are no attributes of any kind are genuine. -/
theorem genuine_of_kind {k : Nat} {kind : NodeKind} (same : f.kind (.item k) = kind)
    (plain : kind.isAttributeLike = false) : f.Genuine (.item k) := by
  intro like
  rw [same, plain] at like
  exact absurd like Bool.false_ne_true

/-- Appending works on elements and documents. -/
theorem exists_append {p : Nat} (child : Node)
    (kind : f.kind (.item p) = .element ∨ f.kind (.item p) = .document) : ∃ g, f.append? p child = some g := by
  unfold append?
  cases found : f.record? p with
  | none => simp [Forest.kind, found] at kind
  | some record =>
    have grown : ∃ more, record.content.addChild? child = some more := by
      cases content : record.content with
      | document uri children => exact ⟨_, rfl⟩
      | element data => exact ⟨_, rfl⟩
      | _ => simp [Forest.kind, found, content, Content.kind] at kind
    obtain ⟨more, grown⟩ := grown
    simp only [grown]
    cases child with
    | item id => exact ⟨_, rfl⟩
    | binding owner index => exact ⟨_, rfl⟩

section Add

variable {content : Content} (bare : content.IsBare) (plain : content.kind.isAttributeLike = false)

include bare plain

theorem added_root (ready : f.Ready T none) : f.Added (f.addPlaced T none content).1 T none content := by
  have growing : f.Growing T (.item f.nodes.size) [] := ready _
  have alike : f.Alike (f.create content).1 := alike_create bare
  have grown := growing.alike alike (sameLabels_create content)
  have top : (f.create content).1.parent? (.item f.nodes.size) = none := by
    rw [alike.parent?]
    exact parent?_beyond le_rfl
  have inside : f.nodes.size < (f.create content).1.nodes.size := by
    rw [size_create]
    exact Nat.lt_succ_self _
  have placed : ((f.create content).1.place T f.nodes.size).Growing T (.item f.nodes.size) [1, 0] :=
    grown.place inside (root_eq_self top) (address_eq_nil top) (by decide)
  have still : (f.create content).1.Alike ((f.create content).1.place T f.nodes.size) := alike_place
  have whole : f.Alike ((f.create content).1.place T f.nodes.size) := alike.trans still
  have kind : ((f.create content).1.place T f.nodes.size).kind (.item f.nodes.size) = content.kind := by
    rw [still.kind _ inside, kind_create]
  have root : ((f.create content).1.place T f.nodes.size).root (.item f.nodes.size) = .item f.nodes.size := by
    rw [still.root grown.linked]
    exact root_eq_self top
  have address : ((f.create content).1.place T f.nodes.size).address (.item f.nodes.size) = [] := by
    rw [still.address grown.linked]
    exact address_eq_nil top
  have size : ((f.create content).1.place T f.nodes.size).nodes.size = f.nodes.size + 1 := by
    rw [size_place, size_create]
  show f.Added ((f.create content).1.place T f.nodes.size) T none content
  refine ⟨?_, size, ?_, kind, ?_, ?_, fun p same => absurd same.symm (Option.some_ne_none p), fun _ => root⟩
  · exact ⟨whole.size, fun k _ => whole.root growing.linked _, fun k _ => whole.address growing.linked _,
      whole.kind, fun k _ => whole.listed _, fun k _ _ => whole.children _,
      fun k beyond inside => genuine_of_size size (genuine_of_kind kind plain) beyond inside⟩
  · rw [root, address]
    exact placed
  · rw [whole.children, children_beyond le_rfl]
  · rw [whole.attributes, attributes_beyond le_rfl]

theorem added_child {p : Nat} (open_ : f.Open T p) :
    f.Added (f.addPlaced T (some p) content).1 T (some p) content := by
  obtain ⟨known, kind, growing⟩ := open_
  have alike : f.Alike (f.create content).1 := alike_create bare
  have inside : f.nodes.size < (f.create content).1.nodes.size := by
    rw [size_create]
    exact Nat.lt_succ_self _
  have top : (f.create content).1.parent? (.item f.nodes.size) = none := by
    rw [alike.parent?]
    exact parent?_beyond le_rfl
  have apart : (f.create content).1.root (.item p) ≠ .item f.nodes.size := by
    rw [alike.root growing.linked]
    exact growing.linked.root_ne_of_lt known le_rfl
  have other : p ≠ f.nodes.size := Nat.ne_of_lt known
  rw [← alike.kind p known] at kind
  obtain ⟨g, appended⟩ := exists_append (.item f.nodes.size) kind
  have result : (f.addPlaced T (some p) content).1 = g.place T f.nodes.size := by
    unfold addPlaced
    show Forest.place (((f.create content).1.append? p (.item f.nodes.size)).getD _) T f.nodes.size = _
    rw [appended]
    rfl
  have attached : f.Attached g p f.nodes.size :=
    (attached_append inside top apart appended).of_create bare growing.linked
  have joined : (f.create content).1.Joined g p f.nodes.size := joined_append appended other inside
  have labels : f.SameLabels g :=
    (sameLabels_create content).trans (sameLabels_append appended other inside)
  have size : g.nodes.size = f.nodes.size + 1 := by
    obtain ⟨-, -, -, -, -, -, -, -, -, size, -⟩ := records_append appended other inside
    rw [size, size_create]
  have insideG : f.nodes.size < g.nodes.size := by
    rw [size]
    exact Nat.lt_succ_self _
  have kindG : g.kind (.item f.nodes.size) = content.kind := by
    rw [kind_append appended other inside, kind_create]
  have reached : f.address (.item p) ++ g.spot (.item f.nodes.size) =
      f.address (.item p) ++ [2, (f.children (.item p)).size] := by
    rw [joined.spot_new (attached.linked growing.linked), alike.children]
  have apartChildren : ∀ k < f.nodes.size, some p ≠ some k → g.children (.item k) = f.children (.item k) := by
    intro k _ notHost
    rw [joined.children, if_neg fun same => notHost (congrArg some (Node.item.inj same).symm), alike.children]
  obtain ⟨placed, kept, root, address⟩ := growing.attach (some p) attached labels size reached
    (lt_append (s := [1, 0]) (List.cons_ne_nil _ _)) (genuine_of_kind kindG plain) apartChildren
  have still : g.Alike (g.place T f.nodes.size) := alike_place
  rw [result]
  refine ⟨kept, ?_, ?_, ?_, ?_, ?_, ?_, fun same => absurd same (Option.some_ne_none p)⟩
  · rw [size_place, size]
  · rw [root, address]
    exact placed
  · rw [still.kind _ insideG, kindG]
  · rw [still.children, joined.children, if_neg fun same => other (Node.item.inj same).symm, alike.children,
      children_beyond le_rfl]
  · rw [still.attributes, joined.attributes, alike.attributes, attributes_beyond le_rfl]
  · intro q same
    obtain rfl : p = q := Option.some.inj same
    refine ⟨root, address, ?_⟩
    rw [still.children, joined.children, if_pos rfl, Array.size_push, alike.children]

theorem added (parent : Option Nat) (ready : f.Ready T parent) :
    f.Added (f.addPlaced T parent content).1 T parent content := by
  cases parent with
  | none => exact added_root bare plain ready
  | some p => exact added_child bare plain ready

end Add

/-! ### Staying open -/

theorem pair_append_lt {l : List Nat} {x i j : Nat} {s : List Nat} (less : i < j) : l ++ [x, i] ++ s < l ++ [x, j] := by
  rw [List.append_assoc, append_left_lt_iff]
  show x :: i :: s < x :: j :: []
  exact List.cons_lt_cons_iff.mpr (.inr ⟨rfl, List.cons_lt_cons_iff.mpr (.inl less)⟩)

/-- A tree to which a child was added is open at its parent again. -/
theorem Open.of_added {p : Nat} {content : Content} (open_ : f.Open T p)
    (added : f.Added g T (some p) content) : g.Open T p where
  inside := open_.inside.trans_le added.kept.size
  kind := by
    rw [added.kept.kind p open_.inside]
    exact open_.kind
  growing := by
    obtain ⟨root, address, size⟩ := added.under p rfl
    have grown := added.growing
    rw [root, address] at grown
    rw [added.kept.root p open_.inside, added.kept.address p open_.inside, size]
    exact grown.mono (le_of_lt (pair_append_lt (Nat.lt_succ_self _)))

theorem Open.addText {p : Nat} (open_ : f.Open T p) (text : String) :
    (f.addText T p text).Open T p ∧ f.Kept (f.addText T p text) (some p) := by
  unfold Forest.addText
  split
  · exact ⟨open_, Kept.refl f _⟩
  · have added : f.Added (f.addPlaced T (some p) (.text text)).1 T (some p) (.text text) :=
      added_child ⟨rfl, rfl⟩ rfl open_
    exact ⟨open_.of_added added, added.kept⟩

theorem Open.addRemark {p : Nat} (open_ : f.Open T p) (naming : Naming) (remark : Remark) :
    (f.addRemark T naming p remark).Open T p ∧ f.Kept (f.addRemark T naming p remark) (some p) := by
  have bare : (remarkContent naming remark).IsBare ∧
      (remarkContent naming remark).kind.isAttributeLike = false := by
    cases remark <;> cases naming <;> exact ⟨⟨rfl, rfl⟩, rfl⟩
  have added := added_child bare.1 bare.2 open_
  exact ⟨open_.of_added added, added.kept⟩

theorem Open.addRemarks {p : Nat} (open_ : f.Open T p) (naming : Naming) (remarks : List Remark) :
    (remarks.foldl (fun f remark => f.addRemark T naming p remark) f).Open T p ∧
      f.Kept (remarks.foldl (fun f remark => f.addRemark T naming p remark) f) (some p) := by
  induction remarks generalizing f with
  | nil => exact ⟨open_, Kept.refl f _⟩
  | cons remark remarks ih =>
    obtain ⟨still, kept⟩ := open_.addRemark naming remark
    obtain ⟨after, rest⟩ := ih still
    exact ⟨after, kept.trans rest fun _ _ same => same⟩

/-! ### Attributes -/

/-- The tree is open at an element for attributes: the next one comes behind all nodes of the tree. -/
structure Attributing (f : Forest) (T p : Nat) : Prop where
  inside : p < f.nodes.size
  growing : f.Growing T (f.root (.item p)) (f.address (.item p) ++ [1, (f.attributes (.item p)).size])

theorem Attributing.step {p id : Nat} {name : NodeName} {value : String} (ready : f.Attributing T p)
    (put : f.setAttribute? p name value = some (g, id)) :
    (g.place T id).Attributing T p ∧ f.Kept (g.place T id) none := by
  obtain ⟨known, growing⟩ := ready
  have attached : f.Attached g p id := attached_setAttribute growing.linked put
  have labels : f.SameLabels g := sameLabels_setAttribute put
  have endowed : f.Endowed g p id := endowed_setAttribute put
  obtain ⟨_, _, number, -, -, -, -, -, -, size, -⟩ := records_setAttribute put
  subst number
  have reached : f.address (.item p) ++ g.spot (.item f.nodes.size) =
      f.address (.item p) ++ [1, (f.attributes (.item p)).size] := by
    rw [endowed.spot_new (attached.linked growing.linked)]
  have further : f.address (.item p) ++ [1, (f.attributes (.item p)).size] <
      f.address (.item p) ++ [1, (f.attributes (.item p)).size + 1] := by
    have less := pair_append_lt (l := f.address (.item p)) (x := 1) (s := [])
      (Nat.lt_succ_self (f.attributes (.item p)).size)
    rwa [List.append_nil] at less
  have genuine : g.Genuine (.item f.nodes.size) := by
    intro _
    rw [listed_eq_true attached.parent_new, endowed.attributes, if_pos rfl]
    exact Array.mem_push_self
  obtain ⟨placed, kept, -, -⟩ := growing.attach none attached labels size reached further genuine
    fun k _ _ => endowed.children (.item k)
  have still : g.Alike (g.place T f.nodes.size) := alike_place
  refine ⟨⟨known.trans_le kept.size, ?_⟩, kept⟩
  rw [kept.root p known, kept.address p known, still.attributes, endowed.attributes, if_pos rfl,
    Array.size_push]
  exact placed

theorem Attributing.addAttributes {p : Nat} (ready : f.Attributing T p) (scope : NamespaceMap)
    (attributes : List Attribute) :
    (f.addAttributes T p scope attributes).Attributing T p ∧
      f.Kept (f.addAttributes T p scope attributes) none := by
  unfold Forest.addAttributes
  induction attributes generalizing f with
  | nil => exact ⟨ready, Kept.refl f _⟩
  | cons a attributes ih =>
    rw [List.foldl_cons]
    dsimp only
    split
    next put =>
      obtain ⟨still, kept⟩ := ready.step put
      obtain ⟨after, rest⟩ := ih still
      exact ⟨after, kept.trans rest fun _ _ same => same⟩
    next => exact ih ready

/-! ### Elements -/

/-- An element that was opened: the tree is open at it, and its parent has one more child. -/
structure Opened (f g : Forest) (T : Nat) (parent : Option Nat) (id : Nat) : Prop where
  open_ : g.Open T id
  beyond : f.nodes.size ≤ id
  kept : f.Kept g parent
  under : ∀ p, parent = some p → g.root (.item id) = f.root (.item p) ∧
    g.address (.item id) = f.address (.item p) ++ [2, (f.children (.item p)).size] ∧
    (g.children (.item p)).size = (f.children (.item p)).size + 1
  alone : parent = none → g.root (.item id) = .item id

theorem opened (naming : Naming) {parent : Option Nat} (ready : f.Ready T parent) (tag : Tag)
    (declarations : NamespaceMap) (attributes : List Attribute) :
    f.Opened (f.openElement T naming parent tag declarations attributes).1 T parent
      (f.openElement T naming parent tag declarations attributes).2 := by
  unfold openElement
  extract_lets outer scope data
  show f.Opened ((f.addPlaced T parent (.element data)).1.addAttributes T f.nodes.size scope attributes) T
    parent f.nodes.size
  have added : f.Added (f.addPlaced T parent (.element data)).1 T parent (.element data) :=
    added ⟨rfl, rfl⟩ rfl parent ready
  generalize (f.addPlaced T parent (.element data)).1 = g at added
  have inside : f.nodes.size < g.nodes.size := by
    rw [added.size]
    exact Nat.lt_succ_self _
  have attributing : g.Attributing T f.nodes.size := by
    refine ⟨inside, ?_⟩
    rw [added.attributes]
    exact added.growing
  have within : ∀ p, parent = some p → p < f.nodes.size := by
    rintro p rfl
    exact Open.inside ready
  obtain ⟨ready, kept⟩ := attributing.addAttributes scope attributes
  generalize g.addAttributes T f.nodes.size scope attributes = h at ready kept
  refine ⟨⟨ready.inside, ?_, ?_⟩, le_rfl, added.kept.trans kept fun _ _ same => ?_, fun p same => ?_,
    fun none => ?_⟩
  · rw [kept.kind _ inside, added.kind]
    exact .inl rfl
  · refine ready.growing.mono (le_of_lt ?_)
    exact append_cons_lt (by decide)
  · exact absurd same.symm (Option.some_ne_none _)
  · obtain ⟨root, address, size⟩ := added.under p same
    have known : p < f.nodes.size := within p same
    rw [kept.root _ inside, kept.address _ inside, kept.children p (known.trans inside) (by simp)]
    exact ⟨root, address, size⟩
  · rw [kept.root _ inside]
    exact added.alone none

/-- When what an element holds has been built, the tree is open at its parent again. -/
theorem Opened.close {p id : Nat} (open_ : f.Open T p) (opened : f.Opened g T (some p) id)
    (still : h.Open T id) (kept : g.Kept h (some id)) : h.Open T p ∧ f.Kept h (some p) := by
  obtain ⟨root, address, size⟩ := opened.under p rfl
  have inside : p < g.nodes.size := open_.inside.trans_le opened.kept.size
  have apart : some id ≠ some p := by
    intro same
    obtain rfl := Option.some.inj same
    exact absurd open_.inside (Nat.not_lt_of_le opened.beyond)
  have whole : f.Kept h (some p) := by
    refine opened.kept.trans kept fun k below same => ?_
    obtain rfl := Option.some.inj same
    exact absurd below (Nat.not_lt_of_le opened.beyond)
  refine ⟨⟨open_.inside.trans_le whole.size, ?_, ?_⟩, whole⟩
  · rw [whole.kind p open_.inside]
    exact open_.kind
  · have grown := still.growing
    rw [kept.root id opened.open_.inside, kept.address id opened.open_.inside, root, address] at grown
    rw [whole.root p open_.inside, whole.address p open_.inside, kept.children p inside apart, size]
    exact grown.mono (le_of_lt (pair_append_lt (Nat.lt_succ_self _)))

mutual

/-- **Building an element** leaves the tree open at the element; nothing else has changed but its parent. -/
theorem buildElement_opened (naming : Naming) {f : Forest} (parent : Option Nat) (ready : f.Ready T parent) :
    (e : Element) → ∃ g, f.Opened g T parent (buildElement T naming parent f e).2 ∧
      (buildElement T naming parent f e).1.Open T (buildElement T naming parent f e).2 ∧
      g.Kept (buildElement T naming parent f e).1 (some (buildElement T naming parent f e).2)
  | .mk tag declarations attributes text children => by
    have start := opened naming ready tag declarations attributes
    rw [buildElement]
    dsimp only
    obtain ⟨texted, keptText⟩ := start.open_.addText text
    obtain ⟨filled, keptChildren⟩ := buildChildren_open naming texted children
    exact ⟨_, start, filled, keptText.trans keptChildren fun _ _ same => same⟩

/-- **Building children** leaves the tree open at their parent. -/
theorem buildChildren_open (naming : Naming) {f : Forest} {p : Nat} (open_ : f.Open T p) :
    (children : List (Child × String)) → (buildChildren T naming p f children).Open T p ∧
      f.Kept (buildChildren T naming p f children) (some p)
  | [] => by
    rw [buildChildren]
    exact ⟨open_, Kept.refl f _⟩
  | (.remark remark, tail) :: rest => by
    rw [buildChildren]
    obtain ⟨remarked, keptRemark⟩ := open_.addRemark naming remark
    obtain ⟨texted, keptText⟩ := remarked.addText tail
    obtain ⟨filled, keptRest⟩ := buildChildren_open naming texted rest
    exact ⟨filled, (keptRemark.trans keptText fun _ _ same => same).trans keptRest fun _ _ same => same⟩
  | (.element e, tail) :: rest => by
    rw [buildChildren]
    obtain ⟨g, start, inner, keptInner⟩ := buildElement_opened naming (some p) open_ e
    obtain ⟨closed, keptElement⟩ := start.close open_ inner keptInner
    obtain ⟨texted, keptText⟩ := closed.addText tail
    obtain ⟨filled, keptRest⟩ := buildChildren_open naming texted rest
    exact ⟨filled, (keptElement.trans keptText fun _ _ same => same).trans keptRest fun _ _ same => same⟩

end

/-! ### Whole trees -/

/-- The forest `g` is `f` with a new tree whose root is the node `id`. -/
structure Built (f g : Forest) (id : Nat) : Prop where
  linked : g.Linked
  positioned : g.Positioned
  kept : f.Kept g none
  beyond : f.nodes.size ≤ id
  inside : id < g.nodes.size
  top : g.root (.item id) = .item id

theorem kept_plant (linked : f.Linked) (uri : Option String) : f.Kept (f.plant uri).1 none :=
  (alike_plant uri).kept linked rfl none

section Build

variable (linked : f.Linked) (positioned : f.Positioned)

include linked positioned

theorem ready_plant (uri : Option String) : (f.plant uri).1.Ready f.trees.size none :=
  fun r => growing_plant linked positioned uri r

theorem built_buildRoot (naming : Naming) (uri : Option String) (root : Element) :
    f.Built (f.buildRoot naming uri root).1 (f.buildRoot naming uri root).2 := by
  have planted := kept_plant linked uri
  obtain ⟨g, start, filled, kept⟩ :=
    buildElement_opened naming none (ready_plant linked positioned uri) root
  rw [buildRoot_eq]
  refine ⟨filled.growing.linked, filled.growing.positioned, ?_, planted.size.trans start.beyond,
    filled.inside, ?_⟩
  · refine planted.trans (start.kept.trans kept fun k below same => ?_) fun _ _ same => same
    obtain rfl := Option.some.inj same
    exact absurd below (Nat.not_lt_of_le start.beyond)
  · rw [kept.root _ start.open_.inside]
    exact start.alone rfl

theorem built_buildDocument (naming : Naming) (uri : Option String) (document : Document) :
    f.Built (f.buildDocument naming uri document).1 (f.buildDocument naming uri document).2 := by
  have planted := kept_plant linked uri
  have ready := ready_plant linked positioned uri
  show f.Built (document.after.foldl
      (fun grown remark => grown.addRemark f.trees.size naming (f.plant uri).1.nodes.size remark)
      (Forest.buildWhole
        (document.before.foldl
          (fun grown remark => grown.addRemark f.trees.size naming (f.plant uri).1.nodes.size remark)
          ((f.plant uri).1.addPlaced f.trees.size none (.document uri #[])).1)
        f.trees.size naming (some (f.plant uri).1.nodes.size) document.root).1)
    (f.plant uri).1.nodes.size
  rw [buildWhole_eq]
  generalize (f.plant uri).1 = planted' at planted ready
  have bare : (Content.document uri #[]).IsBare := ⟨rfl, rfl⟩
  have added := added bare rfl none ready
  generalize (planted'.addPlaced f.trees.size none (.document uri #[])).1 = g at added
  have inside : planted'.nodes.size < g.nodes.size := by
    rw [added.size]
    exact Nat.lt_succ_self _
  have start : g.Open f.trees.size planted'.nodes.size := by
    refine ⟨inside, ?_, added.growing.mono (le_of_lt (append_cons_lt (by decide)))⟩
    rw [added.kind]
    exact .inr rfl
  obtain ⟨before, keptBefore⟩ := start.addRemarks naming document.before
  obtain ⟨_, opened, inner, keptInner⟩ :=
    buildElement_opened naming (some planted'.nodes.size) before document.root
  obtain ⟨closed, keptRoot⟩ := opened.close before inner keptInner
  obtain ⟨after, keptAfter⟩ := closed.addRemarks naming document.after
  have kept := (keptBefore.trans keptRoot fun _ _ same => same).trans keptAfter fun _ _ same => same
  refine ⟨after.growing.linked, after.growing.positioned, ?_, planted.size, after.inside, ?_⟩
  · refine planted.trans (added.kept.trans kept fun k below same => ?_) fun _ _ same => same
    obtain rfl := Option.some.inj same
    exact absurd below (Nat.lt_irrefl _)
  · rw [kept.root _ inside]
    exact added.alone rfl

/-- **Building a tree** keeps a forest linked and positioned, and leaves its other trees alone. -/
theorem built (source : TreeSource) (uri : Option String) (document : Document) :
    f.Built (f.build source uri document).1 (f.build source uri document).2 := by
  cases source with
  | parsed => exact built_buildDocument linked positioned _ _ _
  | plain withDocument namespaces =>
    cases withDocument with
    | true => exact built_buildDocument linked positioned _ _ _
    | false => exact built_buildRoot linked positioned _ _ _
  | written withDocument =>
    cases withDocument with
    | true => exact built_buildDocument linked positioned _ _ _
    | false => exact built_buildRoot linked positioned _ _ _

end Build

end Forest

end XPathAnnotator
