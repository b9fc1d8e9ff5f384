/-
**Namespaces of trees made by hand.**

In a session elements are made one by one and appended to each other, and between these steps the namespaces of any
element can be read: all in scope, one of them, or as nodes. An element remembers what was read, with the elements
around it. So a tree that is appended later has no effect on what its elements remember: what is read afterwards is what
the declarations determine at that moment as long as each appending leaves that alone for all elements that have been
read, or stood around one that was.

* `Handwork`, `Handwork.command` — the steps, as commands of a session;
* `Orderly` — scripts in which each step can be made, and no appending changes what has been read;
* `Kept`, `kept_after`, `kept_afterAll` — what a step keeps, and so a script;
* `ReadsNow` — what all readings of an element give if they follow the tree;
* `readsNow_of_orderly` — **after an orderly script every reading follows the tree**;
* `not_readsNow_lateParent` — an element that is read before it is appended.
-/

import Mathlib
import XPathAnnotator.Proofs.Tree.Remembering
import XPathAnnotator.Session.Command

namespace XPathAnnotator

open XPathAnnotator.Data

/-! ### Steps -/

/-- A step of making trees by hand, or of reading the namespaces of an element. Nodes go by their names. -/
inductive Handwork where
  | element (name localPart : String) (qualifier : Option String) (uri : String) (declarations : NamespaceMap)
  | text (name value : String)
  | comment (name value : String)
  | instruction (name target data : String)
  | append (parent child : String)
  | nsmap (name : String)
  | lookUp (name qualifier : String)
  | namespaceNodes (name : String)

namespace Handwork

/-- A mapping of texts as a value. -/
def settingOf (map : NamespaceMap) : Setting := .mapping (map.map fun (key, value) => (key, .text value))

/-- The command of a step, with its arguments. -/
def command : Handwork → String × List Setting
  | element name localPart qualifier uri declarations =>
    ("element", [.text name, .text localPart, (qualifier.map Datum.text).getD .null, .text uri,
      settingOf declarations])
  | text name value => ("text", [.text name, .text value])
  | comment name value => ("comment", [.text name, .text value])
  | instruction name target data => ("pi", [.text name, .text target, .text data])
  | append parent child => ("append", [.text parent, .text child])
  | nsmap name => ("get", [.text name, .text "nsmap"])
  | lookUp name qualifier => ("call", [.text name, .text "lookup_namespace", .text qualifier])
  | namespaceNodes name => ("get", [.text name, .text "namespace_nodes"])

/-- The name and the content of a node that a step makes. -/
def makes? : Handwork → Option (String × Content)
  | element name localPart qualifier uri declarations =>
    some (name, .element (ElementData.fresh ⟨qualifier, localPart, uri⟩ declarations))
  | text name value => some (name, .text value)
  | comment name value => some (name, .comment value)
  | instruction name target data => some (name, .instruction target data)
  | _ => none

end Handwork

namespace Session

/-- The node that a name was last given to. -/
def node? (s : Session) (name : String) : Option Node := s.names.reverse.lookup name

/-- What a step answers. -/
def answer (s : Session) (work : Handwork) : Except SessionError Answer :=
  ((perform work.command.1 work.command.2).run.run s).1

/-- The session after a step. -/
def after (s : Session) (work : Handwork) : Session := ((perform work.command.1 work.command.2).run.run s).2

/-- The session after the steps of a script. -/
def afterAll (s : Session) (script : List Handwork) : Session := script.foldl after s

/-- A node without a parent may be appended to an element outside its subtree. For the nodes that have been seen, which
are those that were read and those that stood around one, the appending leaves alone what is determined. -/
structure Appends (s : Session) (seen : List Node) (p c : Nat) : Prop where
  host : s.forest.isElement (.item p) = true
  known : s.forest.Has (.item c)
  top : s.forest.parent? (.item c) = none
  away : Node.item c ∉ s.forest.lineage (.item p)
  kept : ∀ n ∈ seen, Node.item c ∈ s.forest.lineage n →
    (s.forest.append? p (.item c)).map (·.inScope n) = some (s.forest.inScope n)

instance (s : Session) (seen : List Node) (p c : Nat) : Decidable (s.Appends seen p c) :=
  decidable_of_iff
    (s.forest.isElement (.item p) = true ∧ s.forest.Has (.item c) ∧ s.forest.parent? (.item c) = none ∧
      Node.item c ∉ s.forest.lineage (.item p) ∧ ∀ n ∈ seen, Node.item c ∈ s.forest.lineage n →
        (s.forest.append? p (.item c)).map (·.inScope n) = some (s.forest.inScope n))
    ⟨fun ⟨host, known, top, away, kept⟩ => ⟨host, known, top, away, kept⟩,
      fun ⟨host, known, top, away, kept⟩ => ⟨host, known, top, away, kept⟩⟩

/-- Whether a name stands for an element. -/
def NamesElement (s : Session) (name : String) : Prop := (s.node? name).any s.forest.isElement = true

instance (s : Session) (name : String) : Decidable (s.NamesElement name) :=
  inferInstanceAs (Decidable (_ = true))

/-- Whether a step can be made, where some nodes have been seen. No two declarations of an element are for one
qualifier, and only elements are read. -/
def Allows (s : Session) (seen : List Node) : Handwork → Prop
  | .element _ _ _ _ declarations => HasDistinctKeys declarations
  | .append parent child =>
    match s.node? parent, s.node? child with
    | some (.item p), some (.item c) => s.Appends seen p c
    | _, _ => False
  | .nsmap name | .lookUp name _ | .namespaceNodes name => s.NamesElement name
  | _ => True

instance (s : Session) (seen : List Node) (work : Handwork) : Decidable (s.Allows seen work) := by
  unfold Allows HasDistinctKeys
  split
  · infer_instance
  · split <;> infer_instance
  all_goals infer_instance

/-- The nodes that are seen in a step. To look up the reserved qualifier is to read nothing. -/
def sees (s : Session) : Handwork → List Node
  | .nsmap name | .namespaceNodes name => ((s.node? name).map s.forest.lineage).getD []
  | .lookUp name qualifier => if qualifier = "xml" then [] else ((s.node? name).map s.forest.lineage).getD []
  | _ => []

/-- **Scripts** in which each step can be made after those before it, and no appending changes what has been read. -/
def Orderly : Session → List Node → List Handwork → Prop
  | _, _, [] => True
  | s, seen, work :: rest => s.Allows seen work ∧ Orderly (s.after work) (s.sees work ++ seen) rest

/-! ### What commands do -/

theorem run_bind {α β : Type} (x : SessionM α) (next : α → SessionM β) (s : Session) :
    (x >>= next).run.run s = match x.run.run s with
      | (.ok a, t) => (next a).run.run t
      | (.error e, t) => (.error e, t) := by
  have unfolded : (x >>= next).run.run s =
      (ExceptT.bindCont next (x.run.run s).1 : StateM Session _).run (x.run.run s).2 := rfl
  rw [unfolded]
  rcases x.run.run s with ⟨_ | a, t⟩
  · rfl
  · rfl

theorem run_pure {α : Type} (a : α) (s : Session) : (pure a : SessionM α).run.run s = (.ok a, s) := rfl

theorem run_theForest (s : Session) : theForest.run.run s = (.ok s.forest, s) := rfl

theorem run_node {s : Session} {name : String} {n : Node} (named : s.node? name = some n) :
    (node name).run.run s = (.ok n, s) := by
  have current : (get : SessionM Session).run.run s = (.ok s, s) := rfl
  have found : s.names.reverse.lookup name = some n := named
  unfold node
  rw [run_bind, current]
  dsimp only
  rw [found]
  rfl

theorem perform_make {work : Handwork} {name : String} {content : Content}
    (makes : work.makes? = some (name, content)) :
    perform work.command.1 work.command.2 = make name content := by
  cases work with
  | element name localPart qualifier uri declarations =>
    obtain ⟨rfl, rfl⟩ := Prod.mk.inj (Option.some.inj makes)
    have declared : mapOf (Handwork.settingOf declarations) = declarations := by
      rw [Handwork.settingOf, mapOf, List.map_map]
      exact List.map_id'' (fun _ => rfl) declarations
    have made : perform "element" [.text name, .text localPart, (qualifier.map Datum.text).getD .null, .text uri,
        Handwork.settingOf declarations] = make name (.element (ElementData.fresh
          ⟨text? ((qualifier.map Datum.text).getD .null), localPart, uri⟩
          (mapOf (Handwork.settingOf declarations)))) := rfl
    rw [declared] at made
    cases qualifier with
    | none => exact made
    | some qualifier => exact made
  | text name value =>
    obtain ⟨rfl, rfl⟩ := Prod.mk.inj (Option.some.inj makes)
    rfl
  | comment name value =>
    obtain ⟨rfl, rfl⟩ := Prod.mk.inj (Option.some.inj makes)
    rfl
  | instruction name target data =>
    obtain ⟨rfl, rfl⟩ := Prod.mk.inj (Option.some.inj makes)
    rfl
  | _ => cases makes

theorem after_of_makes {s : Session} {work : Handwork} {name : String} {content : Content}
    (makes : work.makes? = some (name, content)) : s.after work = { s with
      forest := (s.forest.create content).1, names := s.names ++ [(name, .item s.forest.nodes.size)] } := by
  rw [after, perform_make makes]
  rfl

theorem after_append {s : Session} {parent child : String} {p : Nat} {c : Node}
    (namedParent : s.node? parent = some (.item p)) (namedChild : s.node? child = some c) :
    s.after (.append parent child) = { s with forest := (s.forest.append? p c).getD s.forest } := by
  have parentNode : Arguments.node ⟨[.text parent, .text child]⟩ 0 = node parent := rfl
  have childNode : Arguments.node ⟨[.text parent, .text child]⟩ 1 = node child := rfl
  have record : (recordOf (.item p)).run.run s = (.ok p, s) := rfl
  show ((perform "append" [.text parent, .text child]).run.run s).2 = _
  unfold perform construct?
  simp only [Option.orElse_eq_orElse, Option.orElse_eq_or, Option.some_or, parentNode, childNode, run_bind,
    run_node namedParent, run_node namedChild, run_theForest, record]
  cases s.forest.append? p c with
  | some g => rfl
  | none => rfl

/-- The session in which the scope of an element has been read. -/
def remembering (s : Session) (id : Nat) : Session := { s with forest := s.forest.rememberScope id }

section Readings

variable {s : Session} {name : String} {id : Nat} (named : s.node? name = some (.item id))
  (element : s.forest.isElement (.item id) = true)

theorem run_get {n : Node} (named : s.node? name = some n) (what : String) :
    (perform "get" [.text name, .text what]).run.run s = match (property n what).run.run s with
      | (.ok a, t) => (.ok (.list [a]), t)
      | (.error e, t) => (.error e, t) := by
  have unfolded : perform "get" [.text name, .text what] = (do
      let n ← node name
      let answers ← [Datum.text what].mapM fun (what : Setting) => property n ((text? what).getD "")
      return Answer.list answers) := rfl
  have single : ([Datum.text what].mapM fun (what : Setting) => property n ((text? what).getD "")) = (do
      let a ← property n what
      return [a]) := rfl
  rw [unfolded, run_bind, run_node named]
  dsimp only
  rw [single, run_bind, run_bind]
  rcases (property n what).run.run s with ⟨_ | a, t⟩
  · rfl
  · rfl

include element

theorem run_elementOf : (elementOf (.item id)).run.run s = (.ok id, s) := by
  have unfolded : (elementOf (.item id)).run.run s =
      (if s.forest.isElement (.item id) then (pure id : SessionM Nat) else throw SessionError.notProvided).run.run s :=
    rfl
  rw [unfolded, if_pos element]
  rfl

theorem run_readScope : (readScope (.item id)).run.run s = (.ok (), s.remembering id) := by
  have unfolded : (readScope (.item id)).run.run s =
      (if s.forest.isElement (.item id) then keepForest (s.forest.rememberScope id) else pure ()).run.run s := rfl
  rw [unfolded, if_pos element]
  rfl

theorem run_nsmap : (property (.item id) "nsmap").run.run s =
    (.ok (ofMap ((s.remembering id).forest.scope id)), s.remembering id) := by
  unfold property
  simp only [run_bind, run_theForest, run_elementOf element, run_readScope element, run_pure]

theorem run_namespaceNodes : (property (.item id) "namespace_nodes").run.run s =
    (.ok (.nodes ((s.remembering id).forest.namespaceNodes (.item id))), s.remembering id) := by
  unfold property
  simp only [run_bind, run_theForest, run_readScope element, run_pure]

theorem run_lookUp (qualifier : String) : (lookUp (.item id) "lookup_namespace" [.text qualifier]).run.run s =
    if qualifier = "xml" then (.ok (optionalText (some Name.xmlUri)), s)
    else (.ok (optionalText (((s.remembering id).forest.scope id).lookup qualifier)), s.remembering id) := by
  unfold lookUp
  simp only [run_bind, run_theForest, run_elementOf element]
  by_cases reserved : qualifier = "xml"
  · subst reserved
    rfl
  · have other : (qualifier != "xml") = true := bne_iff_ne.mpr reserved
    rw [if_pos other, if_neg reserved]
    simp only [run_bind, run_readScope element, run_theForest, run_pure, Forest.lookupNamespace,
      beq_false_of_ne reserved]
    rfl

include named

theorem run_handwork_nsmap : s.answer (.nsmap name) = .ok (.list [ofMap ((s.remembering id).forest.scope id)]) ∧
    s.after (.nsmap name) = s.remembering id := by
  have result := run_get named "nsmap"
  rw [run_nsmap element] at result
  exact ⟨congrArg Prod.fst result, congrArg Prod.snd result⟩

theorem run_handwork_namespaceNodes :
    s.answer (.namespaceNodes name) = .ok (.list [.nodes ((s.remembering id).forest.namespaceNodes (.item id))]) ∧
    s.after (.namespaceNodes name) = s.remembering id := by
  have result := run_get named "namespace_nodes"
  rw [run_namespaceNodes element] at result
  exact ⟨congrArg Prod.fst result, congrArg Prod.snd result⟩

theorem run_handwork_lookUp (qualifier : String) :
    (s.answer (.lookUp name qualifier), s.after (.lookUp name qualifier)) =
      if qualifier = "xml" then (.ok (optionalText (some Name.xmlUri)), s)
      else (.ok (optionalText (((s.remembering id).forest.scope id).lookup qualifier)), s.remembering id) := by
  have unfolded : perform "call" [.text name, .text "lookup_namespace", .text qualifier] = (do
      let n ← node name
      lookUp n "lookup_namespace" [.text qualifier]) := rfl
  rw [← run_lookUp element qualifier]
  show (perform "call" [.text name, .text "lookup_namespace", .text qualifier]).run.run s = _
  rw [unfolded, run_bind, run_node named]

end Readings

/-! ### What steps keep -/

/-- **What is known after orderly steps**: the forest is faithful, no two declarations of a node are for one qualifier,
and only nodes that have been seen remember their scopes. -/
structure Kept (s : Session) (seen : List Node) : Prop where
  faithful : s.forest.Faithful
  distinct : ∀ n, HasDistinctKeys (s.forest.declarations n)
  seen : ∀ k scope, s.forest.Remembers k scope → Node.item k ∈ seen

theorem kept_empty : Kept {} [] := by
  have none : ∀ k, Forest.empty.record? k = none := fun k => Array.getElem?_eq_none (Nat.zero_le k)
  refine ⟨Forest.faithful_empty, fun n => ?_, ?_⟩
  · have nothing : Forest.empty.declarations n = [] := by
      cases n with
      | binding owner index => simp [Forest.declarations, Forest.content?]
      | item k => simp [Forest.declarations, Forest.content?, none]
    show HasDistinctKeys (Forest.empty.declarations n)
    rw [nothing]
    exact List.nodup_nil
  · rintro k scope ⟨data, found, -⟩
    have nothing : Forest.empty.element? k = Option.none := by simp [Forest.element?, none]
    exact absurd (found.symm.trans nothing) (Option.some_ne_none _)

section Steps

variable {s : Session} {seen : List Node} (kept : s.Kept seen)

include kept

theorem Kept.make {content : Content} {names : List (String × Node)} (bare : content.IsBare)
    (fresh : ∀ data, Forest.elementOf? content = some data → data.scope = none ∧ HasDistinctKeys data.declarations) :
    Kept { s with forest := (s.forest.create content).1, names } seen := by
  refine ⟨kept.faithful.create bare fun data holds => (fresh data holds).1, fun n => ?_, ?_⟩
  · by_cases new : n = .item s.forest.nodes.size
    · subst new
      show HasDistinctKeys ((s.forest.create content).1.declarations _)
      rw [Forest.declarations_item, Forest.element?_create, if_pos rfl]
      cases holds : Forest.elementOf? content with
      | none => exact List.nodup_nil
      | some data => exact (fresh data holds).2
    · show HasDistinctKeys ((s.forest.create content).1.declarations n)
      rw [Forest.declarations_create content new]
      exact kept.distinct n
  · rintro k scope ⟨data, found, remembered⟩
    replace found : (s.forest.create content).1.element? k = some data := found
    rw [Forest.element?_create] at found
    split at found
    next => exact absurd ((fresh data found).1.symm.trans remembered) (Option.some_ne_none scope).symm
    next => exact kept.seen k scope ⟨data, found, remembered⟩

theorem Kept.read (id : Nat) : (s.remembering id).Kept (s.forest.lineage (.item id) ++ seen) := by
  have recalled := kept.faithful.rememberScope id
  refine ⟨recalled.faithful, fun n => ?_, fun k scope remembers => ?_⟩
  · show HasDistinctKeys ((s.forest.rememberScope id).declarations n)
    rw [recalled.declarations]
    exact kept.distinct n
  · rcases recalled.remembers k scope remembers with ⟨old, before⟩ | covers
    · exact List.mem_append_right _ (kept.seen k old before)
    · exact List.mem_append_left _ (kept.faithful.linked.mem_lineage.mpr covers)

theorem Kept.append {p c : Nat} (appends : s.Appends seen p c) :
    Kept { s with forest := (s.forest.append? p (.item c)).getD s.forest } seen := by
  have other : p ≠ c := by
    rintro rfl
    exact appends.away List.mem_cons_self
  cases appended : s.forest.append? p (.item c) with
  | none => exact kept
  | some g =>
    have unchanged : ∀ k scope, s.forest.Remembers k scope → s.forest.Covers (.item c) (.item k) →
        g.inScope (.item k) = s.forest.inScope (.item k) := by
      intro k scope remembers covers
      have same := appends.kept (.item k) (kept.seen k scope remembers) (kept.faithful.linked.mem_lineage.mpr covers)
      rw [appended] at same
      exact Option.some.inj same
    refine ⟨kept.faithful.append appends.known appends.host appends.top appends.away appended unchanged, fun n => ?_,
      fun k scope remembers => ?_⟩
    · show HasDistinctKeys (g.declarations n)
      rw [Forest.declarations_append appended other appends.known]
      exact kept.distinct n
    · exact kept.seen k scope ((Forest.remembers_append appended other appends.known).mp remembers)

end Steps

theorem exists_of_namesElement {s : Session} {name : String} (names : s.NamesElement name) :
    ∃ id, s.node? name = some (.item id) ∧ s.forest.isElement (.item id) = true := by
  unfold NamesElement at names
  cases named : s.node? name with
  | none =>
    rw [named] at names
    cases names
  | some n =>
    rw [named] at names
    cases n with
    | binding owner index => cases names
    | item id => exact ⟨id, rfl, names⟩

/-- **Each step that can be made** keeps what is known. -/
theorem kept_after {s : Session} {seen : List Node} (kept : s.Kept seen) {work : Handwork}
    (allowed : s.Allows seen work) : (s.after work).Kept (s.sees work ++ seen) := by
  cases work with
  | element name localPart qualifier uri declarations =>
    rw [after_of_makes rfl]
    refine kept.make ⟨rfl, rfl⟩ fun data holds => ?_
    obtain rfl := Option.some.inj holds
    exact ⟨rfl, allowed⟩
  | text name value =>
    rw [after_of_makes rfl]
    exact kept.make ⟨rfl, rfl⟩ fun data holds => absurd holds.symm (Option.some_ne_none data)
  | comment name value =>
    rw [after_of_makes rfl]
    exact kept.make ⟨rfl, rfl⟩ fun data holds => absurd holds.symm (Option.some_ne_none data)
  | instruction name target data =>
    rw [after_of_makes rfl]
    exact kept.make ⟨rfl, rfl⟩ fun data holds => absurd holds.symm (Option.some_ne_none data)
  | append parent child =>
    simp only [Allows] at allowed
    split at allowed
    next p c namedParent namedChild =>
      rw [after_append namedParent namedChild]
      exact kept.append allowed
    next => exact allowed.elim
  | nsmap name =>
    obtain ⟨id, named, element⟩ := exists_of_namesElement allowed
    rw [(run_handwork_nsmap named element).2, sees, named]
    exact kept.read id
  | namespaceNodes name =>
    obtain ⟨id, named, element⟩ := exists_of_namesElement allowed
    rw [(run_handwork_namespaceNodes named element).2, sees, named]
    exact kept.read id
  | lookUp name qualifier =>
    obtain ⟨id, named, element⟩ := exists_of_namesElement allowed
    have result := congrArg Prod.snd (run_handwork_lookUp named element qualifier)
    dsimp only at result
    rw [result, sees, named]
    split
    · exact kept
    · exact kept.read id

/-- **Orderly scripts** keep what is known. -/
theorem kept_afterAll {s : Session} {seen : List Node} (kept : s.Kept seen) {script : List Handwork}
    (orderly : Orderly s seen script) : ∃ all, (s.afterAll script).Kept all := by
  induction script generalizing s seen with
  | nil => exact ⟨seen, kept⟩
  | cons work script ih => exact ih (kept_after kept orderly.1) orderly.2

/-! ### Readings -/

/-- **What readings of an element give if they follow the tree.** All namespaces in scope are those that are inherited
with the declarations of the element, where an empty one takes a qualifier out; so a qualifier has the URI of its
nearest declaration, unless that is empty. There is a namespace node for each of them, after that of the reserved
qualifier. -/
structure ReadsNow (s : Session) (name : String) (id : Nat) : Prop where
  nsmap : s.answer (.nsmap name) = .ok (.list [ofMap (s.forest.inScope (.item id))])
  nearest : ∀ qualifier, (s.forest.inScope (.item id)).lookup qualifier =
    filled? (nearest? ((s.forest.lineage (.item id)).map s.forest.declarations) qualifier)
  lookUp : ∀ qualifier, s.answer (.lookUp name qualifier) = .ok (optionalText (if qualifier = "xml" then
    some Name.xmlUri else (s.forest.inScope (.item id)).lookup qualifier))
  namespaceNodes : ∃ nodes, s.answer (.namespaceNodes name) = .ok (.list [.nodes nodes]) ∧
    nodes.map (fun n => ((s.after (.namespaceNodes name)).forest.name n,
      (s.after (.namespaceNodes name)).forest.stringValue n)) =
        ("xml", Name.xmlUri) :: (s.forest.inScope (.item id)).erase "xml"

theorem Kept.readsNow {s : Session} {seen : List Node} (kept : s.Kept seen) {name : String} {id : Nat}
    (named : s.node? name = some (.item id)) (element : s.forest.isElement (.item id) = true) :
    s.ReadsNow name id := by
  have recalled := kept.faithful.rememberScope id
  have elementStill : (s.forest.rememberScope id).isElement (.item id) = true := (recalled.isElement id).trans element
  have scope : (s.remembering id).forest.scope id = s.forest.inScope (.item id) :=
    (recalled.faithful.scope_eq elementStill).trans (recalled.inScope kept.faithful.linked _)
  constructor
  case nsmap =>
    rw [(run_handwork_nsmap named element).1, scope]
  case nearest => exact Forest.lookup_inScope kept.distinct _
  case lookUp =>
    intro qualifier
    have result := congrArg Prod.fst (run_handwork_lookUp named element qualifier)
    dsimp only at result
    rw [result, scope]
    split
    · rfl
    · rfl
  case namespaceNodes =>
    obtain ⟨given, next⟩ := run_handwork_namespaceNodes named element
    refine ⟨_, given, ?_⟩
    obtain ⟨data, found⟩ := Forest.isElement_iff_exists.mp elementStill
    replace found : (s.remembering id).forest.element? id = some data := found
    rw [next, Forest.map_namespaceNodes, Forest.bindings, found, ← scope]

/-- **Readings follow the tree.** After a script of making elements with declarations and other nodes, appending
parentless nodes to elements outside their subtrees, and reading elements, all readings of every element give what its
declarations and those of the elements around it determine at that moment, if no appending in the script changes what
is determined for an element of the appended tree that has been read, or that stood around one that was. -/
theorem readsNow_of_orderly {script : List Handwork} (orderly : Orderly {} [] script) {name : String} {id : Nat}
    (named : (afterAll {} script).node? name = some (.item id))
    (element : (afterAll {} script).forest.isElement (.item id) = true) : (afterAll {} script).ReadsNow name id := by
  obtain ⟨all, kept⟩ := kept_afterAll kept_empty orderly
  exact kept.readsNow named element

/-- An outer element and one within it are joined and read, and put into a third one that declares nothing; then a
fourth one, which has not been read, is put into the inner one. -/
def joinedThenRead : List Handwork :=
  [.element "outer" "list" none "" [("", "u"), ("p", "v")], .element "inner" "item" none "" [("", "")],
    .append "outer" "inner", .nsmap "inner", .element "frame" "frame" none "" [], .append "frame" "outer",
    .element "last" "p" (some "p") "v" [("q", "w")], .append "inner" "last", .namespaceNodes "outer"]

theorem readsNow_joinedThenRead : Orderly {} [] joinedThenRead ∧
    (afterAll {} joinedThenRead).node? "last" = some (.item 3) ∧
    (afterAll {} joinedThenRead).forest.isElement (.item 3) = true ∧
    (afterAll {} joinedThenRead).forest.inScope (.item 3) = [("p", "v"), ("q", "w")] ∧
    (afterAll {} joinedThenRead).ReadsNow "last" 3 := by
  have orderly : Orderly {} [] joinedThenRead :=
    ⟨by decide, by decide, by decide, by decide, by decide, by decide,
      by decide, by decide, by decide, trivial⟩
  have named : (afterAll {} joinedThenRead).node? "last" = some (.item 3) := by decide
  have element : (afterAll {} joinedThenRead).forest.isElement (.item 3) = true := by decide
  exact ⟨orderly, named, element, by decide, readsNow_of_orderly orderly named element⟩

/-- The mapping that an answer consists of. -/
def mapAnswered? : Except SessionError Answer → Option NamespaceMap
  | .ok (.list [.plain map]) => some (mapOf map)
  | _ => none

/-- An element is read before it gets its parent. -/
def lateParent : List Handwork :=
  [.element "inner" "item" none "" [], .nsmap "inner", .element "outer" "list" none "" [("p", "v")],
    .append "outer" "inner"]

/-- **An element that is read before it is appended** goes on with what it remembers: its parent declares a namespace,
but nothing is in scope. -/
theorem not_readsNow_lateParent :
    (afterAll {} lateParent).node? "inner" = some (.item 0) ∧
    (afterAll {} lateParent).forest.lineage (.item 0) = [.item 0, .item 1] ∧
    (afterAll {} lateParent).forest.inScope (.item 0) = [("p", "v")] ∧
    mapAnswered? ((afterAll {} lateParent).answer (.nsmap "inner")) = some [] ∧
    ¬ (afterAll {} lateParent).ReadsNow "inner" 0 := by
  have determined : (afterAll {} lateParent).forest.inScope (.item 0) = [("p", "v")] := by decide
  have remembered : mapAnswered? ((afterAll {} lateParent).answer (.nsmap "inner")) = some [] := by decide
  refine ⟨by decide, by decide, determined, remembered, fun reads => ?_⟩
  rw [reads.nsmap, determined] at remembered
  exact absurd remembered (by decide)

end Session

end XPathAnnotator
