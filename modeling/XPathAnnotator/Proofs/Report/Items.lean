/-
**The elements of a name in a report.**

The tree of a report is that of a document. A path that begins with `//` and a name selects in it the elements of that
name in no namespace, wherever they stand, and lists them in document order.

* `Forest.IsReport` — the tree of a report; `isReport_of_treeOf` — the tree that a report is read into is one;
* `Forest.elementsNamed` — the elements of a name; `mem_elementsNamed`, `pairwise_elementsNamed` — which they are, and
  their order;
* `listed_anywhere` — the path that selects them.
-/

import Mathlib
import XPathAnnotator.Proofs.Eval.DocumentOrder
import XPathAnnotator.Proofs.Report.Certainty
import XPathAnnotator.Proofs.Tree.Converted
import XPathAnnotator.Proofs.Workflow.Notes
import XPathAnnotator.Report.Extract

namespace XPathAnnotator

/-- The tree of a report: nothing in it is misplaced, and its root is a document. -/
structure Forest.IsReport (f : Forest) (root : Node) : Prop where
  linked : f.Linked
  positioned : f.Positioned
  clean : f.Clean root
  inTree : f.InTree root root
  isDocument : f.kind root = .document

/-- The elements of a name in no namespace at or below a node. -/
def Forest.elementsNamed (f : Forest) (root : Node) (name : String) : List Node :=
  (f.subtree root).filter (f.isNamed name)

namespace Forest

variable {f : Forest} {root n : Node} {name : String}

theorem kind_of_isNamed (named : f.isNamed name n = true) : f.kind n = .element := by
  rw [isNamed, Bool.and_eq_true] at named
  exact beq_iff_eq.mp named.1

/-! ### The tree of a report -/

theorem kind_buildDocument (f : Forest) (naming : Naming) (uri : Option String) (document : Xml.Document) :
    (f.buildDocument naming uri document).1.kind (.item (f.buildDocument naming uri document).2) = .document := by
  rw [buildDocument_eq_graft]
  have converted := converted_graft (f.plant uri).1 f.trees.size [.item f.nodes.size]
    (NodeTree.neat_document naming uri document _) (NodeTree.elementTexts_document naming uri document _)
  exact kind_of_content converted.shows.1

theorem isReport_of_addDocument {uri : Option String} {text : String}
    (added : Forest.empty.addDocument uri text = .ok (f, root)) : f.IsReport root := by
  unfold addDocument at added
  cases read : Xml.Document.readSafely text with
  | error e =>
    rw [read] at added
    cases added
  | ok document =>
    rw [read] at added
    obtain ⟨rfl, rfl⟩ := Prod.mk.inj (Except.ok.inj added)
    have built := built linked_empty positioned_empty .parsed uri document
    exact ⟨built.linked, built.positioned, built.clean linked_empty, ⟨built.inside, built.top⟩,
      kind_buildDocument _ _ _ _⟩

theorem added_of_liftM {added : Except Xml.XmlError (Forest × Node)} {r r' : Workflow.Runner}
    (accepted : (liftM (added.mapError Report.ReportError.xml) : Workflow.Work Report.ReportError (Forest × Node)) r =
      (.ok (f, root), r')) :
    added = .ok (f, root) := by
  cases added with
  | error e => cases accepted
  | ok found => exact congrArg Except.ok (Except.ok.inj (Prod.mk.inj accepted).1)

/-- **The tree of a report** that is accepted. -/
theorem isReport_of_treeOf {path : String} {r r' : Workflow.Runner}
    (accepted : Report.treeOf path r = (.ok (f, root), r')) : f.IsReport root := by
  unfold Report.treeOf at accepted
  obtain ⟨files, _, -, accepted⟩ := Workflow.Work.exists_of_bind accepted
  split at accepted
  · exact isReport_of_addDocument (added_of_liftM accepted)
  · obtain ⟨text, _, -, accepted⟩ := Workflow.Work.exists_of_bind accepted
    exact isReport_of_addDocument (added_of_liftM accepted)

namespace IsReport

variable (report : f.IsReport root)

include report

theorem mem_subtree (plain : f.Plain n) : n ∈ f.subtree root ↔ f.InTree root n := by
  have placed : f.Placed root := fun m p has tree _ => report.clean m has tree
  have plainRoot : f.Plain root := plain_of_kind (.inr report.isDocument)
  rw [placed.mem_subtree report.linked report.inTree.has report.inTree.root plainRoot]
  constructor
  · rintro ⟨has, covers, -⟩
    exact ⟨has, (covers.root report.linked).symm.trans report.inTree.root⟩
  · exact fun inTree => ⟨inTree.has, inTree.covers report.linked, plain⟩

/-- The elements of a name are those in the tree. -/
theorem mem_elementsNamed : n ∈ f.elementsNamed root name ↔ f.InTree root n ∧ f.isNamed name n = true := by
  rw [elementsNamed, List.mem_filter]
  refine and_congr_left fun named => report.mem_subtree (plain_of_kind (.inl (kind_of_isNamed named)))

/-- They stand in document order. -/
theorem pairwise_elementsNamed : (f.elementsNamed root name).Pairwise fun a b => f.order a b = .lt := by
  have rising := (report.linked.pairwise_subtree root).filter (f.isNamed name)
  refine rising.imp_of_mem fun {a b} metA metB less => ?_
  have ofA := report.clean.of_inTree (report.mem_elementsNamed.mp metA).1
  have ofB := report.clean.of_inTree (report.mem_elementsNamed.mp metB).1
  exact (order_eq_lt_iff report.linked report.positioned ofA ofB).mpr less

/-- An element in the tree is a child of a node in the tree. -/
theorem exists_parent (inTree : f.InTree root n) (element : f.kind n = .element) :
    ∃ p ∈ f.subtree root, n ∈ (f.children p).toList := by
  cases parent : f.parent? n with
  | none =>
    obtain rfl : n = root := (root_eq_self parent).symm.trans inTree.root
    rw [report.isDocument] at element
    cases element
  | some p =>
    have held := report.linked.child_of_plain (plain_of_kind (.inl element)) parent
    refine ⟨.item p, ?_, ?_⟩
    · have kind := Hangs.kind (.inr (.inr (Array.mem_iff_getElem?.mpr ⟨_, held⟩)))
      exact (report.mem_subtree (plain_of_kind kind)).mpr (inTree.of_parent report.linked parent)
    · exact Array.mem_toList_iff.mpr (Array.mem_iff_getElem?.mpr ⟨_, held⟩)

/-! ### The path to the elements of a name -/

/-- The elements of a name are the children of that name of nodes in the tree. -/
theorem exists_child_iff : (∃ p ∈ f.subtree root, n ∈ (f.children p).toList ∧ f.isNamed name n = true) ↔
    n ∈ f.elementsNamed root name := by
  rw [report.mem_elementsNamed]
  constructor
  · rintro ⟨p, below, held, named⟩
    exact ⟨(report.inTree.of_subtree report.linked below).of_children report.linked held, named⟩
  · rintro ⟨inTree, named⟩
    obtain ⟨p, below, held⟩ := report.exists_parent inTree (kind_of_isNamed named)
    exact ⟨p, below, held, named⟩

/-- A node-set of these elements is listed in document order. -/
theorem toList_eq {nodes : List Node} (same : ∀ m, m ∈ nodes ↔ m ∈ f.elementsNamed root name) :
    (NodeSet.ofList nodes).toList f = f.elementsNamed root name := by
  have of : ∀ m ∈ nodes, f.Of root m := fun m met =>
    report.clean.of_inTree (report.mem_elementsNamed.mp ((same m).mp met)).1
  have within := NodeSet.within_ofList of
  have rising := within.pairwise_toList report.linked report.positioned
  have rising' : (f.elementsNamed root name).Pairwise fun a b => f.address a < f.address b :=
    (report.linked.pairwise_subtree root).filter (f.isNamed name)
  have perm : ((NodeSet.ofList nodes).toList f).Perm (f.elementsNamed root name) := by
    refine (List.perm_ext_iff_of_nodup (NodeSet.nodup_of_rising rising) (NodeSet.nodup_of_rising rising')).mpr
      fun m => ?_
    rw [within.mem_toList report.linked report.positioned, NodeSet.mem_ofList, same]
  exact perm.eq_of_pairwise (fun a b _ _ less greater => absurd greater less.asymm) rising rising'

/-- **The path to all elements of a name**, followed from a node of a report, gives a node-set that is listed as the
elements of the name in document order. -/
theorem listed_anywhere (functions : List (String × Function (Except EvalError))) {focus : Focus}
    (here : focus.node = some n) (inTree : f.InTree root n) (name : String) :
    ∃ set, (Expr.anywhere name).evalIn (ReportItem.environment f functions) focus = .ok (.nodes set) ∧
      set.toList f = f.elementsNamed root name := by
  have node : (focus.theNode : Except EvalError Node) = .ok n := by rw [Focus.theNode, here]; rfl
  have start : Axis.rootOf f none n = root := inTree.root
  -- the first step gives the whole tree, the second one the children of the name
  have first : Step.descendants.evalAt (ReportItem.environment f functions) root = .ok (f.subtree root) := by
    have everything : ∀ m, (ReportItem.environment f functions).accepts Axis.descendantOrSelf.principalKind .anyNode
        root m = .ok ((fun _ => true) m) := fun m => rfl
    rw [Step.descendants, evalAt_eq_filter everything, List.filter_true]
    rfl
  have second : ∀ p, (Expr.childNamed name).evalAt (ReportItem.environment f functions) p =
      .ok ((f.children p).toList.filter (f.isNamed name)) := fun p => evalAt_eq_filter fun m => accepts_name name p m
  have fine : ∀ p ∈ (NodeSet.ofList (f.subtree root)).inOrderOfAddition, ∃ taken,
      (Expr.childNamed name).evalAt (ReportItem.environment f functions) p = .ok taken := fun p _ => ⟨_, second p⟩
  obtain ⟨found, walked, members⟩ := stepFromEach_eq_ok .empty fine
  refine ⟨.ofList (NodeSet.addAll .empty found).inOrderOfAddition, ?_, ?_⟩
  · rw [Expr.anywhere, Expr.evalIn, node]
    change (Step.evalAll (ReportItem.environment f functions) [.descendants, Expr.childNamed name]
      [Axis.rootOf f none n] >>= fun found => _) = _
    rw [start, Step.evalAll, stepFromEach, first]
    change (Step.evalAll (ReportItem.environment f functions) [Expr.childNamed name]
      (NodeSet.ofList (f.subtree root)).inOrderOfAddition >>= fun found => _) = _
    rw [Step.evalAll, walked]
    change (Step.evalAll (ReportItem.environment f functions) [] _ >>= fun found => _) = _
    rw [Step.evalAll]
    rfl
  · refine report.toList_eq fun m => ?_
    rw [← NodeSet.ofList, NodeSet.mem_ofList, members, ← report.exists_child_iff]
    simp only [NodeSet.mem_ofList, second, Except.ok.injEq, exists_eq_left', List.mem_filter]

end IsReport

end Forest

end XPathAnnotator
