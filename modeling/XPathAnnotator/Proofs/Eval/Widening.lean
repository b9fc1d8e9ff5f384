/-
**Options that widen the tests of names.**

Three options make the tests of names pass more: letters may differ in case, names without qualifier may stand for
elements of any namespace, or for those of HTML. A name test goes through a chain of decisions in which each of them
can turn a later one around; still no node is lost when options are added. Steps without predicates keep that, on
all axes, and so a location path selects with more options all that it selects with fewer.

* `SingleValued`, `singleValued_uriOf` — evaluations that may return one value only, as the resolving of qualifiers;
* `Environment.Widens` — environments that differ in these options only, where none is taken back;
* `Widens.accepts` — a node that passes a test still passes it;
* `subset_of_evalAt`, `Environment.Widens.subset_of_evalAll` — steps, and paths from more nodes;
* `path_selects_more` — **a path without predicates selects no less with more options**.
-/

import Mathlib
import XPathAnnotator.Proofs.Eval.VirtualRoot

namespace XPathAnnotator

open Evaluating Observing

variable {m : Type → Type} [Evaluating m] [Observing m]

/-! ### Evaluations with one value -/

/-- Whether an evaluation may return one value only. -/
def SingleValued {α : Type} (x : m α) : Prop := ∀ a b, Returns x a → Returns x b → a = b

theorem singleValued_pure {α : Type} (a : α) : SingleValued (pure a : m α) :=
  fun _ _ one other => (of_pure one).trans (of_pure other).symm

theorem singleValued_fail {α : Type} (error : EvalError) : SingleValued (fail error : m α) :=
  fun _ _ one _ => absurd one of_fail

theorem singleValued_bind {α β : Type} {x : m α} {next : α → m β} (first : SingleValued x)
    (then_ : ∀ a, SingleValued (next a)) : SingleValued (x >>= next) := by
  intro b b' one other
  obtain ⟨a, returned, one⟩ := of_bind one
  obtain ⟨a', returned', other⟩ := of_bind other
  obtain rfl := first a a' returned returned'
  exact then_ a b b' one other

theorem singleValued_scopeUri? (f : Forest) (qualifier : String) (node : Option Node) :
    SingleValued (scopeUri? f qualifier node : m (Option String)) := by
  unfold scopeUri?
  split
  · exact singleValued_pure _
  · split
    · exact singleValued_pure _
    · split
      next id _ =>
        have noted : SingleValued (noteScope id : m Unit) := fun _ _ _ _ => rfl
        exact singleValued_bind noted fun _ => singleValued_pure _
      next => exact singleValued_pure _

/-- A qualifier has one URI at a node, if any. -/
theorem singleValued_uriOf (env : Environment m) (qualifier : String) (node : Option Node) :
    SingleValued (env.uriOf qualifier node) := by
  unfold Environment.uriOf
  split
  · exact singleValued_pure _
  · dsimp only
    split
    · refine singleValued_bind (singleValued_scopeUri? env.forest qualifier node) fun found => ?_
      cases found with
      | none => exact singleValued_fail _
      | some uri => exact singleValued_pure uri
    · refine singleValued_bind (singleValued_pure none) fun found => ?_
      cases found with
      | none => exact singleValued_fail _
      | some uri => exact singleValued_pure uri

theorem singleValued_theNode (focus : Focus) : SingleValued (focus.theNode : m Node) := by
  unfold Focus.theNode
  split
  · exact singleValued_pure _
  · exact singleValued_fail _

/-! ### More options -/

/-- Whether an environment differs from another one only in the options for names, and has all those of it. -/
structure Environment.Widens (env wider : Environment m) : Prop where
  same : wider = { env with
    ignoresCase := wider.ignoresCase, anyNamespace := wider.anyNamespace, html := wider.html }
  ignoresCase : env.ignoresCase = true → wider.ignoresCase = true
  anyNamespace : env.anyNamespace = true → wider.anyNamespace = true
  html : env.html = true → wider.html = true

theorem isSameName_of_imp {strict loose : Bool} {a b : String} (imp : strict = true → loose = true)
    (same : isSameName strict a b = true) : isSameName loose a b = true := by
  cases loose with
  | true =>
    cases strict with
    | true => exact same
    | false =>
      obtain rfl := eq_of_beq same
      exact beq_self_eq_true _
  | false =>
    cases strict with
    | true => exact absurd (imp rfl) Bool.false_ne_true
    | false => exact same

namespace Environment.Widens

variable {env wider : Environment m} (widens : env.Widens wider)

include widens

omit [Evaluating m] [Observing m] in
theorem forest_eq : wider.forest = env.forest := by
  rw [widens.same]

omit [Evaluating m] [Observing m] in
theorem virtualRoot_eq : wider.virtualRoot = env.virtualRoot := by
  rw [widens.same]

omit [Observing m] in
theorem uriOf_eq (qualifier : String) (node : Option Node) : wider.uriOf qualifier node = env.uriOf qualifier node := by
  rw [widens.same]
  rfl

omit [Evaluating m] [Observing m] in
/-- **Elements**: with HTML in use the case of letters never counts for the names for which it is asked. -/
theorem acceptsElement {name : String} {n : Node} (accepted : env.acceptsElement name n = true) :
    wider.acceptsElement name n = true := by
  unfold Environment.acceptsElement at accepted ⊢
  simp only [widens.forest_eq] at accepted ⊢
  generalize env.forest.uri n = uri at accepted ⊢
  generalize env.forest.localName n = localName at accepted ⊢
  have loosened : isSameName env.ignoresCase localName name = true → isSameName true localName name = true :=
    isSameName_of_imp fun _ => rfl
  by_cases html : env.html = true ∧ (uri == "" || uri == Name.xhtmlUri) = true
  · have widerHtml : (wider.html && (uri == "" || uri == Name.xhtmlUri)) = true := by
      rw [widens.html html.1, html.2, Bool.and_self]
    rw [if_pos (by rw [html.1, html.2, Bool.and_self])] at accepted
    rw [if_pos widerHtml]
    exact accepted
  · rw [if_neg fun both => html ((Bool.and_eq_true _ _).mp both), Bool.and_eq_true] at accepted
    obtain ⟨inScope, sameName⟩ := accepted
    split
    · exact loosened sameName
    · rw [Bool.and_eq_true]
      refine ⟨?_, isSameName_of_imp widens.ignoresCase sameName⟩
      rcases Bool.or_eq_true _ _ |>.mp inScope with empty | any
      · rw [empty, Bool.true_or]
      · rw [widens.anyNamespace any, Bool.or_true]

/-- A node that passes the test of a name passes it with more options. -/
theorem acceptsName {kind : NodeKind} {name : Name.QName} {start n : Node} {answer : Bool}
    (accepted : Returns (env.acceptsName kind name start n) true)
    (again : Returns (wider.acceptsName kind name start n) answer) : answer = true := by
  obtain ⟨qualifier, localPart⟩ := name
  have sameName : ∀ a b, isSameName env.ignoresCase a b = true → isSameName wider.ignoresCase a b = true :=
    fun a b => isSameName_of_imp widens.ignoresCase
  unfold Environment.acceptsName at accepted again
  rw [widens.forest_eq] at again
  cases qualifier with
  | some qualifier =>
    by_cases namespaces : kind = .namespace
    · subst namespaces
      rw [of_pure again]
      exact (of_pure accepted).symm
    · have resolves : ∃ uri uri', Returns (env.uriOf qualifier (some start)) uri ∧
          Returns (wider.uriOf qualifier (some start)) uri' ∧
          true = (env.forest.uri n == uri && isSameName env.ignoresCase (env.forest.localName n) localPart) ∧
          answer = (env.forest.uri n == uri' && isSameName wider.ignoresCase (env.forest.localName n) localPart) := by
        cases kind
        case «namespace» => exact absurd rfl namespaces
        all_goals
          obtain ⟨uri, resolved, accepted⟩ := of_bind accepted
          obtain ⟨uri', resolved', again⟩ := of_bind again
          exact ⟨uri, uri', resolved, resolved', of_pure accepted, of_pure again⟩
      obtain ⟨uri, uri', resolved, resolved', accepted, rfl⟩ := resolves
      rw [widens.uriOf_eq] at resolved'
      obtain rfl := singleValued_uriOf env qualifier _ uri uri' resolved resolved'
      obtain ⟨inSpace, named⟩ := Bool.and_eq_true _ _ |>.mp accepted.symm
      rw [inSpace, sameName _ _ named, Bool.and_self]
  | none =>
    cases kind
    case «namespace» =>
      rw [of_pure again]
      exact (of_pure accepted).symm
    case «attribute» =>
      obtain ⟨inNone, named⟩ := Bool.and_eq_true _ _ |>.mp (of_pure accepted).symm
      rw [of_pure again, inNone, sameName _ _ named, Bool.and_self]
    all_goals
      rw [of_pure again]
      exact widens.acceptsElement (of_pure accepted).symm

/-- **A node that passes a test passes it with more options.** -/
theorem accepts {kind : NodeKind} {test : NodeTest} {start n : Node} {answer : Bool}
    (accepted : Returns (env.accepts kind test start n) true)
    (again : Returns (wider.accepts kind test start n) answer) : answer = true := by
  unfold Environment.accepts at accepted again
  rw [widens.forest_eq] at again
  cases test with
  | anyNameIn qualifier =>
    dsimp only at accepted again
    split at accepted
    · exact absurd (of_pure accepted) (by decide)
    next elsewhere =>
      rw [if_neg elsewhere, widens.uriOf_eq] at again
      obtain ⟨uri, resolved, accepted⟩ := of_bind accepted
      obtain ⟨uri', resolved', again⟩ := of_bind again
      obtain rfl := singleValued_uriOf env qualifier _ uri uri' resolved resolved'
      rw [of_pure again]
      exact (of_pure accepted).symm
  | name name =>
    dsimp only at accepted again
    split at accepted
    · exact absurd (of_pure accepted) (by decide)
    next ofKind =>
      rw [if_neg ofKind] at again
      exact widens.acceptsName accepted again
  | _ => exact (of_pure again).trans (of_pure accepted).symm

/-- What is selected of a list with fewer options is selected of it with more. -/
theorem subset_of_select {kind : NodeKind} {test : NodeTest} {start : Node} {nodes passed more : List Node}
    (selected : Returns (env.select kind test start nodes) passed)
    (selectedMore : Returns (wider.select kind test start nodes) more) : passed ⊆ more := by
  induction nodes generalizing passed more with
  | nil =>
    rw [Environment.select] at selected
    rw [of_pure selected]
    exact List.nil_subset more
  | cons n nodes ih =>
    rw [Environment.select] at selected selectedMore
    obtain ⟨accepted, tested, selected⟩ := of_bind selected
    obtain ⟨answer, testedMore, selectedMore⟩ := of_bind selectedMore
    cases accepted with
    | false =>
      rw [if_neg Bool.false_ne_true] at selected
      split at selectedMore
      · obtain ⟨rest, chosen, selectedMore⟩ := of_bind selectedMore
        rw [of_pure selectedMore]
        exact List.subset_cons_of_subset n (ih selected chosen)
      · exact ih selected selectedMore
    | true =>
      obtain rfl := widens.accepts tested testedMore
      rw [if_pos rfl] at selected selectedMore
      obtain ⟨rest, chosen, selected⟩ := of_bind selected
      obtain ⟨restMore, chosenMore, selectedMore⟩ := of_bind selectedMore
      rw [of_pure selected, of_pure selectedMore]
      exact List.cons_subset_cons n (ih chosen chosenMore)

/-! ### Steps -/

/-- A step without predicates gives, with more options, all that it gives with fewer. -/
theorem subset_of_evalAt {step : Step} (bare : step.predicates = []) {n : Node} {found more : List Node}
    (taken : Returns (step.evalAt env n) found) (takenMore : Returns (step.evalAt wider n) more) : found ⊆ more := by
  obtain ⟨axis, test, predicates⟩ := step
  obtain rfl : predicates = [] := bare
  rw [Step.evalAt] at taken takenMore
  obtain ⟨reached, walked, taken⟩ := of_bind taken
  obtain ⟨passed, chosen, taken⟩ := of_bind taken
  obtain ⟨reached', walked', takenMore⟩ := of_bind takenMore
  obtain ⟨passed', chosen', takenMore⟩ := of_bind takenMore
  rw [nodes_of_axisNodes walked] at chosen
  rw [nodes_of_axisNodes walked', widens.forest_eq, widens.virtualRoot_eq] at chosen'
  rw [of_pure taken, of_pure takenMore]
  exact widens.subset_of_select chosen chosen'

end Environment.Widens

/-- What a step gives from a node of a list is found from the list. -/
theorem subset_of_stepFromEach {step : Node → m (List Node)} {nodes : List Node} {found result : NodeSet}
    (taken : Returns (stepFromEach step found nodes) result) :
    found.inOrderOfAddition ⊆ result.inOrderOfAddition ∧
      ∀ n ∈ nodes, ∃ reached, Returns (step n) reached ∧ reached ⊆ result.inOrderOfAddition := by
  induction nodes generalizing found with
  | nil =>
    rw [stepFromEach] at taken
    rw [of_pure taken]
    exact ⟨List.Subset.refl _, fun n member => absurd member List.not_mem_nil⟩
  | cons n nodes ih =>
    rw [stepFromEach] at taken
    obtain ⟨reached, walked, taken⟩ := of_bind taken
    obtain ⟨before, each⟩ := ih taken
    have added : ∀ k, k ∈ reached ∨ k ∈ found.inOrderOfAddition → k ∈ result.inOrderOfAddition :=
      fun k either => before ((NodeSet.mem_addAll found reached k).mpr either)
    refine ⟨fun k met => added k (.inr met), fun n' member => ?_⟩
    rcases List.mem_cons.mp member with rfl | later
    · exact ⟨reached, walked, fun k met => added k (.inl met)⟩
    · exact each n' later

/-- **Steps without predicates** select, with more options and from more nodes, all that they select with fewer. -/
theorem Environment.Widens.subset_of_evalAll {env wider : Environment m} (widens : env.Widens wider)
    {steps : List Step} (bare : ∀ step ∈ steps, step.predicates = []) {nodes others found more : List Node}
    (start : nodes ⊆ others) (selected : Returns (Step.evalAll env steps nodes) found)
    (selectedMore : Returns (Step.evalAll wider steps others) more) : found ⊆ more := by
  induction steps generalizing nodes others with
  | nil =>
    rw [Step.evalAll] at selected selectedMore
    rw [of_pure selected, of_pure selectedMore]
    exact start
  | cons step steps ih =>
    rw [Step.evalAll] at selected selectedMore
    obtain ⟨set, walked, selected⟩ := of_bind selected
    obtain ⟨setMore, walkedMore, selectedMore⟩ := of_bind selectedMore
    refine ih (fun s member => bare s (List.mem_cons_of_mem _ member)) ?_ selected selectedMore
    intro k met
    rcases mem_of_stepFromEach walked met with none | ⟨n, member, reached, given, among⟩
    · exact absurd none List.not_mem_nil
    · obtain ⟨reachedMore, givenMore, kept⟩ := (subset_of_stepFromEach walkedMore).2 n (start member)
      exact kept (widens.subset_of_evalAt (bare step List.mem_cons_self) given givenMore among)

/-! ### Location paths -/

/-- **A path without predicates selects no less with more options.** Of two environments that differ only in the
options for names, let the second have all those of the first. Where the steps of a path have values from a list of
nodes in both, and where the path itself has values at a focus in both, every node that is selected in the first is
selected in the second. -/
theorem path_selects_more {env wider : Environment m} (widens : env.Widens wider) {steps : List Step}
    (bare : ∀ step ∈ steps, step.predicates = []) :
    (∀ nodes found more, Returns (Step.evalAll env steps nodes) found → Returns (Step.evalAll wider steps nodes) more →
      ∀ n ∈ found, n ∈ more) ∧
    ∀ absolute focus value valueMore, Returns ((Expr.path absolute steps).evalIn env focus) value →
      Returns ((Expr.path absolute steps).evalIn wider focus) valueMore →
      ∃ set setMore, value = .nodes set ∧ valueMore = .nodes setMore ∧
        ∀ n ∈ set.inOrderOfAddition, n ∈ setMore.inOrderOfAddition := by
  refine ⟨fun nodes found more selected selectedMore n met =>
    widens.subset_of_evalAll bare (List.Subset.refl nodes) selected selectedMore met, ?_⟩
  intro absolute focus value valueMore returned returnedMore
  rw [Expr.evalIn] at returned returnedMore
  obtain ⟨start, at_, walked⟩ := of_bind returned
  obtain ⟨start', at_', walkedMore⟩ := of_bind returnedMore
  obtain rfl := singleValued_theNode focus start start' at_ at_'
  obtain ⟨found, selected, returned⟩ := of_bind walked
  obtain ⟨more, selectedMore, returnedMore⟩ := of_bind walkedMore
  rw [widens.forest_eq, widens.virtualRoot_eq] at selectedMore
  refine ⟨_, _, of_pure returned, of_pure returnedMore, fun n met => ?_⟩
  rw [NodeSet.mem_ofList] at met ⊢
  exact widens.subset_of_evalAll bare (List.Subset.refl _) selected selectedMore met

/-- A page with a paragraph in the namespace of HTML, written with a capital letter, and one in none. -/
def page : Xml.Document where
  before := []
  root := .mk ⟨⟨none, "body"⟩, Name.xhtmlUri⟩ [("", Name.xhtmlUri)] [] ""
    [(.element (.mk ⟨⟨none, "P"⟩, Name.xhtmlUri⟩ [] [] "" []), ""),
      (.element (.mk ⟨⟨none, "p"⟩, ""⟩ [("", "")] [] "" []), "")]
  after := []

/-- An environment with the page, in which elements of HTML may be meant by names without qualifier. -/
def pageEnvironment (html : Bool) : Environment (Except EvalError) :=
  { noteEnvironment with forest := (Forest.empty.build .parsed none page).1, html }

/-- The paragraphs among the descendants. -/
def paragraphs : List Step := [.descendants, .mk .child (.name ⟨none, "p"⟩) []]

theorem path_selects_more_page : (pageEnvironment false).Widens (pageEnvironment true) ∧
    (∀ step ∈ paragraphs, step.predicates = []) ∧ ∃ set setMore,
      (Expr.path true paragraphs).evalIn (pageEnvironment false) (Focus.start (some (.item 2))) = .ok (.nodes set) ∧
      (Expr.path true paragraphs).evalIn (pageEnvironment true) (Focus.start (some (.item 2))) = .ok (.nodes setMore) ∧
      set.inOrderOfAddition = [.item 3] ∧ setMore.inOrderOfAddition = [.item 2, .item 3] ∧
      ∀ n ∈ set.inOrderOfAddition, n ∈ setMore.inOrderOfAddition := by
  have widens : (pageEnvironment false).Widens (pageEnvironment true) := ⟨rfl, id, id, fun _ => rfl⟩
  have bare : ∀ step ∈ paragraphs, step.predicates = [] := by
    rintro step (_ | ⟨_, _ | ⟨_, ⟨⟩⟩⟩) <;> rfl
  obtain ⟨set, returned, listed⟩ := @nodesOf?_eq_some
    ((Expr.path true paragraphs).evalIn (pageEnvironment false) (Focus.start (some (.item 2)))) [.item 3]
    (by decide +kernel)
  obtain ⟨setMore, returnedMore, listedMore⟩ := @nodesOf?_eq_some
    ((Expr.path true paragraphs).evalIn (pageEnvironment true) (Focus.start (some (.item 2)))) [.item 2, .item 3]
    (by decide +kernel)
  obtain ⟨_, _, same, sameMore, kept⟩ := (path_selects_more widens bare).2 true _ _ _ returned returnedMore
  obtain rfl := Value.nodes.inj same
  obtain rfl := Value.nodes.inj sameMore
  exact ⟨widens, bare, set, setMore, returned, returnedMore, listed, listedMore, kept⟩

end XPathAnnotator
