/-
**Expressions of matchers that never fail.**

The expressions of a matcher are evaluated on every item of every report, so it matters which of them can fail at
all. A path of brief steps never does, nor does a call of a function for matchers with the arguments that it expects,
as long as its regular expression is one.

* `Forest.isNamed`, `Forest.hasChild` — elements of a name without namespace, and nodes with a child of that name;
* `truth_childrenNamed` — a path to the children of a name is true of the nodes that have one;
* `Expr.Sure` — expressions that never fail; `Expr.Sure.brief` — they are brief;
* `Expr.Sure.evalIn` — they have a value at every node of every forest.
-/

import Mathlib
import XPathAnnotator.Proofs.Eval.Proximity
import XPathAnnotator.Proofs.Eval.Agreement
import XPathAnnotator.Proofs.Expr.Abbreviations
import XPathAnnotator.Report.Item

namespace XPathAnnotator

/-- Whether a node is an element of a name in no namespace. -/
def Forest.isNamed (f : Forest) (name : String) (n : Node) : Bool :=
  f.isElement n && (f.uri n == "" && f.localName n == name)

/-- Whether a node has a child that is an element of a name in no namespace. -/
def Forest.hasChild (f : Forest) (name : String) (n : Node) : Bool := (f.children n).any (f.isNamed name)

/-- The path to the children of a name. -/
def Expr.childrenNamed (name : String) : Expr := .path false [childNamed name]

/-- The path to all elements of a name. -/
def Expr.anywhere (name : String) : Expr := .path true [.descendants, childNamed name]

/-! ### Steps -/

section Steps

variable {env : Environment (Except EvalError)} {kind : NodeKind} {test : NodeTest} {start : Node}

/-- A test that never fails leaves the nodes that pass it. -/
theorem select_eq_filter {passes : Node → Bool} (accepts : ∀ n, env.accepts kind test start n = .ok (passes n))
    (nodes : List Node) : env.select kind test start nodes = .ok (nodes.filter passes) := by
  induction nodes with
  | nil => rfl
  | cons n nodes ih =>
    rw [Environment.select, accepts, ih, List.filter_cons]
    cases passes n with
    | true => rfl
    | false => rfl

/-- A step without predicates whose test never fails. -/
theorem evalAt_eq_filter {axis : Axis} {n : Node} {passes : Node → Bool}
    (accepts : ∀ m, env.accepts axis.principalKind test n m = .ok (passes m)) :
    (Step.mk axis test []).evalAt env n = .ok ((axis.nodes env.forest env.virtualRoot n).filter passes) := by
  rw [evalAt_eq, Step.evalFrom, select_eq_filter accepts]
  rfl

variable {functions : List (String × Function (Except EvalError))} {f : Forest}

/-- A test of a name on the axes of elements. -/
theorem accepts_name (name : String) (start n : Node) :
    (ReportItem.environment f functions).accepts .element (.name ⟨none, name⟩) start n =
      .ok (f.isNamed name n) := by
  unfold Environment.accepts Forest.isNamed Forest.isElement
  by_cases element : f.kind n = .element
  · simp [ReportItem.environment, element, Environment.acceptsName, Environment.acceptsElement, isSameName, pure,
      Except.pure]
  · simp [ReportItem.environment, element, pure, Except.pure]

variable (functions f)

theorem Step.Brief.accepts {axis : Axis} {predicates : List Expr} (isBrief : (Step.mk axis test predicates).Brief)
    (start n : Node) :
    ∃ passed, (ReportItem.environment f functions).accepts axis.principalKind test start n = .ok passed := by
  cases isBrief with
  | toChild => exact ⟨_, accepts_name _ start n⟩
  | toAttribute =>
    rw [Environment.accepts]
    split
    · exact ⟨false, rfl⟩
    · exact ⟨_, rfl⟩
  | toParent => exact ⟨_, accepts_name _ start n⟩
  | toText => exact ⟨_, rfl⟩

/-- A brief step never fails. -/
theorem Step.Brief.evalAt {step : Step} (isBrief : step.Brief) (n : Node) :
    ∃ found, step.evalAt (ReportItem.environment f functions) n = .ok found := by
  obtain ⟨axis, test, predicates⟩ := step
  choose passes accepts using fun m => isBrief.accepts functions f n m
  have none : predicates = [] := by
    cases isBrief with
    | toChild => rfl
    | toAttribute => rfl
    | toParent => rfl
    | toText => rfl
  subst none
  exact ⟨_, evalAt_eq_filter accepts⟩

/-- Neither do several of them, one after the other. -/
theorem exists_evalAll {steps : List Step} (all : ∀ step ∈ steps, step.Brief) (nodes : List Node) :
    ∃ found, Step.evalAll (ReportItem.environment f functions) steps nodes = .ok found := by
  induction steps generalizing nodes with
  | nil => exact ⟨nodes, by rw [Step.evalAll]; rfl⟩
  | cons step steps ih =>
    have fine := fun n (_ : n ∈ nodes) => (all step List.mem_cons_self).evalAt functions f n
    obtain ⟨reached, walked, -⟩ := stepFromEach_eq_ok .empty fine
    obtain ⟨found, result⟩ := ih (fun s member => all s (List.mem_cons_of_mem _ member))
      (NodeSet.addAll .empty reached).inOrderOfAddition
    refine ⟨found, ?_⟩
    rw [Step.evalAll, walked]
    exact result

/-- A path of brief steps never fails. -/
theorem evalIn_brief_path {steps : List Step} (all : ∀ step ∈ steps, step.Brief) {focus : Focus} {n : Node}
    (here : focus.node = some n) :
    ∃ set, (Expr.path false steps).evalIn (ReportItem.environment f functions) focus = .ok (.nodes set) := by
  obtain ⟨found, walked⟩ := exists_evalAll functions f all [n]
  refine ⟨.ofList found, ?_⟩
  have node : (focus.theNode : Except EvalError Node) = .ok n := by rw [Focus.theNode, here]; rfl
  rw [Expr.evalIn, node]
  change (Step.evalAll (ReportItem.environment f functions) steps [n] >>= fun found => _) = _
  rw [walked]
  rfl

/-- A node-set is true if it has a node. -/
theorem toTruth_nodes (s : NodeSet) : (Value.nodes s).toTruth = true ↔ ∃ n, n ∈ s.inOrderOfAddition := by
  have size : s.size = s.inOrderOfAddition.length := Array.length_toList.symm
  rw [Value.toTruth, bne_iff_ne, size, Ne, List.length_eq_zero_iff, List.eq_nil_iff_forall_not_mem, not_forall_not]

/-- **A path to the children of a name** is true of the nodes that have one. -/
theorem truth_childrenNamed (name : String) {focus : Focus} {n : Node} (here : focus.node = some n) :
    ∃ value, (Expr.childrenNamed name).evalIn (ReportItem.environment f functions) focus = .ok value ∧
      value.toTruth = f.hasChild name n := by
  have walked : (Expr.childNamed name).evalAt (ReportItem.environment f functions) n =
      .ok ((f.children n).toList.filter (f.isNamed name)) := evalAt_eq_filter fun m => accepts_name name n m
  have node : (focus.theNode : Except EvalError Node) = .ok n := by rw [Focus.theNode, here]; rfl
  refine ⟨.nodes (.ofList (NodeSet.ofList ((f.children n).toList.filter (f.isNamed name))).inOrderOfAddition), ?_, ?_⟩
  · rw [Expr.childrenNamed, Expr.evalIn, node]
    change (Step.evalAll (ReportItem.environment f functions) [Expr.childNamed name] [n] >>= fun found => _) = _
    rw [Step.evalAll, stepFromEach, walked]
    change (Step.evalAll (ReportItem.environment f functions) [] _ >>= fun found => _) = _
    rw [Step.evalAll]
    rfl
  · rw [Bool.eq_iff_iff, toTruth_nodes, Forest.hasChild, Array.any_eq_true']
    simp only [NodeSet.mem_ofList, List.mem_filter, Array.mem_toList_iff]

end Steps

/-! ### Calls -/

/-- The functions for matchers are found by their titles. -/
theorem resolve_reportFunction (function : ReportFunction) :
    resolveFunction? (.table ReportFunction.table) function.title "" =
      some (function.call : Function (Except EvalError)) := by
  cases function <;> rfl

/-- So are the core functions, none of which is replaced. -/
theorem resolve_coreFunction (function : CoreFunction) :
    resolveFunction? (.table ReportFunction.table) function.title "" =
      some (function.call : Function (Except EvalError)) := by
  cases function <;> rfl

section Calls

variable {f : Forest} {focus : Focus}

/-- A call of a function that is found by its title. -/
theorem evalIn_call {functions : List (String × Function (Except EvalError))} {title : String}
    {function : Function (Except EvalError)} (found : resolveFunction? (.table functions) title "" = some function)
    (es : List Expr) :
    (Expr.call ⟨none, title⟩ es).evalIn (ReportItem.environment f functions) focus =
      function f focus (Expr.arguments (ReportItem.environment f functions) es) := by
  have named : (ReportItem.environment f functions).functionNamed? title "" = some function := found
  rw [Expr.evalIn, Environment.uriOfName]
  simp only [pure, bind, Except.pure, Except.bind, named]
  rfl

variable {a b c : Argument (Except EvalError)} {rest : List (Argument (Except EvalError))} {x y : Value}

theorem call_not (value : a.value focus = .ok x) :
    CoreFunction.not.call f focus [a] = .ok (.truth (!x.toTruth)) := by
  simp [CoreFunction.call, value, bind, Except.bind, pure, Except.pure]

theorem exists_textsOf (all : ∀ a ∈ rest, ∃ x, a.value focus = .ok x) :
    ∃ texts, CoreFunction.textsOf f focus rest = .ok texts := by
  induction rest with
  | nil => exact ⟨[], rfl⟩
  | cons a rest ih =>
    obtain ⟨x, value⟩ := all a List.mem_cons_self
    obtain ⟨texts, values⟩ := ih fun a member => all a (List.mem_cons_of_mem _ member)
    exact ⟨x.toText f :: texts, by
      simp [CoreFunction.textsOf, CoreFunction.textOf, value, values, bind, Except.bind, pure, Except.pure]⟩

theorem exists_call_concat (all : ∀ e ∈ a :: b :: rest, ∃ x, e.value focus = .ok x) :
    ∃ value, CoreFunction.concat.call f focus (a :: b :: rest) = .ok value := by
  obtain ⟨texts, values⟩ := exists_textsOf (f := f) all
  exact ⟨.text (String.join texts), by simp [CoreFunction.call, values, bind, Except.bind, pure, Except.pure]⟩

theorem call_contains (value : a.value focus = .ok x) (other : b.value focus = .ok y) :
    CoreFunction.contains.call f focus [a, b] = .ok (.truth (Text.containsText (x.toText f) (y.toText f))) := by
  simp [CoreFunction.call, CoreFunction.textOf, value, other, bind, Except.bind, pure, Except.pure]

theorem call_normalize (value : a.value focus = .ok x) :
    ReportFunction.normalize.call f focus [a] = .ok (.text (Text.normalizeLines (x.toText f))) := by
  simp [ReportFunction.call, ReportFunction.values, value, bind, Except.bind, pure, Except.pure]

theorem call_choose (condition : a.value focus = .ok x) :
    ReportFunction.choose.call f focus [a, b, c] = if x.toTruth then b.value focus else c.value focus := by
  simp [ReportFunction.call, condition, bind, Except.bind]

theorem exists_replaceFirst {pattern : String} (compiles : (Pattern.compile pattern).isOk = true)
    (text template : String) : ∃ result, ReportFunction.replaceFirst text pattern template = .ok result := by
  unfold ReportFunction.replaceFirst
  cases compiled : Pattern.compile pattern with
  | error e =>
    rw [compiled] at compiles
    cases compiles
  | ok found =>
    simp only [bind, Except.bind]
    split
    · exact ⟨_, rfl⟩
    · exact ⟨_, rfl⟩

theorem exists_call_replace (value : a.value focus = .ok x) {pattern : String}
    (given : b.value focus = .ok (.text pattern)) (compiles : (Pattern.compile pattern).isOk = true)
    (template : c.value focus = .ok y) : ∃ value, ReportFunction.replace.call f focus [a, b, c] = .ok value := by
  obtain ⟨result, found⟩ := exists_replaceFirst compiles (x.toText f) (y.toText f)
  refine ⟨.text result, ?_⟩
  have text : (Value.text pattern).toText f = pattern := rfl
  simp [ReportFunction.call, ReportFunction.values, value, given, template, text, found, ReportFunction.textValue, bind,
    Except.bind, pure, Except.pure]

theorem exists_groupOfFirst {pattern : String} (compiles : (Pattern.compile pattern).isOk = true) (text : String) :
    ∃ group, ReportFunction.groupOfFirst text pattern = .ok group := by
  unfold ReportFunction.groupOfFirst
  cases compiled : Pattern.compile pattern with
  | error e =>
    rw [compiled] at compiles
    cases compiles
  | ok found =>
    simp only [bind, Except.bind]
    split
    · exact ⟨_, rfl⟩
    · exact ⟨_, rfl⟩

theorem exists_call_firstGroup (value : a.value focus = .ok x) {pattern : String}
    (given : b.value focus = .ok (.text pattern)) (compiles : (Pattern.compile pattern).isOk = true) :
    ∃ value, ReportFunction.firstGroup.call f focus [a, b] = .ok value := by
  obtain ⟨group, found⟩ := exists_groupOfFirst compiles (x.toText f)
  refine ⟨.text group, ?_⟩
  have text : (Value.text pattern).toText f = pattern := rfl
  simp [ReportFunction.call, ReportFunction.values, value, given, text, found, ReportFunction.textValue, bind,
    Except.bind, pure, Except.pure]

end Calls

/-! ### Expressions -/

namespace Expr

/-- An expression that never fails: a text, a path of brief steps, or a call of a function for matchers with the
arguments that it expects. A regular expression must be a literal. -/
inductive Sure : Expr → Prop
  | text (value : String) : Sure (.text value)
  | path {steps : List Step} (nonempty : steps ≠ []) (all : ∀ step ∈ steps, step.Brief) : Sure (.path false steps)
  | negation {e : Expr} (inner : Sure e) : Sure (.call ⟨none, CoreFunction.not.title⟩ [e])
  | joining {first second : Expr} {es : List Expr} (all : ∀ e ∈ first :: second :: es, Sure e) :
    Sure (.call ⟨none, CoreFunction.concat.title⟩ (first :: second :: es))
  | search {e part : Expr} (inner : Sure e) (searched : Sure part) :
    Sure (.call ⟨none, CoreFunction.contains.title⟩ [e, part])
  | tidying {e : Expr} (inner : Sure e) : Sure (.call ⟨none, ReportFunction.normalize.title⟩ [e])
  | choice {condition yes no : Expr} (tested : Sure condition) (whenTrue : Sure yes) (whenFalse : Sure no) :
    Sure (.call ⟨none, ReportFunction.choose.title⟩ [condition, yes, no])
  | group {e : Expr} {pattern : String} (inner : Sure e) (compiles : (Pattern.compile pattern).isOk = true) :
    Sure (.call ⟨none, ReportFunction.firstGroup.title⟩ [e, .text pattern])
  | replacement {e template : Expr} {pattern : String} (inner : Sure e)
    (compiles : (Pattern.compile pattern).isOk = true) (new : Sure template) :
    Sure (.call ⟨none, ReportFunction.replace.title⟩ [e, .text pattern, template])

/-- Such an expression is brief. -/
theorem Sure.brief {e : Expr} (sure : e.Sure) : e.Brief := by
  induction sure with
  | text value => exact .text value
  | path nonempty all => exact .path nonempty all
  | negation _ ih => exact .call (by decide) (List.cons_ne_nil _ _) (by simpa using ih)
  | joining _ ih => exact .call (by decide) (List.cons_ne_nil _ _) ih
  | search _ _ inner searched => exact .call (by decide) (List.cons_ne_nil _ _) (by simpa using ⟨inner, searched⟩)
  | tidying _ ih => exact .call (by decide) (List.cons_ne_nil _ _) (by simpa using ih)
  | choice _ _ _ tested whenTrue whenFalse =>
    exact .call (by decide) (List.cons_ne_nil _ _) (by simpa using ⟨tested, whenTrue, whenFalse⟩)
  | group _ _ ih => exact .call (by decide) (List.cons_ne_nil _ _) (by simpa using ⟨ih, .text _⟩)
  | replacement _ _ _ inner new =>
    exact .call (by decide) (List.cons_ne_nil _ _) (by simpa using ⟨inner, .text _, new⟩)

theorem evalIn_text (env : Environment (Except EvalError)) (value : String) (focus : Focus) :
    (Expr.text value).evalIn env focus = .ok (.text value) := by
  rw [Expr.evalIn]
  rfl

/-- The values of arguments that never fail. -/
theorem exists_arguments {env : Environment (Except EvalError)} {focus : Focus} {es : List Expr}
    (all : ∀ e ∈ es, ∃ x, e.evalIn env focus = .ok x) : ∀ a ∈ Expr.arguments env es, ∃ x, a.value focus = .ok x := by
  induction es with
  | nil => exact fun a member => absurd member (by rw [Expr.arguments]; exact List.not_mem_nil)
  | cons e es ih =>
    rw [Expr.arguments]
    exact List.forall_mem_cons.mpr ⟨all e List.mem_cons_self, ih fun e member => all e (List.mem_cons_of_mem _ member)⟩

/-- **Such an expression has a value** at every node of every forest. -/
theorem Sure.evalIn {e : Expr} (sure : e.Sure) (f : Forest) {focus : Focus} {n : Node} (here : focus.node = some n) :
    ∃ x, e.evalIn (ReportItem.environment f ReportFunction.table) focus = .ok x := by
  induction sure with
  | text value => exact ⟨.text value, evalIn_text _ value focus⟩
  | path _ all =>
    obtain ⟨set, value⟩ := evalIn_brief_path ReportFunction.table f all here
    exact ⟨.nodes set, value⟩
  | negation _ ih =>
    obtain ⟨x, value⟩ := ih
    exact ⟨_, (evalIn_call (resolve_coreFunction .not) _).trans (call_not value)⟩
  | joining _ ih =>
    rw [evalIn_call (resolve_coreFunction .concat)]
    have values := exists_arguments ih
    rw [Expr.arguments, Expr.arguments] at values ⊢
    exact exists_call_concat values
  | search _ _ inner searched =>
    obtain ⟨x, value⟩ := inner
    obtain ⟨y, other⟩ := searched
    exact ⟨_, (evalIn_call (resolve_coreFunction .contains) _).trans (call_contains value other)⟩
  | tidying _ ih =>
    obtain ⟨x, value⟩ := ih
    exact ⟨_, (evalIn_call (resolve_reportFunction .normalize) _).trans (call_normalize value)⟩
  | choice _ _ _ tested whenTrue whenFalse =>
    obtain ⟨x, value⟩ := tested
    simp only [evalIn_call (resolve_reportFunction .choose), Expr.arguments]
    rw [call_choose value]
    split
    · exact whenTrue
    · exact whenFalse
  | @group _ pattern _ compiles ih =>
    obtain ⟨x, value⟩ := ih
    have given := evalIn_text (ReportItem.environment f ReportFunction.table) pattern focus
    simp only [evalIn_call (resolve_reportFunction .firstGroup), Expr.arguments]
    exact exists_call_firstGroup value given compiles
  | @replacement _ _ pattern _ compiles _ inner new =>
    obtain ⟨x, value⟩ := inner
    obtain ⟨y, template⟩ := new
    have given := evalIn_text (ReportItem.environment f ReportFunction.table) pattern focus
    simp only [evalIn_call (resolve_reportFunction .replace), Expr.arguments]
    exact exists_call_replace value given compiles template

end Expr

end XPathAnnotator
