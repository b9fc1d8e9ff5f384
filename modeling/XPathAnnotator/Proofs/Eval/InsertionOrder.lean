/-
**Insertion order never matters.**

Two contexts may give the same node-sets with their nodes in different orders. An expression that calls no function
but the core functions other than `sum` cannot tell these contexts apart: it fails in both or in none, and returns
values that are equal or node-sets with the same members.

* `Expr.calledNames` — the names of the functions that an expression calls;
* `Given.Alike` — what two contexts may give for one variable;
* `agree_evalIn` — the induction over expressions and steps;
* `evalIn_alike` — the result for forests that can be made.
-/

import Mathlib
import XPathAnnotator.Proofs.Eval.Agreement
import XPathAnnotator.Proofs.Eval.Proximity

namespace XPathAnnotator

open Evaluating XPathAnnotator.Name

mutual

/-- The names of the functions that an expression calls. -/
def Expr.calledNames : Expr → List QName
  | .text _ | .number _ | .reference _ => []
  | .negate operand => operand.calledNames
  | .binary _ left right => left.calledNames ++ right.calledNames
  | .path _ steps => Step.namesOfAll steps
  | .filter base predicates steps => base.calledNames ++ Expr.namesOfAll predicates ++ Step.namesOfAll steps
  | .call function arguments => function :: Expr.namesOfAll arguments

/-- The names of the functions that expressions call. -/
def Expr.namesOfAll : List Expr → List QName
  | [] => []
  | e :: rest => e.calledNames ++ Expr.namesOfAll rest

/-- The names of the functions that the predicates of a step call. -/
def Step.calledNames : Step → List QName
  | .mk _ _ predicates => Expr.namesOfAll predicates

/-- The names of the functions that the predicates of steps call. -/
def Step.namesOfAll : List Step → List QName
  | [] => []
  | step :: rest => step.calledNames ++ Step.namesOfAll rest

end

/-- Whether a name stands for no function but a core function other than `sum`. -/
def CallsCore (env : Environment (Except EvalError)) (name : QName) : Prop :=
  ∀ (uri : String) (call : Function (Except EvalError)), (name.qualifier = none → uri = "") →
    env.functionNamed? name.localPart uri = some call →
      ∃ function : CoreFunction, function ≠ .sum ∧ call = function.call

/-- What two contexts may give for one variable: nothing, the same data that are no nodes, or nodes of a tree that
make node-sets with the same members. -/
inductive Given.Alike (f : Forest) (r : Node) : Option Given → Option Given → Prop
  | absent : Alike f r none none
  | same {given : Given} (other : ∀ set, given.toValue f ≠ .ok (.nodes set)) : Alike f r (some given) (some given)
  | nodes {given again : Given} {s t : NodeSet} (first : given.toValue f = .ok (.nodes s))
      (second : again.toValue f = .ok (.nodes t)) (alike : s.Alike f r t) : Alike f r (some given) (some again)

/-- The context with other variables. -/
def Environment.withVariables (env : Environment (Except EvalError)) (others : String → String → Option Given) :
    Environment (Except EvalError) :=
  { env with variableNamed? := others }

@[simp]
theorem Environment.withVariables_forest (env : Environment (Except EvalError))
    (others : String → String → Option Given) : (env.withVariables others).forest = env.forest := rfl

@[simp]
theorem Environment.withVariables_virtualRoot (env : Environment (Except EvalError))
    (others : String → String → Option Given) : (env.withVariables others).virtualRoot = env.virtualRoot := rfl

@[simp]
theorem Environment.withVariables_functionNamed? (env : Environment (Except EvalError))
    (others : String → String → Option Given) : (env.withVariables others).functionNamed? = env.functionNamed? := rfl

@[simp]
theorem Environment.withVariables_variableNamed? (env : Environment (Except EvalError))
    (others : String → String → Option Given) : (env.withVariables others).variableNamed? = others := rfl

/-- Two contexts that differ in the order of the nodes of their variables, all nodes being of one tree. -/
structure Reordered (env : Environment (Except EvalError)) (others : String → String → Option Given) (r : Node) :
    Prop where
  linked : env.forest.Linked
  keyed : Balanced.Keyed env.forest.order env.forest.address (env.forest.InTree r)
  rooted : ∀ v, env.virtualRoot = some v → env.forest.InTree r v
  given : ∀ localName uri, Given.Alike env.forest r (env.variableNamed? localName uri) (others localName uri)

/-- Two lists of the same nodes of a tree. -/
def SameNodes (f : Forest) (r : Node) (nodes others : List Node) : Prop :=
  (∀ n, n ∈ nodes ↔ n ∈ others) ∧ ∀ n ∈ nodes, f.InTree r n

variable {env : Environment (Except EvalError)} {others : String → String → Option Given} {r : Node}

/-- Evaluations with equal results, and what the first one returned. -/
theorem agree_eq_returned {α : Type} {x y : Except EvalError α} (agree : Agree Eq x y) :
    Agree (fun a b => a = b ∧ x = .ok a) x y := by
  cases agree with
  | returned same => exact .returned ⟨same, rfl⟩
  | failed error other => exact .failed error other

theorem agree_theNodes {f : Forest} {left right : Value} (alike : left.Alike f r right) :
    Agree (NodeSet.Alike f r) (left.theNodes : Except EvalError NodeSet) right.theNodes := by
  cases alike with
  | nodes alike => exact agree_pure alike
  | plain plain =>
    cases left with
    | nodes set => exact absurd plain (Option.some_ne_none _)
    | _ => exact agree_fail _ _

theorem select_withVariables (kind : NodeKind) (test : NodeTest) (start : Node) (nodes : List Node) :
    (env.withVariables others).select kind test start nodes = env.select kind test start nodes := by
  induction nodes with
  | nil => rfl
  | cons n nodes ih =>
    rw [Environment.select, Environment.select, ih]
    rfl

theorem Value.Alike.keeps_eq {f : Forest} {left right : Value} (alike : left.Alike f r right) (position : Int) :
    left.keeps position = right.keeps position := by
  cases alike with
  | plain => rfl
  | nodes alike => exact (Value.Alike.nodes alike).toTruth_eq

theorem agree_apply (keyed : Balanced.Keyed env.forest.order env.forest.address (env.forest.InTree r))
    {operator : Operator} (other : operator ≠ .union) {left right first second : Value}
    (one : left.Alike env.forest r right) (two : first.Alike env.forest r second) :
    (operator.apply env.forest left first).Alike env.forest r (operator.apply env.forest right second) := by
  have same : operator.apply env.forest left first = operator.apply env.forest right second := by
    cases operator with
    | union => exact absurd rfl other
    | or | and => rw [Operator.apply, Operator.apply, one.toTruth_eq, two.toTruth_eq]
    | plus | minus | multiply | div | mod =>
      rw [Operator.apply, Operator.apply, one.toNumber_eq keyed, two.toNumber_eq keyed]
    | _ => rw [Operator.apply, Operator.apply, one.compare_eq _ two]
  rw [same]
  exact .plain (nodes?_apply env.forest other right second)

section Reordered

variable (reordered : Reordered env others r)

include reordered

theorem Reordered.inTree_evalAt {step : Step} {n : Node} (inTree : env.forest.InTree r n) {found : List Node}
    (taken : step.evalAt env n = .ok found) : ∀ m ∈ found, env.forest.InTree r m := by
  obtain ⟨axis, test, predicates⟩ := step
  rw [evalAt_eq] at taken
  obtain ⟨passed, selected, taken⟩ := exists_of_bind_eq_ok taken
  have inPassed : ∀ m ∈ passed, env.forest.InTree r m := fun m met =>
    inTree.of_axisNodes reordered.linked reordered.rooted axis
      ((sublist_of_select (m := Except EvalError) selected).subset met)
  cases predicates with
  | nil =>
    obtain rfl := Except.ok.inj taken
    exact inPassed
  | cons first rest =>
    intro m met
    have ordered := (sublist_of_keepAll (m := Except EvalError) taken).subset met
    exact inPassed m (((inAxisOrder_spec reordered.keyed inPassed axis.isReverse).2.2 m).mp ordered)

omit reordered in
/-- A predicate that agrees at each node keeps the same ones. -/
theorem agree_keeps {predicate : Expr} {nodes : List Node}
    (agree : ∀ n ∈ nodes, ∀ position size, Agree (Value.Alike env.forest r)
      (predicate.evalIn env ⟨some n, position, size⟩)
      (predicate.evalIn (env.withVariables others) ⟨some n, position, size⟩)) (size : Int) :
    Agree Eq
      (keepFrom (fun n position => do
        return (← predicate.evalIn env ⟨some n, position, size⟩).keeps position) 1 nodes)
      (keepFrom (fun n position => do
        return (← predicate.evalIn (env.withVariables others) ⟨some n, position, size⟩).keeps position) 1 nodes) :=
  agree_keepFrom (fun n met position => (agree n met position size).bind fun _ _ alike =>
    agree_pure (alike.keeps_eq position)) 1

/-- A step whose predicates agree gives the same nodes. -/
theorem Reordered.agree_evalAt {axis : Axis} {test : NodeTest} {predicates : List Expr} {n : Node}
    (inTree : env.forest.InTree r n)
    (agree : ∀ nodes : List Node, (∀ m ∈ nodes, env.forest.InTree r m) →
      Agree Eq (Expr.keepAll env predicates nodes) (Expr.keepAll (env.withVariables others) predicates nodes)) :
    Agree Eq ((Step.mk axis test predicates).evalAt env n)
      ((Step.mk axis test predicates).evalAt (env.withVariables others) n) := by
  rw [evalAt_eq, evalAt_eq, Step.evalFrom, Step.evalFrom, select_withVariables]
  refine (agree_eq_returned (agree_same
    (env.select axis.principalKind test n (axis.nodes env.forest env.virtualRoot n)))).bind ?_
  rintro passed _ ⟨rfl, selected⟩
  have inPassed : ∀ m ∈ passed, env.forest.InTree r m := fun m met =>
    inTree.of_axisNodes reordered.linked reordered.rooted axis
      ((sublist_of_select (m := Except EvalError) selected).subset met)
  cases predicates with
  | nil => exact agree_same _
  | cons first rest =>
    have members := (inAxisOrder_spec reordered.keyed inPassed axis.isReverse).2.2
    exact agree _ fun m met => inPassed m ((members m).mp met)

/-- A step from lists of the same nodes, followed by others. -/
theorem Reordered.agree_evalAll {step : Step} {rest : List Step} {nodes again : List Node}
    (same : SameNodes env.forest r nodes again)
    (first : ∀ n, env.forest.InTree r n →
      Agree Eq (step.evalAt env n) (step.evalAt (env.withVariables others) n))
    (later : ∀ {nodes again : List Node}, SameNodes env.forest r nodes again →
      Agree (SameNodes env.forest r) (Step.evalAll env rest nodes)
        (Step.evalAll (env.withVariables others) rest again)) :
    Agree (SameNodes env.forest r) (Step.evalAll env (step :: rest) nodes)
      (Step.evalAll (env.withVariables others) (step :: rest) again) := by
  obtain ⟨members, inTree⟩ := same
  rw [Step.evalAll, Step.evalAll]
  have walked : Agree (NodeSet.Alike env.forest r) (stepFromEach (step.evalAt env) .empty nodes)
      (stepFromEach (step.evalAt (env.withVariables others)) .empty again) :=
    agree_stepFromEach members (fun n met => first n (inTree n met))
      fun n met taken result => reordered.inTree_evalAt (inTree n met) result
  exact walked.bind fun s t alike => later ⟨alike.members, alike.first.inTree⟩

/-- The variables of both contexts. -/
theorem Reordered.agree_reference (variableName : QName) (focus : Focus) :
    Agree (Value.Alike env.forest r) ((Expr.reference variableName).evalIn env focus)
      ((Expr.reference variableName).evalIn (env.withVariables others) focus) := by
  rw [Expr.evalIn, Expr.evalIn]
  refine (agree_same (env.uriOfName variableName focus.node)).bind ?_
  rintro uri _ rfl
  have alike := reordered.given variableName.localPart uri
  rw [Environment.withVariables_variableNamed?, Environment.withVariables_forest]
  generalize env.variableNamed? variableName.localPart uri = one at alike
  generalize others variableName.localPart uri = two at alike
  cases alike with
  | absent => exact agree_fail _ _
  | @same given other =>
    dsimp only
    unfold Given.theValue
    cases converted : given.toValue env.forest with
    | ok value =>
      refine agree_pure (.plain ?_)
      cases value with
      | nodes set => exact absurd converted (other set)
      | _ => rfl
    | error error => cases error <;> exact agree_fail _ _
  | nodes first second alike =>
    dsimp only
    unfold Given.theValue
    rw [first, second]
    exact agree_pure (.nodes alike)

/-- Operations whose operands agree. -/
theorem Reordered.agree_binary {operator : Operator} {left right : Expr} {focus : Focus}
    (first : Agree (Value.Alike env.forest r) (left.evalIn env focus)
      (left.evalIn (env.withVariables others) focus))
    (second : Agree (Value.Alike env.forest r) (right.evalIn env focus)
      (right.evalIn (env.withVariables others) focus)) :
    Agree (Value.Alike env.forest r) ((Expr.binary operator left right).evalIn env focus)
      ((Expr.binary operator left right).evalIn (env.withVariables others) focus) := by
  have truth : Agree (Value.Alike env.forest r) (do return .truth (← right.evalIn env focus).toTruth)
      (do return .truth (← right.evalIn (env.withVariables others) focus).toTruth) :=
    second.bind fun a b alike => by
      rw [alike.toTruth_eq]
      exact agree_pure (.plain rfl)
  by_cases or : operator = .or
  · subst or
    rw [Expr.evalIn, Expr.evalIn]
    refine first.bind fun a b alike => ?_
    rw [alike.toTruth_eq]
    split
    · exact agree_pure (.plain rfl)
    · exact truth
  by_cases and : operator = .and
  · subst and
    rw [Expr.evalIn, Expr.evalIn]
    refine first.bind fun a b alike => ?_
    rw [alike.toTruth_eq]
    split
    · exact truth
    · exact agree_pure (.plain rfl)
  by_cases union : operator = .union
  · subst union
    rw [Expr.evalIn, Expr.evalIn]
    refine first.bind fun a b alike => (agree_theNodes alike).bind fun s t one => ?_
    refine second.bind fun a b alike => (agree_theNodes alike).bind fun s' t' other => ?_
    exact agree_pure (.nodes (one.union other))
  · rw [evalIn_binary ⟨or, and, union⟩, evalIn_binary ⟨or, and, union⟩]
    exact first.bind fun a b one => second.bind fun c d two =>
      agree_pure (agree_apply reordered.keyed union one two)

/-- Paths whose steps agree. -/
theorem Reordered.agree_path {absolute : Bool} {steps : List Step} {focus : Focus}
    (at_ : ∀ n, focus.node = some n → env.forest.InTree r n)
    (walk : ∀ n, env.forest.InTree r n → Agree (SameNodes env.forest r) (Step.evalAll env steps [n])
      (Step.evalAll (env.withVariables others) steps [n])) :
    Agree (Value.Alike env.forest r) ((Expr.path absolute steps).evalIn env focus)
      ((Expr.path absolute steps).evalIn (env.withVariables others) focus) := by
  rw [Expr.evalIn, Expr.evalIn]
  refine (agree_eq_returned (agree_same (focus.theNode : Except EvalError Node))).bind ?_
  rintro start _ ⟨rfl, node⟩
  have inStart : env.forest.InTree r start := by
    unfold Focus.theNode at node
    split at node
    next n here =>
      obtain rfl := Except.ok.inj node
      exact at_ _ here
    next => cases node
  have inRoot : env.forest.InTree r (Axis.rootOf env.forest env.virtualRoot start) := by
    unfold Axis.rootOf
    cases given : env.virtualRoot with
    | none => exact inStart.of_root reordered.linked
    | some v => exact reordered.rooted v given
  have inFirst : env.forest.InTree r
      (if absolute then Axis.rootOf env.forest env.virtualRoot start else start) := by
    split
    · exact inRoot
    · exact inStart
  exact (walk _ inFirst).bind fun nodes again same => agree_pure (.nodes (NodeSet.alike_ofList same.2 same.1))

/-- Filters whose base, predicates and steps agree. -/
theorem Reordered.agree_filter {base : Expr} {predicates : List Expr} {steps : List Step} {focus : Focus}
    (first : Agree (Value.Alike env.forest r) (base.evalIn env focus)
      (base.evalIn (env.withVariables others) focus))
    (keep : ∀ nodes : List Node, (∀ n ∈ nodes, env.forest.InTree r n) →
      Agree Eq (Expr.keepAll env predicates nodes) (Expr.keepAll (env.withVariables others) predicates nodes))
    (walk : ∀ nodes : List Node, (∀ n ∈ nodes, env.forest.InTree r n) →
      Agree (SameNodes env.forest r) (Step.evalAll env steps nodes)
        (Step.evalAll (env.withVariables others) steps nodes)) :
    Agree (Value.Alike env.forest r) ((Expr.filter base predicates steps).evalIn env focus)
      ((Expr.filter base predicates steps).evalIn (env.withVariables others) focus) := by
  rw [Expr.evalIn, Expr.evalIn]
  refine first.bind fun value other alike => ?_
  cases alike with
  | plain plain =>
    cases value with
    | nodes set => exact absurd plain (Option.some_ne_none _)
    | _ =>
      cases predicates with
      | nil =>
        cases steps with
        | nil => exact agree_pure (.plain rfl)
        | cons => exact agree_fail _ _
      | cons => exact agree_fail _ _
  | @nodes s t alike =>
    dsimp only
    rw [Environment.withVariables_forest, ← alike.toList_eq reordered.keyed]
    have inSet : ∀ n ∈ s.toList env.forest, env.forest.InTree r n := fun n met =>
      alike.first.inTree n ((alike.first.mem_toList reordered.keyed n).mp met)
    refine (agree_eq_returned (keep _ inSet)).bind ?_
    rintro kept _ ⟨rfl, chosen⟩
    have fewer := (sublist_of_keepAll (m := Except EvalError) chosen).subset
    exact (walk kept fun n met => inSet n (fewer met)).bind fun nodes again same =>
      agree_pure (.nodes (NodeSet.alike_ofList same.2 same.1))

/-- Calls with arguments that agree. -/
theorem Reordered.agree_call {function : QName} {arguments : List Expr} (core : CallsCore env function) {focus : Focus}
    (at_ : ∀ n, focus.node = some n → env.forest.InTree r n)
    (agree : CoreFunction.ArgumentsAgree env.forest r focus (Expr.arguments env arguments)
      (Expr.arguments (env.withVariables others) arguments)) :
    Agree (Value.Alike env.forest r) ((Expr.call function arguments).evalIn env focus)
      ((Expr.call function arguments).evalIn (env.withVariables others) focus) := by
  rw [Expr.evalIn, Expr.evalIn]
  refine (agree_eq_returned (agree_same (env.uriOfName function focus.node))).bind ?_
  rintro uri _ ⟨rfl, named⟩
  rw [Environment.withVariables_functionNamed?, Environment.withVariables_forest]
  cases found : env.functionNamed? function.localPart uri with
  | none => exact agree_fail _ _
  | some call =>
    have unqualified : function.qualifier = none → uri = "" := by
      intro none
      unfold Environment.uriOfName at named
      rw [none] at named
      exact (Except.ok.inj named).symm
    obtain ⟨coreFunction, other, rfl⟩ := core uri call unqualified found
    exact CoreFunction.agree_call reordered.keyed reordered.linked other at_ agree

end Reordered

mutual

/-- **Reordering is not noticed**, by the induction over expressions. -/
theorem Reordered.agree_evalIn (reordered : Reordered env others r) (e : Expr)
    (core : ∀ name ∈ e.calledNames, CallsCore env name) {focus : Focus}
    (at_ : ∀ n, focus.node = some n → env.forest.InTree r n) :
    Agree (Value.Alike env.forest r) (e.evalIn env focus) (e.evalIn (env.withVariables others) focus) := by
  match e with
  | .text value =>
    rw [Expr.evalIn, Expr.evalIn]
    exact agree_pure (.plain rfl)
  | .number value =>
    rw [Expr.evalIn, Expr.evalIn]
    exact agree_pure (.plain rfl)
  | .negate operand =>
    rw [Expr.calledNames] at core
    rw [Expr.evalIn, Expr.evalIn]
    refine (reordered.agree_evalIn operand core at_).bind fun value other alike => ?_
    rw [alike.toNumber_eq reordered.keyed]
    exact agree_pure (.plain rfl)
  | .reference variableName => exact reordered.agree_reference variableName focus
  | .call function arguments =>
    rw [Expr.calledNames, List.forall_mem_cons] at core
    exact reordered.agree_call core.1 at_ (reordered.agree_arguments arguments core.2 at_)
  | .binary operator left right =>
    rw [Expr.calledNames, List.forall_mem_append] at core
    exact reordered.agree_binary (reordered.agree_evalIn left core.1 at_)
      (reordered.agree_evalIn right core.2 at_)
  | .path absolute steps =>
    rw [Expr.calledNames] at core
    refine reordered.agree_path at_ fun n inTree => reordered.agree_steps steps core ⟨fun _ => Iff.rfl, ?_⟩
    exact fun m met => List.mem_singleton.mp met ▸ inTree
  | .filter base predicates steps =>
    rw [Expr.calledNames, List.forall_mem_append, List.forall_mem_append] at core
    exact reordered.agree_filter (reordered.agree_evalIn base core.1.1 at_)
      (fun nodes inTree => reordered.agree_keepAll predicates core.1.2 inTree)
      fun nodes inTree => reordered.agree_steps steps core.2 ⟨fun _ => Iff.rfl, inTree⟩

/-- The predicates of a step or a filter keep the same nodes. -/
theorem Reordered.agree_keepAll (reordered : Reordered env others r) (predicates : List Expr)
    (core : ∀ name ∈ Expr.namesOfAll predicates, CallsCore env name) {nodes : List Node}
    (inTree : ∀ n ∈ nodes, env.forest.InTree r n) :
    Agree Eq (Expr.keepAll env predicates nodes) (Expr.keepAll (env.withVariables others) predicates nodes) := by
  match predicates with
  | [] =>
    rw [Expr.keepAll, Expr.keepAll]
    exact agree_pure rfl
  | predicate :: rest =>
    rw [Expr.namesOfAll, List.forall_mem_append] at core
    rw [Expr.keepAll, Expr.keepAll]
    refine (agree_eq_returned (agree_keeps (fun n met position size => reordered.agree_evalIn predicate core.1 ?_)
      nodes.length)).bind ?_
    · intro m same
      obtain rfl := Option.some.inj same
      exact inTree n met
    · rintro kept _ ⟨rfl, chosen⟩
      have fewer := (sublist_of_keepFrom (m := Except EvalError) chosen).subset
      exact reordered.agree_keepAll rest core.2 fun n met => inTree n (fewer met)

theorem Reordered.agree_steps (reordered : Reordered env others r) (steps : List Step)
    (core : ∀ name ∈ Step.namesOfAll steps, CallsCore env name) {nodes again : List Node}
    (same : SameNodes env.forest r nodes again) :
    Agree (SameNodes env.forest r) (Step.evalAll env steps nodes)
        (Step.evalAll (env.withVariables others) steps again) := by
  match steps with
  | [] =>
    rw [Step.evalAll, Step.evalAll]
    exact agree_pure same
  | .mk axis test predicates :: rest =>
    rw [Step.namesOfAll, List.forall_mem_append, Step.calledNames] at core
    refine reordered.agree_evalAll same (fun n inTree => ?_) fun same => reordered.agree_steps rest core.2 same
    exact reordered.agree_evalAt inTree fun nodes inTree => reordered.agree_keepAll predicates core.1 inTree

theorem Reordered.agree_arguments (reordered : Reordered env others r) (arguments : List Expr)
    (core : ∀ name ∈ Expr.namesOfAll arguments, CallsCore env name) {focus : Focus}
    (at_ : ∀ n, focus.node = some n → env.forest.InTree r n) :
    CoreFunction.ArgumentsAgree env.forest r focus (Expr.arguments env arguments)
      (Expr.arguments (env.withVariables others) arguments) := by
  match arguments with
  | [] =>
    rw [Expr.arguments, Expr.arguments]
    exact .nil
  | e :: rest =>
    rw [Expr.namesOfAll, List.forall_mem_append] at core
    rw [Expr.arguments, Expr.arguments]
    exact .cons (reordered.agree_evalIn e core.1 at_) (reordered.agree_arguments rest core.2 at_)

end

/-- **Insertion order never matters.** Take two contexts with one tree without misplaced attributes, which differ
only in their variables: for each name both give nothing, the same data that are no nodes, or nodes of the tree
that make node-sets with the same members; the virtual root and the node of the focus are of the tree, too. An
expression that calls no function but the core functions other than `sum` fails in both contexts, or returns in
both, and then returns equal texts, numbers or truth values, or node-sets of the tree with the same members. -/
theorem evalIn_alike {env : Environment (Except EvalError)} {others : String → String → Option Given} {r : Node}
    (made : env.forest.Made) (placed : env.forest.Placed r)
    (rooted : ∀ v, env.virtualRoot = some v → env.forest.InTree r v)
    (given : ∀ localName uri,
      Given.Alike env.forest r (env.variableNamed? localName uri) (others localName uri))
    (e : Expr) (core : ∀ name ∈ e.calledNames, CallsCore env name) {focus : Focus}
    (at_ : ∀ n, focus.node = some n → env.forest.InTree r n) :
    Agree (Value.Alike env.forest r) (e.evalIn env focus)
      (e.evalIn { env with variableNamed? := others } focus) := by
  obtain ⟨linked, positioned⟩ := made.linked_positioned
  have keyed := NodeSet.keyed_order_of_placed linked positioned placed
  have reordered : Reordered env others r := ⟨linked, keyed, rooted, given⟩
  exact reordered.agree_evalIn e core at_

/-- What a context with the core functions gives for the texts of the note: a list of nodes as `texts`. -/
def textsGiven (nodes : List Nat) (localName _uri : String) : Option Given :=
  if localName = "texts" then some (.list (nodes.map fun id => .foreign (.node (.item id)))) else none

/-- The note with the core functions and its texts as a variable. -/
def textsEnvironment : Environment (Except EvalError) :=
  { noteEnvironment with functionNamed? := resolveFunction? .absent, variableNamed? := textsGiven [2, 4] }

/-- What follows on those of the texts that have a string value. -/
def afterTexts : Expr :=
  .filter (.reference ⟨none, "texts"⟩) [.call ⟨none, "string"⟩ []] [.mk .followingSibling .anyNode []]

/-- The texts of the note in two orders, one of them with a repetition. -/
theorem evalIn_alike_note :
    Forest.noteAndComment.Made ∧ Forest.noteAndComment.Placed (.item 0) ∧
    Given.Alike Forest.noteAndComment (.item 0) (textsGiven [2, 4] "texts" "") (textsGiven [4, 2, 4] "texts" "") ∧
    nodesOf? (afterTexts.evalIn textsEnvironment (Focus.start (some (.item 1)))) = some [.item 3, .item 4] ∧
    Agree (Value.Alike Forest.noteAndComment (.item 0))
      (afterTexts.evalIn textsEnvironment (Focus.start (some (.item 1))))
      (afterTexts.evalIn { textsEnvironment with variableNamed? := textsGiven [4, 2, 4] }
        (Focus.start (some (.item 1)))) := by
  have made : Forest.noteAndComment.Made := .create _ (.build _ _ _ .empty) ⟨rfl, rfl⟩
  have placed : Forest.noteAndComment.Placed (.item 0) := Forest.placed_of_genuine (by decide +kernel)
  have inTree : ∀ id ∈ [1, 2, 4], Forest.noteAndComment.InTree (.item 0) (.item id) := by
    intro id listed
    simp only [List.mem_cons, List.not_mem_nil, or_false] at listed
    rcases listed with rfl | rfl | rfl
    all_goals exact ⟨by decide +kernel, by decide +kernel⟩
  have alike : ∀ localName uri, Given.Alike Forest.noteAndComment (.item 0)
      (textsGiven [2, 4] localName uri) (textsGiven [4, 2, 4] localName uri) := by
    intro localName uri
    unfold textsGiven
    split
    · have texts : (NodeSet.ofList [.item 2, .item 4]).Alike Forest.noteAndComment (.item 0)
          (NodeSet.ofList [.item 4, .item 2, .item 4]) := by
        refine NodeSet.alike_ofList ?_ ?_
        · simp only [List.forall_mem_cons]
          exact ⟨inTree 2 (by decide), inTree 4 (by decide), fun _ met => absurd met List.not_mem_nil⟩
        · simp only [List.mem_cons, List.not_mem_nil, or_false]
          tauto
      exact .nodes rfl rfl texts
    · exact .absent
  have core : ∀ name ∈ afterTexts.calledNames, CallsCore textsEnvironment name := by
    intro name called uri call unqualified found
    obtain rfl : name = ⟨none, "string"⟩ := List.mem_singleton.mp called
    obtain rfl := unqualified rfl
    exact ⟨.string, by decide, (Option.some.inj found).symm⟩
  refine ⟨made, placed, alike "texts" "", by decide +kernel, ?_⟩
  refine evalIn_alike made placed ?_ alike afterTexts core ?_
  · exact fun v root => absurd root.symm (Option.some_ne_none v)
  · rintro n same
    obtain rfl := Option.some.inj same
    exact inTree 1 (by decide)

end XPathAnnotator
