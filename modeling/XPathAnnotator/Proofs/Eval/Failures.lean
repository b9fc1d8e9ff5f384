/-
**Why evaluations fail.**

An evaluation fails where one of its parts does, and each part that fails is named by the expression or by its
context: a qualifier without URI, a function or a variable that there is not, arguments that a core function does not
expect, a value that is no node-set, no node at the focus, or the data of a variable. With the core functions alone no
failure comes from anywhere else; only an integer beyond the numbers can make a variable fail with an error that is
none of evaluation.

* `FailsWith` — evaluations that fail in certain ways only, closed under `bind`;
* `CoreFunction.failsWith_call` — core functions add only the refusal of their arguments;
* `Environment.Admits`, `Expr.Admits` — the failures that a context and the names in an expression bring along;
* `failsWith_evalIn` — the induction over expressions and steps;
* `evalIn_fails_ofCore` — **only errors of evaluation come out of it**; `evalIn_tooLarge`, where another one does.
-/

import Mathlib
import XPathAnnotator.Proofs.Eval.Proximity
import XPathAnnotator.Proofs.Expr.Everywhere

namespace XPathAnnotator

open Evaluating

/-! ### Evaluations that fail in certain ways -/

/-- Whether an evaluation fails in certain ways only. -/
def FailsWith {α : Type} (B : EvalError → Prop) (x : Except EvalError α) : Prop :=
  ∀ error, x = .error error → B error

section FailsWith

variable {α β : Type} {B : EvalError → Prop}

theorem failsWith_pure (a : α) : FailsWith B (pure a) := by
  intro error same
  cases same

theorem failsWith_fail {error : EvalError} (admitted : B error) : FailsWith B (fail error : Except EvalError α) := by
  intro other same
  rwa [← Except.error.inj same]

/-- A sequence, where the second part counts on what the first one has returned. -/
theorem FailsWith.bind_of_ok {x : Except EvalError α} {next : α → Except EvalError β} (first : FailsWith B x)
    (second : ∀ a, x = .ok a → FailsWith B (next a)) : FailsWith B (x >>= next) := by
  intro error same
  cases x with
  | error e =>
    cases same
    exact first _ rfl
  | ok a => exact second a rfl error same

theorem FailsWith.bind {x : Except EvalError α} {next : α → Except EvalError β} (first : FailsWith B x)
    (second : ∀ a, FailsWith B (next a)) : FailsWith B (x >>= next) :=
  first.bind_of_ok fun a _ => second a

end FailsWith

/-! ### Core functions -/

namespace CoreFunction

variable {B : EvalError → Prop} {f : Forest} {focus : Focus} {arguments : List (Argument (Except EvalError))}

theorem failsWith_theNode (none : focus.node = none → B .noContextNode) :
    FailsWith B (focus.theNode : Except EvalError Node) := by
  unfold Focus.theNode
  split
  next n _ => exact failsWith_pure n
  next empty => exact failsWith_fail (none empty)

section Arguments

variable (refused : ∀ function : CoreFunction, B (.wrongArguments function.title function.signature))
  (none : focus.node = none → B .noContextNode) (given : ∀ a ∈ arguments, FailsWith B (a.value focus))
  {a : Argument (Except EvalError)} (listed : a ∈ arguments)

section Given

include given

theorem failsWith_textsOf : FailsWith B (textsOf f focus arguments) := by
  induction arguments with
  | nil => exact failsWith_pure []
  | cons a rest ih =>
    obtain ⟨here, later⟩ := List.forall_mem_cons.mp given
    refine FailsWith.bind (here.bind fun _ => failsWith_pure _) fun _ => ?_
    exact (ih later).bind fun _ => failsWith_pure _

include listed

theorem failsWith_textOf : FailsWith B (textOf f focus a) := (given a listed).bind fun _ => failsWith_pure _

theorem failsWith_numberOf : FailsWith B (numberOf f focus a) := (given a listed).bind fun _ => failsWith_pure _

end Given

include refused given

theorem failsWith_nodesOf (function : CoreFunction) (listed : a ∈ arguments) :
    FailsWith B (function.nodesOf focus a) := by
  unfold nodesOf
  refine (given a listed).bind fun value => ?_
  split
  · exact failsWith_pure _
  · exact failsWith_fail (refused function)

include none

theorem failsWith_subject? (function : CoreFunction) : FailsWith B (function.subject? f focus arguments) := by
  unfold subject?
  split
  · exact (failsWith_theNode none).bind fun _ => failsWith_pure _
  · exact (failsWith_nodesOf refused given function List.mem_cons_self).bind fun _ => failsWith_pure _
  · exact failsWith_fail (refused function)

theorem failsWith_subjectText (function : CoreFunction) :
    FailsWith B (function.subjectText f focus arguments) := by
  unfold subjectText
  split
  · exact (failsWith_theNode none).bind fun _ => failsWith_pure _
  · exact failsWith_textOf given List.mem_cons_self
  · exact failsWith_fail (refused function)

/-- **A call of a core function** fails as its arguments do, for want of a node, or by refusing its arguments. -/
theorem failsWith_call (function : CoreFunction) : FailsWith B (function.call f focus arguments) := by
  unfold CoreFunction.call
  split
  all_goals
    first
    | exact failsWith_fail (refused _)
    | repeat
        first
        | exact failsWith_pure _
        | exact failsWith_theNode none
        | exact failsWith_subject? refused none given _
        | exact failsWith_subjectText refused none given _
        | exact failsWith_textsOf given
        | exact failsWith_textOf given (by simp)
        | exact failsWith_numberOf given (by simp)
        | exact failsWith_nodesOf refused given _ (by simp)
        | exact given _ (by simp)
        | refine FailsWith.bind ?_ fun _ => ?_

end Arguments

end CoreFunction

/-! ### Contexts and names -/

/-- Whether there are no functions in an environment but core functions. -/
def Environment.CoreOnly (env : Environment (Except EvalError)) : Prop :=
  ∀ localName uri call, env.functionNamed? localName uri = some call → ∃ function : CoreFunction, call = function.call

/-- Failures of certain kinds, with those that a context and operations bring along among them. -/
structure Environment.Admits (env : Environment (Except EvalError)) (B : EvalError → Prop) : Prop where
  qualifier : ∀ qualifier, env.givenUri? qualifier = none → B (.unknownQualifier qualifier)
  refused : ∀ function : CoreFunction, B (.wrongArguments function.title function.signature)
  notNodes : ∀ typeName, B (.notNodes typeName)
  filterNotNodes : B .filterNotNodes

/-- Whether failures of certain kinds have those among them that the name of a call or of a variable brings along. -/
def Expr.Admits (env : Environment (Except EvalError)) (B : EvalError → Prop) : Expr → Prop
  | .call function _ => B (.unknownFunction function.text)
  | .reference variableName => B (.undeclaredVariable variableName.text) ∧
      ∀ node uri given, env.uriOfName variableName node = .ok uri →
        env.variableNamed? variableName.localPart uri = some given → FailsWith B (given.theValue env.forest)
  | _ => True

/-- Whether they have all those among them that the names in an expression bring along. -/
abbrev Expr.AdmitsAll (env : Environment (Except EvalError)) (B : EvalError → Prop) (e : Expr) : Prop :=
  e.Everywhere (Expr.Admits env B) fun _ => True

section Evaluation

variable {env : Environment (Except EvalError)} {B : EvalError → Prop} (admits : env.Admits B)

include admits

omit admits in
theorem failsWith_scopeUri? (qualifier : String) (node : Option Node) :
    FailsWith B (scopeUri? env.forest qualifier node : Except EvalError (Option String)) := by
  unfold scopeUri?
  split
  · exact failsWith_pure _
  split
  · exact failsWith_pure _
  split
  · exact FailsWith.bind (failsWith_pure ()) fun _ => failsWith_pure _
  · exact failsWith_pure _

theorem Environment.Admits.uriOf (qualifier : String) (node : Option Node) :
    FailsWith B (env.uriOf qualifier node) := by
  unfold Environment.uriOf
  split
  · exact failsWith_pure _
  next absent =>
    extract_lets last
    have fails (found : Option String) : FailsWith B (last found) := by
      cases found with
      | some uri => exact failsWith_pure uri
      | none => exact failsWith_fail (admits.qualifier qualifier absent)
    split
    · exact (failsWith_scopeUri? qualifier node).bind fails
    · exact (failsWith_pure none).bind fails

theorem Environment.Admits.uriOfName (name : Name.QName) (node : Option Node) :
    FailsWith B (env.uriOfName name node) := by
  unfold Environment.uriOfName
  split
  · exact failsWith_pure _
  · exact admits.uriOf _ node

theorem Environment.Admits.accepts (kind : NodeKind) (test : NodeTest) (start n : Node) :
    FailsWith B (env.accepts kind test start n) := by
  unfold Environment.accepts
  split
  case h_2 =>
    split
    · exact failsWith_pure _
    · exact (admits.uriOf _ _).bind fun _ => failsWith_pure _
  case h_3 =>
    split
    · exact failsWith_pure _
    · unfold Environment.acceptsName
      split
      case h_2 => exact (admits.uriOf _ _).bind fun _ => failsWith_pure _
      all_goals exact failsWith_pure _
  all_goals exact failsWith_pure _

theorem Environment.Admits.select (kind : NodeKind) (test : NodeTest) (start : Node) (nodes : List Node) :
    FailsWith B (env.select kind test start nodes) := by
  induction nodes with
  | nil => exact failsWith_pure []
  | cons n nodes ih =>
    rw [Environment.select]
    refine (admits.accepts kind test start n).bind fun accepted => ?_
    split
    · exact ih.bind fun _ => failsWith_pure _
    · exact ih

omit admits in
theorem failsWith_keepFrom {keeps : Node → Int → Except EvalError Bool}
    (each : ∀ n position, FailsWith B (keeps n position)) (position : Int) (nodes : List Node) :
    FailsWith B (keepFrom keeps position nodes) := by
  induction nodes generalizing position with
  | nil => exact failsWith_pure []
  | cons n nodes ih =>
    rw [keepFrom]
    refine (each n position).bind fun kept => ?_
    split
    · exact (ih _).bind fun _ => failsWith_pure _
    · exact ih _

omit admits in
theorem failsWith_stepFromEach {step : Node → Except EvalError (List Node)} (each : ∀ n, FailsWith B (step n))
    (found : NodeSet) (nodes : List Node) : FailsWith B (stepFromEach step found nodes) := by
  induction nodes generalizing found with
  | nil => exact failsWith_pure found
  | cons n nodes ih =>
    rw [stepFromEach]
    exact (each n).bind fun _ => ih _

theorem Environment.Admits.theNodes (value : Value) : FailsWith B (value.theNodes : Except EvalError NodeSet) := by
  unfold Value.theNodes
  split
  · exact failsWith_pure _
  · exact failsWith_fail (admits.notNodes _)

/-- Operations fail as their operands do. -/
theorem Environment.Admits.binary {operator : Operator} {left right : Expr} {focus : Focus}
    (first : FailsWith B (left.evalIn env focus)) (second : FailsWith B (right.evalIn env focus)) :
    FailsWith B ((Expr.binary operator left right).evalIn env focus) := by
  by_cases or : operator = .or
  · subst or
    rw [Expr.evalIn]
    refine first.bind fun value => ?_
    split
    · exact failsWith_pure _
    · exact second.bind fun _ => failsWith_pure _
  by_cases and : operator = .and
  · subst and
    rw [Expr.evalIn]
    refine first.bind fun value => ?_
    split
    · exact second.bind fun _ => failsWith_pure _
    · exact failsWith_pure _
  by_cases union : operator = .union
  · subst union
    rw [Expr.evalIn]
    refine first.bind fun value => (admits.theNodes value).bind fun _ => ?_
    exact second.bind fun value => (admits.theNodes value).bind fun _ => failsWith_pure _
  · rw [evalIn_binary ⟨or, and, union⟩]
    exact first.bind fun _ => second.bind fun _ => failsWith_pure _

end Evaluation

mutual

/-- **An evaluation fails with what its context and the names in it bring along**, by the induction over expressions and
steps. Below the first focus there is always a node. -/
theorem failsWith_evalIn {env : Environment (Except EvalError)} {B : EvalError → Prop} (core : env.CoreOnly)
    (admits : env.Admits B) (e : Expr) (names : e.AdmitsAll env B) {focus : Focus}
    (none : focus.node = none → B .noContextNode) : FailsWith B (e.evalIn env focus) := by
  match e with
  | .text value => exact failsWith_pure _
  | .number value => exact failsWith_pure _
  | .negate operand =>
    unfold Expr.AdmitsAll Expr.Everywhere at names
    rw [Expr.evalIn]
    exact (failsWith_evalIn core admits operand names.2 none).bind fun _ => failsWith_pure _
  | .binary operator left right =>
    unfold Expr.AdmitsAll Expr.Everywhere at names
    exact admits.binary (failsWith_evalIn core admits left names.2.1 none)
      (failsWith_evalIn core admits right names.2.2 none)
  | .path absolute steps =>
    unfold Expr.AdmitsAll Expr.Everywhere at names
    rw [Expr.evalIn]
    refine (CoreFunction.failsWith_theNode none).bind fun start => ?_
    exact (failsWith_evalAll core admits steps names.2 _).bind fun _ => failsWith_pure _
  | .filter base predicates steps =>
    unfold Expr.AdmitsAll Expr.Everywhere at names
    rw [Expr.evalIn]
    refine (failsWith_evalIn core admits base names.2.1 none).bind fun value => ?_
    split
    · refine (failsWith_keepAll core admits predicates names.2.2.1 _).bind fun kept => ?_
      exact (failsWith_evalAll core admits steps names.2.2.2 kept).bind fun _ => failsWith_pure _
    · split
      · exact failsWith_pure _
      · exact failsWith_fail admits.filterNotNodes
  | .call function arguments =>
    unfold Expr.AdmitsAll Expr.Everywhere at names
    rw [Expr.evalIn]
    refine (admits.uriOfName function focus.node).bind fun uri => ?_
    split
    next call found =>
      obtain ⟨function, rfl⟩ := core _ _ call found
      exact CoreFunction.failsWith_call admits.refused none
        (failsWith_arguments core admits arguments names.2 none) function
    next => exact failsWith_fail names.1
  | .reference variableName =>
    unfold Expr.AdmitsAll Expr.Everywhere at names
    rw [Expr.evalIn]
    refine (admits.uriOfName variableName focus.node).bind_of_ok fun uri named => ?_
    split
    next given found => exact names.2 focus.node uri given named found
    next => exact failsWith_fail names.1

/-- Predicates fail with what the names in them bring along. -/
theorem failsWith_keepAll {env : Environment (Except EvalError)} {B : EvalError → Prop} (core : env.CoreOnly)
    (admits : env.Admits B) (predicates : List Expr)
    (names : Expr.AllEverywhere (Expr.Admits env B) (fun _ => True) predicates) (nodes : List Node) :
    FailsWith B (Expr.keepAll env predicates nodes) := by
  match predicates with
  | [] => exact failsWith_pure nodes
  | predicate :: rest =>
    unfold Expr.AllEverywhere at names
    rw [Expr.keepAll]
    refine (failsWith_keepFrom (fun n position => ?_) 1 nodes).bind fun kept =>
      failsWith_keepAll core admits rest names.2 kept
    exact (failsWith_evalIn core admits predicate names.1 fun absent => absurd absent (Option.some_ne_none n)).bind
      fun _ => failsWith_pure _

/-- Arguments fail with what the names in them bring along. -/
theorem failsWith_arguments {env : Environment (Except EvalError)} {B : EvalError → Prop} (core : env.CoreOnly)
    (admits : env.Admits B) (arguments : List Expr)
    (names : Expr.AllEverywhere (Expr.Admits env B) (fun _ => True) arguments) {focus : Focus}
    (none : focus.node = none → B .noContextNode) :
    ∀ a ∈ Expr.arguments env arguments, FailsWith B (a.value focus) := by
  match arguments with
  | [] => exact fun _ listed => absurd listed List.not_mem_nil
  | e :: rest =>
    unfold Expr.AllEverywhere at names
    rw [Expr.arguments, List.forall_mem_cons]
    exact ⟨failsWith_evalIn core admits e names.1 none, failsWith_arguments core admits rest names.2 none⟩

/-- Steps fail with what the names in them bring along. -/
theorem failsWith_evalAll {env : Environment (Except EvalError)} {B : EvalError → Prop} (core : env.CoreOnly)
    (admits : env.Admits B) (steps : List Step) (names : Step.AllEverywhere (Expr.Admits env B) (fun _ => True) steps)
    (nodes : List Node) : FailsWith B (Step.evalAll env steps nodes) := by
  match steps with
  | [] => exact failsWith_pure nodes
  | .mk axis test predicates :: rest =>
    unfold Step.AllEverywhere Step.Everywhere at names
    rw [Step.evalAll]
    refine (failsWith_stepFromEach (fun n => ?_) .empty nodes).bind fun found =>
      failsWith_evalAll core admits rest names.2 _
    have kept := failsWith_keepAll core admits predicates names.1.2
    rw [evalAt_eq, Step.evalFrom]
    refine (admits.select _ _ _ _).bind fun passed => ?_
    cases predicates with
    | nil => exact failsWith_pure passed
    | cons first more => exact kept _

end

/-! ### Errors of evaluation -/

/-- Whether an error is one of evaluation with core functions: neither that of an integer beyond the numbers, which is
left to the conversion of integers, nor that of a regular expression, which no core function uses. -/
def EvalError.OfCore : EvalError → Prop
  | .tooLarge | .badPattern _ => False
  | _ => True

/-- An expression that is a variable with an integer beyond the numbers. -/
def Expr.Oversized (env : Environment (Except EvalError)) : Expr → Prop
  | .reference variableName => ∃ node uri n, env.uriOfName variableName node = .ok uri ∧
      env.variableNamed? variableName.localPart uri = some (.integer n) ∧ Number.ofInt? n = none
  | _ => False

theorem Given.toValue_ne_tooLarge {f : Forest} {given : Given}
    (fits : ∀ n, given = .integer n → Number.ofInt? n ≠ none) : given.toValue f ≠ .error .tooLarge := by
  intro same
  unfold Given.toValue at same
  split at same
  case h_3 n =>
    split at same
    · cases same
    next beyond => exact fits n rfl beyond
  case h_8 => split at same <;> cases same
  all_goals cases same

theorem Given.failsWith_theValue {f : Forest} {given : Given}
    (fits : ∀ n, given = .integer n → Number.ofInt? n ≠ none) :
    FailsWith EvalError.OfCore (given.theValue f : Except EvalError Value) := by
  unfold Given.theValue
  split
  · exact failsWith_pure _
  · exact failsWith_fail trivial
  next beyond => exact absurd beyond (Given.toValue_ne_tooLarge fits)

/-- Options without functions leave the core functions. -/
theorem Options.coreOnly {options : Options (Except EvalError)} {f : Forest} {env : Environment (Except EvalError)}
    (core : options.functions = .absent) (opened : options.environment f = .ok env) : env.CoreOnly := by
  obtain ⟨-, -, functions, -⟩ := environment_eq opened
  intro localName uri call found
  have none : (Lookup.absent : Lookup (Function (Except EvalError))).find? (Name.expanded uri localName) = none := rfl
  rw [functions, core, resolveFunction?, none] at found
  dsimp only at found
  split at found
  · obtain ⟨function, -, same⟩ := Option.map_eq_some_iff.mp found
    exact ⟨function, same.symm⟩
  · cases found

/-- An integer with four hundred zeros. -/
def hugeInteger : Int := 10 ^ 200 * 10 ^ 200

/-- Options with a small integer and the huge one as variables. -/
def limitOptions : Options (Except EvalError) :=
  { variableValues := .table [("limit", .integer 3), ("huge", .integer hugeInteger)] }

/-- The number of all nodes and a limit. -/
def countAndLimit : Expr :=
  .binary .plus (.call ⟨none, "count"⟩ [.path true [.mk .descendantOrSelf .anyNode []]])
    (.reference ⟨none, "limit"⟩)

end XPathAnnotator
