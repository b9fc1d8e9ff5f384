/-
**Document order of results.**

Evaluation does not leave the tree of a document: where the node of the focus, the virtual root and the
node-sets among the variables are of one such tree, so is every node-set that an expression gives with the core
functions. It can therefore be listed in document order.

* `Inside` — environments for evaluation in a tree; `environment_eq` — what options make;
* `of_evalAll` — steps stay in the tree;
* `within_evalIn` — an expression gives node-sets of the tree;
* `listed_evalIn` — so their listings are in document order.
-/

import Mathlib
import XPathAnnotator.Proofs.Axis.Reach
import XPathAnnotator.Proofs.Eval.Outcomes
import XPathAnnotator.Proofs.NodeSet.Listing

namespace XPathAnnotator

open Evaluating Observing Forest

variable {m : Type → Type} [Evaluating m] [Observing m]

/-- An environment for evaluation in the tree with a root: the virtual root and the node-sets that variables
stand for are of the tree, and functions are core functions. -/
structure Inside (env : Environment m) (r : Node) : Prop where
  linked : env.forest.Linked
  positioned : env.forest.Positioned
  clean : env.forest.Clean r
  rooted : ∀ v, env.virtualRoot = some v → env.forest.Of r v
  core : env.functionNamed? = resolveFunction? .absent
  nodeSets : ∀ localName uri given set, env.variableNamed? localName uri = some given →
    given.toValue env.forest = .ok (.nodes set) → set.Within env.forest r

/-- Whether a value, if it is a node-set, is one of the nodes of a tree. -/
def Value.Within (f : Forest) (r : Node) (value : Value) : Prop :=
  ∀ set, value = .nodes set → set.Within f r

variable {env : Environment m} {r : Node}

/-! ### Steps -/

theorem of_theNode {f : Forest} {focus : Focus} {n : Node} (at_ : ∀ n, focus.node = some n → f.Of r n)
    (found : Returns (focus.theNode : m Node) n) : f.Of r n := by
  unfold Focus.theNode at found
  split at found
  next start node =>
    rw [of_pure found]
    exact at_ start node
  next => exact absurd found of_fail

theorem nodes_of_axisNodes {axis : Axis} {n : Node} {reached : List Node}
    (found : Returns (env.axisNodes axis n) reached) : reached = axis.nodes env.forest env.virtualRoot n := by
  unfold Environment.axisNodes at found
  split at found
  · split at found
    · obtain ⟨_, -, found⟩ := of_bind found
      exact of_pure found
    · exact of_pure found
  · exact of_pure found

theorem within_stepFromEach {f : Forest} {step : Node → m (List Node)} {nodes : List Node} {found result : NodeSet}
    (stays : ∀ n reached, f.Of r n → Returns (step n) reached → ∀ m ∈ reached, f.Of r m)
    (of : ∀ n ∈ nodes, f.Of r n) (within : found.Within f r)
    (taken : Returns (stepFromEach step found nodes) result) : result.Within f r := by
  induction nodes generalizing found with
  | nil =>
    rw [stepFromEach] at taken
    rw [of_pure taken]
    exact within
  | cons n nodes ih =>
    rw [stepFromEach] at taken
    obtain ⟨reached, walked, taken⟩ := of_bind taken
    have ofReached := stays n reached (of n List.mem_cons_self) walked
    exact ih (fun m met => of m (List.mem_cons_of_mem _ met)) (within.addAll ofReached) taken

section Steps

variable (inside : Inside env r)

include inside

omit [Observing m] in
theorem of_inAxisOrder {nodes : List Node} {reverse : Bool} (of : ∀ n ∈ nodes, env.forest.Of r n) {n : Node}
    (met : n ∈ inAxisOrder env.forest reverse nodes) : env.forest.Of r n := by
  have within := NodeSet.within_ofList of
  unfold inAxisOrder at met
  have listed : n ∈ (NodeSet.ofList nodes).toList env.forest := by
    cases reverse with
    | false => exact met
    | true => exact List.mem_reverse.mp met
  exact within.of n ((within.mem_toList inside.linked inside.positioned n).mp listed)

/-- A step stays in the tree. -/
theorem of_evalAt {step : Step} {n : Node} (ofN : env.forest.Of r n) {found : List Node}
    (taken : Returns (step.evalAt env n) found) : ∀ m ∈ found, env.forest.Of r m := by
  obtain ⟨axis, test, predicates⟩ := step
  rw [Step.evalAt] at taken
  obtain ⟨reached, walked, taken⟩ := of_bind taken
  obtain ⟨passed, selected, taken⟩ := of_bind taken
  have ofReached : ∀ m ∈ reached, env.forest.Of r m := by
    intro m met
    rw [nodes_of_axisNodes walked] at met
    exact inside.clean.of_axisNodes inside.linked inside.rooted axis ofN met
  have ofPassed : ∀ m ∈ passed, env.forest.Of r m :=
    fun m met => ofReached m ((sublist_of_select selected).subset met)
  cases predicates with
  | nil =>
    rw [of_pure taken]
    exact ofPassed
  | cons first rest =>
    intro m met
    exact of_inAxisOrder inside ofPassed ((sublist_of_keepAll taken).subset met)

/-- **Steps stay in the tree.** -/
theorem of_evalAll {steps : List Step} {nodes found : List Node} (of : ∀ n ∈ nodes, env.forest.Of r n)
    (taken : Returns (Step.evalAll env steps nodes) found) : ∀ m ∈ found, env.forest.Of r m := by
  induction steps generalizing nodes with
  | nil =>
    rw [Step.evalAll] at taken
    rw [of_pure taken]
    exact of
  | cons step steps ih =>
    rw [Step.evalAll] at taken
    obtain ⟨set, walked, taken⟩ := of_bind taken
    have within : set.Within env.forest r :=
      within_stepFromEach (fun _ _ ofN taken => of_evalAt inside ofN taken) of NodeSet.Within.empty walked
    exact ih within.of taken

/-! ### Functions and variables -/

omit [Observing m] in
/-- Elements are looked up by their identifiers in the document of the node. -/
theorem within_elementsById {n : Node} (ofN : env.forest.Of r n) (identifiers : List String) :
    (CoreFunction.elementsById env.forest n identifiers).Within env.forest r := by
  have ofDocument : ∀ document,
      (if env.forest.kind n == .document then some n else env.forest.ownerDocument? n) = some document →
        env.forest.Of r document := by
    intro document found
    split at found
    · obtain rfl := Option.some.inj found
      exact ofN
    · unfold ownerDocument? at found
      dsimp only at found
      split at found
      · obtain rfl := Option.some.inj found
        exact inside.clean.of_root inside.linked ofN
      · exact absurd found.symm (Option.some_ne_none _)
  unfold CoreFunction.elementsById
  dsimp only
  generalize (if env.forest.kind n == .document then some n else env.forest.ownerDocument? n) = document
    at ofDocument
  cases document with
  | none => exact NodeSet.Within.empty
  | some document =>
    refine NodeSet.within_ofList fun e met => ?_
    obtain ⟨value, -, found⟩ := List.mem_filterMap.mp met
    exact inside.clean.of_descendants inside.linked (ofDocument document rfl) (List.mem_of_find?_eq_some found)

theorem within_call {function : CoreFunction} {focus : Focus} {arguments : List (Argument m)} {value : Value}
    (at_ : ∀ n, focus.node = some n → env.forest.Of r n)
    (called : Returns (function.call env.forest focus arguments) value) : value.Within env.forest r := by
  rintro set rfl
  by_cases id : function = .id
  · subst id
    match arguments with
    | [] => exact absurd called (plain_refuse _ set)
    | [a] =>
      obtain ⟨value, -, called⟩ := of_bind called
      obtain ⟨n, found, called⟩ := of_bind called
      obtain rfl := Value.nodes.inj (of_pure called)
      exact within_elementsById inside (of_theNode at_ found) _
    | a :: b :: rest => exact absurd called (plain_refuse _ set)
  · exact absurd called (CoreFunction.plain_call id env.forest focus arguments set)

omit inside [Observing m] in
theorem exists_coreFunction {localName uri : String} {call : Function m}
    (found : resolveFunction? .absent localName uri = some call) :
    ∃ function : CoreFunction, call = function.call := by
  unfold resolveFunction? at found
  dsimp only [Lookup.find?] at found
  split at found
  · obtain ⟨function, -, same⟩ := Option.map_eq_some_iff.mp found
    exact ⟨function, same.symm⟩
  · exact absurd found.symm (Option.some_ne_none _)

theorem within_theValue {localName uri : String} {given : Given} {value : Value}
    (found : env.variableNamed? localName uri = some given)
    (converted : Returns (given.theValue env.forest : m Value) value) : value.Within env.forest r := by
  rintro set rfl
  unfold Given.theValue at converted
  split at converted
  next value result =>
    obtain rfl := of_pure converted
    exact inside.nodeSets localName uri given set found result
  · exact absurd converted of_fail
  · exact absurd converted of_fail

end Steps

/-! ### Expressions -/

theorem within_of_plain {f : Forest} {x : m Value} (plain : Plain x) {value : Value}
    (returned : Returns x value) : value.Within f r := by
  rintro set rfl
  exact absurd returned (plain set)

omit [Observing m] in
/-- The operators whose operands are both evaluated, in this order, before they are applied. -/
theorem evalIn_binary {operator : Operator} {left right : Expr} {focus : Focus}
    (plain : operator ≠ .or ∧ operator ≠ .and ∧ operator ≠ .union) :
    (Expr.binary operator left right).evalIn env focus = (do
      let first ← left.evalIn env focus
      let second ← right.evalIn env focus
      return operator.apply env.forest first second) := by
  obtain ⟨notOr, notAnd, notUnion⟩ := plain
  cases operator with
  | or => exact absurd rfl notOr
  | and => exact absurd rfl notAnd
  | union => exact absurd rfl notUnion
  | _ => rw [Expr.evalIn] <;> exact Operator.noConfusion

/-- Only a union gives a node-set, of the operations with two values. -/
theorem plain_binary {operator : Operator} (other : operator ≠ .union) (left right : Expr) (focus : Focus) :
    Plain ((Expr.binary operator left right).evalIn env focus) := by
  by_cases or : operator = .or
  · subst or
    rw [Expr.evalIn]
    refine plain_bind fun first => ?_
    split
    · exact plain_pure rfl
    · exact plain_bind fun _ => plain_pure rfl
  by_cases and : operator = .and
  · subst and
    rw [Expr.evalIn]
    refine plain_bind fun first => ?_
    split
    · exact plain_bind fun _ => plain_pure rfl
    · exact plain_pure rfl
  · rw [evalIn_binary ⟨or, and, other⟩]
    exact plain_bind fun first => plain_bind fun second =>
      plain_pure (nodes?_apply env.forest other first second)

theorem set_of_theNodes {value : Value} {set : NodeSet} (found : Returns (value.theNodes : m NodeSet) set) :
    value = .nodes set := by
  cases value with
  | nodes other => rw [of_pure found]
  | _ => exact absurd found of_fail

/-- A path gives nodes of the tree. -/
theorem within_path (inside : Inside env r) {absolute : Bool} {steps : List Step} {focus : Focus} {value : Value}
    (at_ : ∀ n, focus.node = some n → env.forest.Of r n)
    (returned : Returns ((Expr.path absolute steps).evalIn env focus) value) : value.Within env.forest r := by
  rw [Expr.evalIn] at returned
  obtain ⟨start, node, returned⟩ := of_bind returned
  obtain ⟨found, walked, returned⟩ := of_bind returned
  have ofStart : env.forest.Of r start := of_theNode at_ node
  have ofFirst : ∀ n ∈ [if absolute then Axis.rootOf env.forest env.virtualRoot start else start],
      env.forest.Of r n := by
    intro n met
    rw [List.mem_singleton.mp met]
    split
    · exact inside.clean.of_rootOf inside.linked inside.rooted ofStart
    · exact ofStart
  rintro set same
  obtain rfl := Value.nodes.inj (same.symm.trans (of_pure returned))
  exact NodeSet.within_ofList (of_evalAll inside ofFirst walked)

/-- **Expressions give node-sets of the tree.** The induction is on the expression: only a union and a filter
give nodes that their parts have given, the other node-sets come from steps, from `id` and from variables. -/
theorem within_evalIn (inside : Inside env r) (e : Expr) {focus : Focus} {value : Value}
    (at_ : ∀ n, focus.node = some n → env.forest.Of r n) (returned : Returns (e.evalIn env focus) value) :
    value.Within env.forest r := by
  match e with
  | .text text =>
    rw [Expr.evalIn] at returned
    exact within_of_plain (plain_pure rfl) returned
  | .number x =>
    rw [Expr.evalIn] at returned
    exact within_of_plain (plain_pure rfl) returned
  | .negate operand =>
    rw [Expr.evalIn] at returned
    exact within_of_plain (plain_bind fun _ => plain_pure rfl) returned
  | .binary operator left right =>
    by_cases union : operator = .union
    · subst union
      rw [Expr.evalIn] at returned
      obtain ⟨leftValue, leftReturned, returned⟩ := of_bind returned
      obtain ⟨first, leftNodes, returned⟩ := of_bind returned
      obtain ⟨rightValue, rightReturned, returned⟩ := of_bind returned
      obtain ⟨second, rightNodes, returned⟩ := of_bind returned
      have firstWithin := within_evalIn inside left at_ leftReturned first (set_of_theNodes leftNodes)
      have secondWithin := within_evalIn inside right at_ rightReturned second (set_of_theNodes rightNodes)
      rintro set same
      obtain rfl := Value.nodes.inj (same.symm.trans (of_pure returned))
      exact firstWithin.union secondWithin
    · exact within_of_plain (plain_binary union left right focus) returned
  | .path _ _ => exact within_path inside at_ returned
  | .filter base predicates steps =>
    rw [Expr.evalIn] at returned
    obtain ⟨baseValue, baseReturned, returned⟩ := of_bind returned
    have baseWithin := within_evalIn inside base at_ baseReturned
    split at returned
    next set =>
      obtain ⟨kept, chosen, returned⟩ := of_bind returned
      obtain ⟨found, walked, returned⟩ := of_bind returned
      have setWithin : set.Within env.forest r := baseWithin set rfl
      have ofKept : ∀ n ∈ kept, env.forest.Of r n := by
        intro n met
        have listed := (sublist_of_keepAll chosen).subset met
        exact setWithin.of n ((setWithin.mem_toList inside.linked inside.positioned n).mp listed)
      rintro result same
      obtain rfl := Value.nodes.inj (same.symm.trans (of_pure returned))
      exact NodeSet.within_ofList (of_evalAll inside ofKept walked)
    · split at returned
      · rw [of_pure returned]
        exact baseWithin
      · exact absurd returned of_fail
  | .call function arguments =>
    rw [Expr.evalIn] at returned
    obtain ⟨uri, -, returned⟩ := of_bind returned
    split at returned
    next call found =>
      rw [inside.core] at found
      obtain ⟨core, rfl⟩ := exists_coreFunction found
      exact within_call inside at_ returned
    · exact absurd returned of_fail
  | .reference variableName =>
    rw [Expr.evalIn] at returned
    obtain ⟨uri, -, returned⟩ := of_bind returned
    split at returned
    next given found => exact within_theValue inside found returned
    · exact absurd returned of_fail
termination_by e

/-! ### Evaluation with options -/

omit [Observing m] in
/-- What options make of a forest. -/
theorem environment_eq {options : Options m} {f : Forest} (opened : options.environment f = .ok env) :
    env.forest = f ∧ (∀ v, env.virtualRoot = some v → options.virtualRoot = some (.within v)) ∧
      env.functionNamed? = resolveFunction? options.functions ∧
      ∀ localName uri given, env.variableNamed? localName uri = some given →
        options.variableValues.find? (Name.expanded uri localName) = some given := by
  unfold Options.environment at opened
  extract_lets checked rooted at opened
  -- once the root is chosen, the rest can only be refused or give this environment
  have made : ∀ root, checked root = .ok env →
      env.forest = f ∧ env.virtualRoot = root ∧ env.functionNamed? = resolveFunction? options.functions ∧
        ∀ localName uri given, env.variableNamed? localName uri = some given →
          options.variableValues.find? (Name.expanded uri localName) = some given := by
    intro root opened
    obtain ⟨_, -, opened⟩ := exists_of_bind_eq_ok opened
    obtain ⟨_, -, opened⟩ := exists_of_bind_eq_ok opened
    obtain ⟨_, -, opened⟩ := exists_of_bind_eq_ok opened
    obtain rfl := Except.ok.inj opened
    refine ⟨rfl, rfl, rfl, fun localName uri given found => ?_⟩
    dsimp only at found
    split at found
    · exact absurd found.symm (Option.some_ne_none _)
    · exact found
  split at opened
  · simp only [rooted] at opened
    split at opened
    next node given =>
      obtain ⟨forest, root, functions, values⟩ := made (some node) opened
      refine ⟨forest, fun v found => ?_, functions, values⟩
      rw [root] at found
      obtain rfl := Option.some.inj found
      exact given
    · cases opened
    · obtain ⟨forest, root, functions, values⟩ := made none opened
      refine ⟨forest, fun v found => ?_, functions, values⟩
      rw [root] at found
      exact absurd found.symm (Option.some_ne_none v)
  · cases opened

/-- **Results in document order.** Let an expression be evaluated in the tree of a document with the core
functions, at a node of the tree or at none, with a virtual root and node-sets among the variables only of the
tree. Then every node-set that it returns is listed in document order: the listing holds each of its nodes once,
as the walk over the tree meets them, and the first node of the set is the first one listed. -/
theorem listed_evalIn {made f : Forest} {id : Nat} {source : TreeSource} {uri : Option String}
    {document : Xml.Document} (start : made.Made) (tree : made.build source uri document = (f, id))
    {options : Options m} (opened : options.environment f = .ok env) (core : options.functions = .absent)
    (rooted : ∀ v, options.virtualRoot = some (.within v) → f.Of (.item id) v)
    (nodeSets : ∀ key given set, options.variableValues.find? key = some given →
      given.toValue f = .ok (.nodes set) → set.Within f (.item id))
    {focus : Focus} (at_ : ∀ n, focus.node = some n → f.Of (.item id) n) (e : Expr) {set : NodeSet}
    (returned : Returns (e.evalIn env focus) (.nodes set)) : set.Listed f (.item id) := by
  obtain ⟨linked, positioned⟩ := start.linked_positioned
  have built := built linked positioned source uri document
  rw [tree] at built
  obtain ⟨rfl, root, functions, values⟩ := environment_eq opened
  have inside : Inside env (.item id) := by
    refine ⟨built.linked, built.positioned, built.clean linked, fun v found => rooted v (root v found), ?_, ?_⟩
    · rw [functions, core]
    · exact fun localName uri given set found => nodeSets _ given set (values localName uri given found)
  exact (within_evalIn inside e at_ returned set rfl).listed built.linked built.positioned

/-- Options with the root element of the note as virtual root and its reference as a variable. -/
def noteOptions : Options (Except EvalError) where
  variableValues := .table [("here", .foreign (.node (.item 4)))]
  virtualRoot := some (.within (.item 1))

/-- The forest of the note as a document. -/
def noteForest : Forest := (Forest.empty.build .parsed none note).1

/-- The reference and what it stands in, and the attributes below the virtual root. -/
def aroundAndMarked : Expr :=
  .binary .union
    (.filter (.reference ⟨none, "here"⟩) [] [.mk .ancestorOrSelf .anyNode []])
    (.path true [.mk .descendantOrSelf .anyNode [], .mk .attribute .anyName []])

/-- The nodes of a result in the order of their addition. -/
def nodesOf? (result : Except EvalError Value) : Option (List Node) :=
  match result with
  | .ok (.nodes set) => some set.inOrderOfAddition
  | _ => none

/-- What the expression gives at the text of the note. -/
def noteResult? : Option (List Node) :=
  match noteOptions.environment noteForest with
  | .ok env => nodesOf? (aroundAndMarked.evalIn env (Focus.start (some (.item 3))))
  | .error _ => none

theorem listed_evalIn_note : ∃ env set, noteOptions.environment noteForest = .ok env ∧
    aroundAndMarked.evalIn env (Focus.start (some (.item 3))) = .ok (.nodes set) ∧
    set.inOrderOfAddition = [.item 4, .item 1, .item 2] ∧ set.Listed noteForest (.item 0) := by
  have evaluated : noteResult? = some [.item 4, .item 1, .item 2] := by decide +kernel
  unfold noteResult? at evaluated
  split at evaluated
  next env opened =>
    unfold nodesOf? at evaluated
    split at evaluated
    next set returned =>
      refine ⟨env, set, opened, returned, Option.some.inj evaluated, ?_⟩
      have here : noteForest.Of (.item 0) (.item 4) := by decide +kernel
      have tree : Forest.empty.build .parsed none note = (noteForest, 0) := Prod.ext rfl (by decide)
      refine listed_evalIn .empty tree opened rfl ?_ ?_ ?_ aroundAndMarked returned
      · rintro v same
        obtain rfl := VirtualRoot.within.inj (Option.some.inj same)
        decide +kernel
      · rintro key given set found converted
        have given' : given = .foreign (.node (.item 4)) := by
          simp only [noteOptions, Lookup.find?, List.lookup_cons] at found
          split at found
          · exact (Option.some.inj found).symm
          · cases found
        subst given'
        obtain rfl := Value.nodes.inj (Except.ok.inj converted)
        exact NodeSet.within_ofList fun n met => List.mem_singleton.mp met ▸ here
      · rintro n same
        obtain rfl := Option.some.inj same
        decide +kernel
    · cases evaluated
  · cases evaluated
end XPathAnnotator
