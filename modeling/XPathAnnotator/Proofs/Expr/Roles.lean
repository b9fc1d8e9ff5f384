/-
**What the symbols of the grammar stand for.**

Every symbol has a role: its parts are words, expressions, lists of them, axes, node tests, steps or paths. A rule
that is given parts of the roles on its right side makes a part of the role on its left side, or finds that an axis
is unknown; there is no other way for it to fail. Along the rules, whatever is known of the words goes over to the
expressions that are made of them.

* `roleOf`, `Fits` — the role of a symbol, and parts of it;
* `Keeps` — properties of words, expressions and node tests that the rules keep;
* `builds_productions` — **what each rule makes of fitting parts**;
* `outcome_fold` — the value of a derivation tree.
-/

import Mathlib
import XPathAnnotator.Proofs.Expr.Everywhere
import XPathAnnotator.Proofs.Expr.Rules
import XPathAnnotator.Proofs.Grammar.Derivation

namespace XPathAnnotator.Expr

open Grammar XPathAnnotator.Name

/-- What the parts of a symbol are. -/
inductive Role where
  | word
  | expr
  | exprs
  | axis
  | test
  | step
  | steps
  | path
deriving DecidableEq

/-- The roles of the nonterminals. -/
def roles : List (String × Role) := [
  ("$accept", .expr), ("Expr", .expr), ("OrExpr", .expr), ("AndExpr", .expr), ("EqualityExpr", .expr),
  ("RelationalExpr", .expr), ("AdditiveExpr", .expr), ("MultiplicativeExpr", .expr), ("UnaryExpr", .expr),
  ("UnionExpr", .expr), ("PathExpr", .expr), ("FilterExpr", .expr), ("PrimaryExpr", .expr), ("Predicate", .expr),
  ("FunctionCall", .expr), ("VariableReference", .expr), ("PredicateList", .exprs), ("ArgumentList", .exprs),
  ("AxisSpecifier", .axis), ("NodeTest", .test), ("NameTest", .test), ("Step", .step),
  ("RelativeLocationPath", .steps), ("AbsoluteLocationPath", .path), ("LocationPath", .path)]

/-- The role of a symbol: terminals are words. -/
def roleOf (s : String) : Role := (roles.lookup s).getD .word

theorem keys_roles : ∀ s ∈ roles.map Prod.fst, s ∈ grammar.nonterminals := by
  rw [grammar_eq]
  decide

/-- A symbol that is no nonterminal is a word. -/
theorem roleOf_of_not_mem {s : String} (notLeft : s ∉ grammar.nonterminals) : roleOf s = .word := by
  have unlisted : roles.lookup s = none := by
    rw [List.lookup_eq_none_iff]
    intro pair member
    refine bne_iff_ne.mpr ?_
    rintro rfl
    exact notLeft (keys_roles _ (List.mem_map_of_mem member))
  rw [roleOf, unlisted]
  rfl

/-! ### Properties that the rules keep -/

/-- Properties of words by their terminals, of names of variables, of expressions and of node tests that the rules
of the grammar keep. -/
structure Keeps (W : String → String → Prop) (V : String → Prop) (P : Expr → Prop) (Q : NodeTest → Prop) :
    Prop where
  text {value : String} : W "LITERAL" value → P (.text value)
  number {value : String} : W "NUMBER" value → P (.number (Number.ofText value))
  negate {operand : Expr} : P (.negate operand)
  binary {operator : Operator} {left right : Expr} : P (.binary operator left right)
  path {absolute : Bool} {steps : List Step} : (Expr.path absolute steps).Shaped → P (.path absolute steps)
  filter {base : Expr} {predicates : List Expr} {steps : List Step} :
    (Expr.filter base predicates steps).Shaped → P (.filter base predicates steps)
  call {name : String} {arguments : List Expr} :
    W "FUNCTION_NAME" name → P (.call (QName.ofText name) arguments)
  reference {name : String} : V name → P (.reference (QName.ofText name))
  variableName {name : String} : W "QNAME" name → V name
  shaped {e : Expr} : P e → e.Shaped
  nameTest {name : String} : W "QNAME" name → Q (.name (QName.ofText name))
  anyNameIn {text : String} : W "NCNAME_COLON_ASTERISK" text → Q (.anyNameIn (qualifierOf text))
  /-- Nothing is asked of tests without names. -/
  nameless {test : NodeTest} : test ∈ [.anyName, .comment, .text, .anyNode] → Q test
  instruction {target? : Option String} : Q (.instruction target?)

/-- A part of a symbol. -/
def Fits (W : String → String → Prop) (P : Expr → Prop) (Q : NodeTest → Prop) (s : String) (part : Part) : Prop :=
  match roleOf s with
  | .word => ∃ text, part = .word text ∧ W s text
  | .expr => ∃ e : Expr, part = .expr e ∧ e.Everywhere P Q
  | .exprs => ∃ es, part = .exprs es ∧ ∀ e ∈ es, e.Everywhere P Q
  | .axis => ∃ axis, part = .axis axis
  | .test => ∃ test, part = .test test ∧ Q test
  | .step => ∃ step : Step, part = .step step ∧ step.Everywhere P Q
  | .steps => ∃ steps, part = .path false steps ∧ steps ≠ [] ∧ ∀ step ∈ steps, step.Everywhere P Q
  | .path => ∃ absolute steps, part = .path absolute steps ∧ (absolute = true ∨ steps ≠ []) ∧
      ∀ step ∈ steps, step.Everywhere P Q

/-- A part of a symbol, or the one failure there is. -/
def Outcome (W : String → String → Prop) (P : Expr → Prop) (Q : NodeTest → Prop) (s : String) :
    Except SyntaxError Part → Prop
  | .ok part => Fits W P Q s part
  | .error cause => ∃ name, cause = .unknownAxis name

/-- What a rule makes of fitting parts. -/
def Builds (W : String → String → Prop) (P : Expr → Prop) (Q : NodeTest → Prop) (p : Production) (b : Builder) :
    Prop :=
  ∀ parts, List.Forall₂ (Fits W P Q) p.right parts → Outcome W P Q p.left (b parts)

section Builders

variable {W : String → String → Prop} {V : String → Prop} {P : Expr → Prop} {Q : NodeTest → Prop}
  {left first second third fourth : String}

/-! ### Rules of one symbol -/

/-- The part of a single symbol stays, among symbols of one role. -/
theorem builds_keep {role : Role} (roles : roleOf first = role ∧ roleOf left = role) (noWord : role ≠ .word) :
    Builds W P Q ⟨left, [first], List.cons_ne_nil _ _⟩ keep := by
  rintro _ (_ | ⟨fits, _ | _⟩)
  show Fits W P Q left _
  unfold Fits at fits ⊢
  rw [roles.1] at fits
  rw [roles.2]
  cases role
  case word => exact absurd rfl noWord
  all_goals exact fits

theorem builds_relativePath (roles : roleOf first = .steps ∧ roleOf left = .path) :
    Builds W P Q ⟨left, [first], List.cons_ne_nil _ _⟩ keep := by
  rintro _ (_ | ⟨fits, _ | _⟩)
  simp only [Fits, roles] at fits
  obtain ⟨steps, rfl, nonempty, all⟩ := fits
  simp only [Outcome, keep, Fits, roles]
  exact ⟨false, steps, rfl, .inr nonempty, all⟩

/-- The part between two marks stays. -/
theorem builds_between (roles : [first, second, third, left].map roleOf = [.word, .expr, .word, .expr]) :
    Builds W P Q ⟨left, [first, second, third], List.cons_ne_nil _ _⟩ between := by
  simp only [List.map_cons, List.map_nil, List.cons.injEq, and_true] at roles
  rintro _ (_ | ⟨_, _ | ⟨fits, _ | ⟨_, _ | _⟩⟩⟩)
  simp only [Fits, roles] at fits
  simp only [Outcome, between, Fits, roles]
  exact fits

/-! ### Operations -/

section Operations

variable (keeps : Keeps W V P Q)
include keeps

theorem builds_operation (operator : Operator)
    (roles : [first, second, third, left].map roleOf = [.expr, .word, .expr, .expr]) :
    Builds W P Q ⟨left, [first, second, third], List.cons_ne_nil _ _⟩ (operation operator) := by
  simp only [List.map_cons, List.map_nil, List.cons.injEq, and_true] at roles
  rintro _ (_ | ⟨fitsLeft, _ | ⟨fitsMark, _ | ⟨fitsRight, _ | _⟩⟩⟩)
  simp only [Fits, roles] at fitsLeft fitsMark fitsRight
  obtain ⟨leftExpr, rfl, leftEverywhere⟩ := fitsLeft
  obtain ⟨mark, rfl, _⟩ := fitsMark
  obtain ⟨rightExpr, rfl, rightEverywhere⟩ := fitsRight
  simp only [Outcome, operation, Fits, roles]
  exact ⟨_, rfl, keeps.binary, leftEverywhere, rightEverywhere⟩

theorem builds_negation (roles : [first, second, left].map roleOf = [.word, .expr, .expr]) :
    Builds W P Q ⟨left, [first, second], List.cons_ne_nil _ _⟩ negation := by
  simp only [List.map_cons, List.map_nil, List.cons.injEq, and_true] at roles
  rintro _ (_ | ⟨fitsMark, _ | ⟨fits, _ | _⟩⟩)
  simp only [Fits, roles] at fitsMark fits
  obtain ⟨mark, rfl, _⟩ := fitsMark
  obtain ⟨operand, rfl, everywhere⟩ := fits
  simp only [Outcome, negation, Fits, roles]
  exact ⟨_, rfl, keeps.negate, everywhere⟩

/-! ### Paths -/

theorem descendants_everywhere : Step.descendants.Everywhere P Q :=
  ⟨keeps.nameless (by decide), trivial⟩

theorem stepsAfter_everywhere (separator : String) {steps : List Step} (all : ∀ step ∈ steps, step.Everywhere P Q) :
    ∀ step ∈ stepsAfter separator steps, step.Everywhere P Q := by
  unfold stepsAfter
  split
  · exact List.forall_mem_cons.mpr ⟨descendants_everywhere keeps, all⟩
  · exact all

omit keeps in
theorem stepsAfter_ne_nil (separator : String) {steps : List Step} (nonempty : steps ≠ []) :
    stepsAfter separator steps ≠ [] := by
  unfold stepsAfter
  split
  · exact List.cons_ne_nil _ _
  · exact nonempty

theorem builds_locationExpr (roles : [first, left].map roleOf = [.path, .expr]) :
    Builds W P Q ⟨left, [first], List.cons_ne_nil _ _⟩ locationExpr := by
  simp only [List.map_cons, List.map_nil, List.cons.injEq, and_true] at roles
  rintro _ (_ | ⟨fits, _ | _⟩)
  simp only [Fits, roles] at fits
  obtain ⟨absolute, steps, rfl, shaped, all⟩ := fits
  simp only [Outcome, locationExpr, Fits, roles]
  exact ⟨_, rfl, keeps.path shaped, Step.allEverywhere_iff.mpr all⟩

theorem builds_filteredPath (roles : [first, second, third, left].map roleOf = [.expr, .word, .steps, .expr]) :
    Builds W P Q ⟨left, [first, second, third], List.cons_ne_nil _ _⟩ filteredPath := by
  simp only [List.map_cons, List.map_nil, List.cons.injEq, and_true] at roles
  rintro _ (_ | ⟨fitsBase, _ | ⟨fitsMark, _ | ⟨fitsPath, _ | _⟩⟩⟩)
  simp only [Fits, roles] at fitsBase fitsMark fitsPath
  obtain ⟨base, rfl, everywhere⟩ := fitsBase
  obtain ⟨separator, rfl, _⟩ := fitsMark
  obtain ⟨steps, rfl, nonempty, all⟩ := fitsPath
  have someSteps := stepsAfter_ne_nil separator nonempty
  have allSteps := Step.allEverywhere_iff.mpr (stepsAfter_everywhere keeps separator all)
  simp only [Outcome, filteredPath, Fits, roles]
  refine ⟨_, rfl, ?_⟩
  split
  · obtain ⟨kept, inner, predicates, _⟩ := everywhere
    exact ⟨keeps.filter ⟨.inr someSteps, (keeps.shaped kept).2⟩, inner, predicates, allSteps⟩
  · rename_i noBareFilter
    refine ⟨keeps.filter ⟨.inr someSteps, ?_⟩, everywhere, trivial, allSteps⟩
    intro bare
    match base with
    | .filter inner predicates [] => exact noBareFilter inner predicates rfl

theorem builds_filterPredicate (roles : [first, second, left].map roleOf = [.expr, .expr, .expr]) :
    Builds W P Q ⟨left, [first, second], List.cons_ne_nil _ _⟩ filterPredicate := by
  simp only [List.map_cons, List.map_nil, List.cons.injEq, and_true] at roles
  rintro _ (_ | ⟨fitsBase, _ | ⟨fitsPredicate, _ | _⟩⟩)
  simp only [Fits, roles] at fitsBase fitsPredicate
  obtain ⟨base, rfl, everywhere⟩ := fitsBase
  obtain ⟨predicate, rfl, holds⟩ := fitsPredicate
  simp only [Outcome, filterPredicate, Fits, roles]
  refine ⟨_, rfl, ?_⟩
  split
  · obtain ⟨kept, inner, predicates, _⟩ := everywhere
    have all := List.forall_mem_append.mpr
      ⟨allEverywhere_iff.mp predicates, List.forall_mem_singleton.mpr holds⟩
    exact ⟨keeps.filter ⟨.inl (by simp), (keeps.shaped kept).2⟩, inner, allEverywhere_iff.mpr all, trivial⟩
  · rename_i noBareFilter
    refine ⟨keeps.filter ⟨.inl (by simp), ?_⟩, everywhere, ⟨holds, trivial⟩, trivial⟩
    intro bare
    match base with
    | .filter inner predicates [] => exact noBareFilter inner predicates rfl

omit keeps in
theorem builds_rootPath (roles : [first, left].map roleOf = [.word, .path]) :
    Builds W P Q ⟨left, [first], List.cons_ne_nil _ _⟩ rootPath := by
  simp only [List.map_cons, List.map_nil, List.cons.injEq, and_true] at roles
  rintro _ (_ | ⟨fits, _ | _⟩)
  simp only [Fits, roles] at fits
  obtain ⟨mark, rfl, _⟩ := fits
  simp only [Outcome, rootPath, Fits, roles]
  exact ⟨true, [], rfl, .inl rfl, by simp⟩

theorem builds_absolutePath (roles : [first, second, left].map roleOf = [.word, .steps, .path]) :
    Builds W P Q ⟨left, [first, second], List.cons_ne_nil _ _⟩ absolutePath := by
  simp only [List.map_cons, List.map_nil, List.cons.injEq, and_true] at roles
  rintro _ (_ | ⟨fitsMark, _ | ⟨fits, _ | _⟩⟩)
  simp only [Fits, roles] at fitsMark fits
  obtain ⟨separator, rfl, _⟩ := fitsMark
  obtain ⟨steps, rfl, _, all⟩ := fits
  simp only [Outcome, absolutePath, Fits, roles]
  exact ⟨true, _, rfl, .inl rfl, stepsAfter_everywhere keeps separator all⟩

omit keeps in
theorem builds_firstStep (roles : [first, left].map roleOf = [.step, .steps]) :
    Builds W P Q ⟨left, [first], List.cons_ne_nil _ _⟩ firstStep := by
  simp only [List.map_cons, List.map_nil, List.cons.injEq, and_true] at roles
  rintro _ (_ | ⟨fits, _ | _⟩)
  simp only [Fits, roles] at fits
  obtain ⟨step, rfl, everywhere⟩ := fits
  simp only [Outcome, firstStep, Fits, roles]
  exact ⟨_, rfl, by simp, List.forall_mem_singleton.mpr everywhere⟩

theorem builds_nextStep (roles : [first, second, third, left].map roleOf = [.steps, .word, .step, .steps]) :
    Builds W P Q ⟨left, [first, second, third], List.cons_ne_nil _ _⟩ nextStep := by
  simp only [List.map_cons, List.map_nil, List.cons.injEq, and_true] at roles
  rintro _ (_ | ⟨fitsPath, _ | ⟨fitsMark, _ | ⟨fitsStep, _ | _⟩⟩⟩)
  simp only [Fits, roles] at fitsPath fitsMark fitsStep
  obtain ⟨steps, rfl, nonempty, all⟩ := fitsPath
  obtain ⟨separator, rfl, _⟩ := fitsMark
  obtain ⟨step, rfl, everywhere⟩ := fitsStep
  have more := stepsAfter_everywhere keeps separator (List.forall_mem_singleton.mpr everywhere)
  simp only [Outcome, nextStep, Fits, roles]
  exact ⟨_, rfl, by simp [nonempty], List.forall_mem_append.mpr ⟨all, more⟩⟩

/-! ### Steps -/

omit keeps in
theorem builds_step_axis (roles : [first, second, left].map roleOf = [.axis, .test, .step]) :
    Builds W P Q ⟨left, [first, second], List.cons_ne_nil _ _⟩ makeStep := by
  simp only [List.map_cons, List.map_nil, List.cons.injEq, and_true] at roles
  rintro _ (_ | ⟨fitsAxis, _ | ⟨fitsTest, _ | _⟩⟩)
  simp only [Fits, roles] at fitsAxis fitsTest
  obtain ⟨axis, rfl⟩ := fitsAxis
  obtain ⟨test, rfl, holds⟩ := fitsTest
  simp only [Outcome, makeStep, Fits, roles]
  exact ⟨_, rfl, holds, trivial⟩

omit keeps in
theorem builds_step_axis_predicates
    (roles : [first, second, third, left].map roleOf = [.axis, .test, .exprs, .step]) :
    Builds W P Q ⟨left, [first, second, third], List.cons_ne_nil _ _⟩ makeStep := by
  simp only [List.map_cons, List.map_nil, List.cons.injEq, and_true] at roles
  rintro _ (_ | ⟨fitsAxis, _ | ⟨fitsTest, _ | ⟨fitsPredicates, _ | _⟩⟩⟩)
  simp only [Fits, roles] at fitsAxis fitsTest fitsPredicates
  obtain ⟨axis, rfl⟩ := fitsAxis
  obtain ⟨test, rfl, holds⟩ := fitsTest
  obtain ⟨predicates, rfl, all⟩ := fitsPredicates
  simp only [Outcome, makeStep, Fits, roles]
  exact ⟨_, rfl, Step.everywhere_iff.mpr ⟨holds, all⟩⟩

omit keeps in
theorem builds_step (roles : [first, left].map roleOf = [.test, .step]) :
    Builds W P Q ⟨left, [first], List.cons_ne_nil _ _⟩ makeStep := by
  simp only [List.map_cons, List.map_nil, List.cons.injEq, and_true] at roles
  rintro _ (_ | ⟨fitsTest, _ | _⟩)
  simp only [Fits, roles] at fitsTest
  obtain ⟨test, rfl, holds⟩ := fitsTest
  simp only [Outcome, makeStep, Fits, roles]
  exact ⟨_, rfl, holds, trivial⟩

omit keeps in
theorem builds_step_predicates (roles : [first, second, left].map roleOf = [.test, .exprs, .step]) :
    Builds W P Q ⟨left, [first, second], List.cons_ne_nil _ _⟩ makeStep := by
  simp only [List.map_cons, List.map_nil, List.cons.injEq, and_true] at roles
  rintro _ (_ | ⟨fitsTest, _ | ⟨fitsPredicates, _ | _⟩⟩)
  simp only [Fits, roles] at fitsTest fitsPredicates
  obtain ⟨test, rfl, holds⟩ := fitsTest
  obtain ⟨predicates, rfl, all⟩ := fitsPredicates
  simp only [Outcome, makeStep, Fits, roles]
  exact ⟨_, rfl, Step.everywhere_iff.mpr ⟨holds, all⟩⟩

theorem builds_anyNodeStep (axis : Axis) (roles : [first, left].map roleOf = [.word, .step]) :
    Builds W P Q ⟨left, [first], List.cons_ne_nil _ _⟩ (anyNodeStep axis) := by
  simp only [List.map_cons, List.map_nil, List.cons.injEq, and_true] at roles
  rintro _ (_ | ⟨fits, _ | _⟩)
  simp only [Fits, roles] at fits
  obtain ⟨mark, rfl, _⟩ := fits
  simp only [Outcome, anyNodeStep, Fits, roles]
  exact ⟨_, rfl, keeps.nameless (by decide), trivial⟩

omit keeps in
/-- **The only rule that can fail**: a name may be that of no axis. -/
theorem builds_namedAxis (roles : [first, second, left].map roleOf = [.word, .word, .axis]) :
    Builds W P Q ⟨left, [first, second], List.cons_ne_nil _ _⟩ namedAxis := by
  simp only [List.map_cons, List.map_nil, List.cons.injEq, and_true] at roles
  rintro _ (_ | ⟨fitsName, _ | ⟨fitsMark, _ | _⟩⟩)
  simp only [Fits, roles] at fitsName fitsMark
  obtain ⟨name, rfl, _⟩ := fitsName
  obtain ⟨mark, rfl, _⟩ := fitsMark
  rw [namedAxis]
  split
  · simp only [Outcome, Fits, roles]
    exact ⟨_, rfl⟩
  · exact ⟨name, rfl⟩

omit keeps in
theorem builds_attributeAxis (roles : [first, left].map roleOf = [.word, .axis]) :
    Builds W P Q ⟨left, [first], List.cons_ne_nil _ _⟩ attributeAxis := by
  simp only [List.map_cons, List.map_nil, List.cons.injEq, and_true] at roles
  rintro _ (_ | ⟨fits, _ | _⟩)
  simp only [Fits, roles] at fits
  obtain ⟨mark, rfl, _⟩ := fits
  simp only [Outcome, attributeAxis, Fits, roles]
  exact ⟨_, rfl⟩

/-! ### Node tests -/

theorem builds_typeTest (roles : [first, second, third, left].map roleOf = [.word, .word, .word, .test]) :
    Builds W P Q ⟨left, [first, second, third], List.cons_ne_nil _ _⟩ typeTest := by
  simp only [List.map_cons, List.map_nil, List.cons.injEq, and_true] at roles
  rintro _ (_ | ⟨fitsName, _ | ⟨fitsOpening, _ | ⟨fitsClosing, _ | _⟩⟩⟩)
  simp only [Fits, roles] at fitsName fitsOpening fitsClosing
  obtain ⟨name, rfl, _⟩ := fitsName
  obtain ⟨opening, rfl, _⟩ := fitsOpening
  obtain ⟨closing, rfl, _⟩ := fitsClosing
  simp only [Outcome, typeTest, Fits, roles]
  refine ⟨_, rfl, ?_⟩
  split
  · exact keeps.nameless (by decide)
  split
  · exact keeps.nameless (by decide)
  split
  · exact keeps.instruction
  · exact keeps.nameless (by decide)

theorem builds_targetTest
    (roles : [first, second, third, fourth, left].map roleOf = [.word, .word, .word, .word, .test]) :
    Builds W P Q ⟨left, [first, second, third, fourth], List.cons_ne_nil _ _⟩ targetTest := by
  simp only [List.map_cons, List.map_nil, List.cons.injEq, and_true] at roles
  rintro _ (_ | ⟨fitsName, _ | ⟨fitsOpening, _ | ⟨fitsTarget, _ | ⟨fitsClosing, _ | _⟩⟩⟩⟩)
  simp only [Fits, roles] at fitsName fitsOpening fitsTarget fitsClosing
  obtain ⟨name, rfl, _⟩ := fitsName
  obtain ⟨opening, rfl, _⟩ := fitsOpening
  obtain ⟨target, rfl, _⟩ := fitsTarget
  obtain ⟨closing, rfl, _⟩ := fitsClosing
  simp only [Outcome, targetTest, Fits, roles]
  exact ⟨_, rfl, keeps.instruction⟩

omit keeps in
theorem builds_nameTest {make : String → NodeTest} (makes : ∀ {text : String}, W first text → Q (make text))
    (roles : [first, left].map roleOf = [.word, .test]) :
    Builds W P Q ⟨left, [first], List.cons_ne_nil _ _⟩ (nameTest make) := by
  simp only [List.map_cons, List.map_nil, List.cons.injEq, and_true] at roles
  rintro _ (_ | ⟨fits, _ | _⟩)
  simp only [Fits, roles] at fits
  obtain ⟨text, rfl, word⟩ := fits
  simp only [Outcome, nameTest, Fits, roles]
  exact ⟨_, rfl, makes word⟩

/-! ### Lists -/

omit keeps in
theorem builds_firstExpr (roles : [first, left].map roleOf = [.expr, .exprs]) :
    Builds W P Q ⟨left, [first], List.cons_ne_nil _ _⟩ firstExpr := by
  simp only [List.map_cons, List.map_nil, List.cons.injEq, and_true] at roles
  rintro _ (_ | ⟨fits, _ | _⟩)
  simp only [Fits, roles] at fits
  obtain ⟨e, rfl, everywhere⟩ := fits
  simp only [Outcome, firstExpr, Fits, roles]
  exact ⟨_, rfl, List.forall_mem_singleton.mpr everywhere⟩

omit keeps in
theorem builds_nextPredicate (roles : [first, second, left].map roleOf = [.exprs, .expr, .exprs]) :
    Builds W P Q ⟨left, [first, second], List.cons_ne_nil _ _⟩ nextExpr := by
  simp only [List.map_cons, List.map_nil, List.cons.injEq, and_true] at roles
  rintro _ (_ | ⟨fitsList, _ | ⟨fits, _ | _⟩⟩)
  simp only [Fits, roles] at fitsList fits
  obtain ⟨es, rfl, all⟩ := fitsList
  obtain ⟨e, rfl, everywhere⟩ := fits
  simp only [Outcome, nextExpr, Fits, roles]
  exact ⟨_, rfl, List.forall_mem_append.mpr ⟨all, List.forall_mem_singleton.mpr everywhere⟩⟩

omit keeps in
theorem builds_nextArgument (roles : [first, second, third, left].map roleOf = [.exprs, .word, .expr, .exprs]) :
    Builds W P Q ⟨left, [first, second, third], List.cons_ne_nil _ _⟩ nextExpr := by
  simp only [List.map_cons, List.map_nil, List.cons.injEq, and_true] at roles
  rintro _ (_ | ⟨fitsList, _ | ⟨fitsMark, _ | ⟨fits, _ | _⟩⟩⟩)
  simp only [Fits, roles] at fitsList fitsMark fits
  obtain ⟨es, rfl, all⟩ := fitsList
  obtain ⟨mark, rfl, _⟩ := fitsMark
  obtain ⟨e, rfl, everywhere⟩ := fits
  simp only [Outcome, nextExpr, Fits, roles]
  exact ⟨_, rfl, List.forall_mem_append.mpr ⟨all, List.forall_mem_singleton.mpr everywhere⟩⟩

/-! ### Primary expressions -/

theorem builds_literal (roles : roleOf left = .expr) :
    Builds W P Q ⟨left, ["LITERAL"], List.cons_ne_nil _ _⟩ literal := by
  rintro _ (_ | ⟨fits, _ | _⟩)
  obtain ⟨text, rfl, word⟩ := fits
  simp only [Outcome, literal, Fits, roles]
  exact ⟨_, rfl, keeps.text word⟩

theorem builds_numeral (roles : roleOf left = .expr) :
    Builds W P Q ⟨left, ["NUMBER"], List.cons_ne_nil _ _⟩ numeral := by
  rintro _ (_ | ⟨fits, _ | _⟩)
  obtain ⟨text, rfl, word⟩ := fits
  simp only [Outcome, numeral, Fits, roles]
  exact ⟨_, rfl, keeps.number word⟩

theorem builds_call (roles : [second, third, left].map roleOf = [.word, .word, .expr]) :
    Builds W P Q ⟨left, ["FUNCTION_NAME", second, third], List.cons_ne_nil _ _⟩ functionCall := by
  simp only [List.map_cons, List.map_nil, List.cons.injEq, and_true] at roles
  rintro _ (_ | ⟨fitsName, _ | ⟨fitsOpening, _ | ⟨fitsClosing, _ | _⟩⟩⟩)
  obtain ⟨name, rfl, word⟩ := fitsName
  simp only [Fits, roles] at fitsOpening fitsClosing
  obtain ⟨opening, rfl, _⟩ := fitsOpening
  obtain ⟨closing, rfl, _⟩ := fitsClosing
  simp only [Outcome, functionCall, Fits, roles]
  exact ⟨_, rfl, keeps.call word, trivial⟩

theorem builds_call_arguments (roles : [second, third, fourth, left].map roleOf = [.word, .exprs, .word, .expr]) :
    Builds W P Q ⟨left, ["FUNCTION_NAME", second, third, fourth], List.cons_ne_nil _ _⟩ functionCall := by
  simp only [List.map_cons, List.map_nil, List.cons.injEq, and_true] at roles
  rintro _ (_ | ⟨fitsName, _ | ⟨fitsOpening, _ | ⟨fitsArguments, _ | ⟨fitsClosing, _ | _⟩⟩⟩⟩)
  obtain ⟨name, rfl, word⟩ := fitsName
  simp only [Fits, roles] at fitsOpening fitsArguments fitsClosing
  obtain ⟨opening, rfl, _⟩ := fitsOpening
  obtain ⟨arguments, rfl, all⟩ := fitsArguments
  obtain ⟨closing, rfl, _⟩ := fitsClosing
  simp only [Outcome, functionCall, Fits, roles]
  exact ⟨_, rfl, keeps.call word, allEverywhere_iff.mpr all⟩

theorem builds_reference (roles : [first, left].map roleOf = [.word, .expr]) :
    Builds W P Q ⟨left, [first, "QNAME"], List.cons_ne_nil _ _⟩ variableReference := by
  simp only [List.map_cons, List.map_nil, List.cons.injEq, and_true] at roles
  rintro _ (_ | ⟨fitsSign, _ | ⟨fitsName, _ | _⟩⟩)
  simp only [Fits, roles] at fitsSign
  obtain ⟨sign, rfl, _⟩ := fitsSign
  obtain ⟨name, rfl, word⟩ := fitsName
  simp only [Outcome, variableReference, Fits, roles]
  exact ⟨_, rfl, keeps.reference (keeps.variableName word)⟩

/-! ### All rules -/

/-- **What each rule makes of fitting parts**: a part that fits its left side, unless an axis is unknown. -/
theorem builds_productions : List.Forall₂ (Builds W P Q) rules (productions.map Prod.snd) :=
  -- from each level of precedence to the next one
  .cons (builds_keep ⟨rfl, rfl⟩ (by decide)) <| .cons (builds_keep ⟨rfl, rfl⟩ (by decide)) <|
  .cons (builds_keep ⟨rfl, rfl⟩ (by decide)) <| .cons (builds_keep ⟨rfl, rfl⟩ (by decide)) <|
  .cons (builds_keep ⟨rfl, rfl⟩ (by decide)) <| .cons (builds_keep ⟨rfl, rfl⟩ (by decide)) <|
  .cons (builds_keep ⟨rfl, rfl⟩ (by decide)) <| .cons (builds_keep ⟨rfl, rfl⟩ (by decide)) <|
  .cons (builds_keep ⟨rfl, rfl⟩ (by decide)) <|
  -- operations
  .cons (builds_operation keeps .or rfl) <| .cons (builds_operation keeps .and rfl) <|
  .cons (builds_operation keeps .equal rfl) <| .cons (builds_operation keeps .notEqual rfl) <|
  .cons (builds_operation keeps .less rfl) <| .cons (builds_operation keeps .greater rfl) <|
  .cons (builds_operation keeps .lessOrEqual rfl) <| .cons (builds_operation keeps .greaterOrEqual rfl) <|
  .cons (builds_operation keeps .plus rfl) <| .cons (builds_operation keeps .minus rfl) <|
  .cons (builds_operation keeps .multiply rfl) <| .cons (builds_operation keeps .div rfl) <|
  .cons (builds_operation keeps .mod rfl) <| .cons (builds_negation keeps rfl) <|
  .cons (builds_operation keeps .union rfl) <|
  -- paths and filter expressions
  .cons (builds_locationExpr keeps rfl) <| .cons (builds_keep ⟨rfl, rfl⟩ (by decide)) <|
  .cons (builds_filteredPath keeps rfl) <| .cons (builds_filteredPath keeps rfl) <|
  .cons (builds_keep ⟨rfl, rfl⟩ (by decide)) <| .cons (builds_filterPredicate keeps rfl) <|
  .cons (builds_relativePath ⟨rfl, rfl⟩) <| .cons (builds_keep ⟨rfl, rfl⟩ (by decide)) <|
  .cons (builds_rootPath rfl) <| .cons (builds_absolutePath keeps rfl) <| .cons (builds_absolutePath keeps rfl) <|
  .cons (builds_firstStep rfl) <| .cons (builds_nextStep keeps rfl) <| .cons (builds_nextStep keeps rfl) <|
  -- steps
  .cons (builds_step_axis rfl) <| .cons (builds_step_axis_predicates rfl) <| .cons (builds_step rfl) <|
  .cons (builds_step_predicates rfl) <| .cons (builds_anyNodeStep keeps .self rfl) <|
  .cons (builds_anyNodeStep keeps .parent rfl) <| .cons (builds_namedAxis rfl) <|
  .cons (builds_attributeAxis rfl) <|
  -- node tests
  .cons (builds_keep ⟨rfl, rfl⟩ (by decide)) <| .cons (builds_typeTest keeps rfl) <|
  .cons (builds_targetTest keeps rfl) <|
  .cons (builds_nameTest (fun _ => keeps.nameless (by decide)) rfl) <|
  .cons (builds_nameTest keeps.anyNameIn rfl) <| .cons (builds_nameTest keeps.nameTest rfl) <|
  -- predicates
  .cons (builds_firstExpr rfl) <| .cons (builds_nextPredicate rfl) <| .cons (builds_between rfl) <|
  -- primary expressions
  .cons (builds_keep ⟨rfl, rfl⟩ (by decide)) <| .cons (builds_between rfl) <| .cons (builds_literal keeps rfl) <|
  .cons (builds_numeral keeps rfl) <| .cons (builds_keep ⟨rfl, rfl⟩ (by decide)) <|
  .cons (builds_call keeps rfl) <| .cons (builds_call_arguments keeps rfl) <| .cons (builds_firstExpr rfl) <|
  .cons (builds_nextArgument rfl) <| .cons (builds_reference keeps rfl) .nil

theorem builds_getD {p : Nat} {production : Production} (found : grammar.productions[p]? = some production) :
    Builds W P Q production (builders.getD p keep) := by
  have all : List.Forall₂ (Builds W P Q) grammar.productions (keep :: productions.map Prod.snd) := by
    rw [grammar_eq]
    exact .cons (builds_keep ⟨rfl, rfl⟩ (by decide)) (builds_productions keeps)
  obtain ⟨lengths, each⟩ := List.forall₂_iff_get.mp all
  obtain ⟨inList, rfl⟩ := List.getElem?_eq_some_iff.mp found
  have inBuilders : p < (keep :: productions.map Prod.snd).length := lengths ▸ inList
  have stored : builders.getD p keep = (keep :: productions.map Prod.snd)[p] := by
    rw [builders, Array.getD_eq_getD_getElem?, List.getElem?_toArray, List.getElem?_eq_getElem inBuilders,
      Option.getD_some]
  rw [stored]
  exact each p inList inBuilders

/-! ### Derivation trees -/

/-- A derivation tree whose words are known: those of its leaves by their terminals, but the name after the sign of a
variable as a name of a variable. -/
inductive Worded (W : String → String → Prop) (V : String → Prop) : Tree → Prop
  | leaf {token : Grammar.Token} : W token.kind token.text → Worded W V (.leaf token)
  | node {p : Nat} {children : List Tree} : (∀ child ∈ children, Worded W V child) → Worded W V (.node p children)
  | reference {sign name : Grammar.Token} : V name.text → Worded W V (.node 65 [.leaf sign, .leaf name])

omit keeps in
/-- The values of a row of trees, or the first failure on the way to them. -/
theorem outcome_foldAll {symbols : List String} {trees : List Tree}
    (all : List.Forall₂ (fun s tree => Outcome W P Q s (tree.fold semantics)) symbols trees) :
    match Tree.foldAll semantics trees with
    | .ok parts => List.Forall₂ (Fits W P Q) symbols parts
    | .error cause => ∃ name, cause = .unknownAxis name := by
  induction all with
  | nil => exact .nil
  | @cons s tree symbols trees first _ ih =>
    rw [Tree.foldAll]
    cases folded : tree.fold semantics with
    | error cause =>
      rw [folded] at first
      exact first
    | ok part =>
      rw [folded] at first
      cases foldedAll : Tree.foldAll semantics trees with
      | error cause =>
        rw [foldedAll] at ih
        exact ih
      | ok parts =>
        rw [foldedAll] at ih
        exact .cons first ih

/-- **The value of a derivation tree** is a part of its symbol, unless an axis is unknown. -/
theorem outcome_fold {tree : Tree} {s : String} (derives : grammar.Derives s tree) (worded : Worded W V tree) :
    Outcome W P Q s (tree.fold semantics) := by
  induction tree using Tree.induction generalizing s with
  | leaf token =>
    cases derives with
    | leaf notLeft =>
      cases worded with
      | leaf word =>
        simp only [Outcome, Tree.fold, Fits, roleOf_of_not_mem notLeft]
        exact ⟨_, rfl, word⟩
  | node p children ih =>
    cases derives with
    | @node _ production _ found derivesAll =>
      cases worded with
      | node words =>
        have all : List.Forall₂ (fun s tree => Outcome W P Q s (tree.fold semantics)) production.right children := by
          refine List.forall₂_iff_zip.mpr ⟨derivesAll.length_eq, fun {s tree} inZip => ?_⟩
          have member : tree ∈ children := (List.of_mem_zip inZip).2
          exact ih tree member (List.forall₂_zip (derivesAll_iff.mp derivesAll) inZip) (words tree member)
        have values := outcome_foldAll all
        rw [Tree.fold]
        cases folded : Tree.foldAll semantics children with
        | error cause =>
          rw [folded] at values
          exact values
        | ok parts =>
          rw [folded] at values
          exact builds_getD keeps found parts values
      | @reference sign name isName =>
        rw [grammar_eq] at found
        obtain rfl := Option.some.inj found
        exact ⟨_, rfl, keeps.reference isName⟩

end Operations

end Builders

end XPathAnnotator.Expr
