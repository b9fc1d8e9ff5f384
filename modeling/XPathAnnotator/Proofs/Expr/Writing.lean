/-
**The written form of an expression, token by token.**

Wherever an operand may begin, and whatever may come after it, the written form of an expression is cut into its
tokens. The last of them ends an operand, unless it is the slash of the root. So an operator that looks like a name
is read as an operator after every operand but the root, behind however many minus signs.

* `Expr.Writes`, `Step.Writes` — the written form is cut into the tokens;
* `lexes_each` — lists: predicates, further steps and arguments;
* `writes_expr` — the induction over expressions;
* `tokenize_print` — **the written form of an expression is cut into its tokens**.
-/

import Mathlib
import XPathAnnotator.Proofs.Expr.Neighbours

namespace XPathAnnotator

open XPathAnnotator.Name XPathAnnotator.Text XPathAnnotator.Token

/-- What may come after an expression: not a slash after the root. -/
def Expr.Follows (e : Expr) (rest : List Char) : Prop :=
  Closes rest ∧ (e.EndsAtRoot → rest.head? ≠ some '/')

/-- The written form of an expression is cut into its tokens where an operand may begin. -/
def Expr.Writes (e : Expr) : Prop :=
  ∀ previous, Open previous → ∃ last, (endsOperand last = true ∨ e.EndsAtRoot) ∧
    Lexes previous e.print.toList e.tokens last e.Follows

/-- The same of a step. -/
def Step.Writes (step : Step) : Prop :=
  ∀ previous, Open previous → ∃ last, endsOperand last = true ∧
    Lexes previous step.print.toList step.tokens last Closes

namespace Expr

/-! ### Lists -/

/-- **A list is cut into tokens** item by item, where each may follow any token and may come after any item. -/
theorem lexes_each {α : Type} (holds : Option Kind → Prop) {follow : List Char → Prop} {write : α → List Char}
    {item : α → List Token} {xs : List α}
    (each : ∀ x ∈ xs, ∀ previous, ∃ last, holds last ∧ Lexes previous (write x) (item x) last follow)
    (leads : ∀ x ∈ xs, ∀ rest, follow (write x ++ rest)) {previous : Option Kind}
    (start : holds previous ∨ xs ≠ []) :
    ∃ last, holds last ∧ Lexes previous (xs.flatMap write) (xs.flatMap item) last follow := by
  induction xs generalizing previous with
  | nil => exact ⟨previous, start.resolve_right (by simp), Lexes.nil⟩
  | cons x xs ih =>
    obtain ⟨middle, holdsMiddle, first⟩ := each x List.mem_cons_self previous
    obtain ⟨last, holdsLast, others⟩ := ih (fun y member => each y (List.mem_cons_of_mem _ member))
      (fun y member => leads y (List.mem_cons_of_mem _ member)) (.inl holdsMiddle)
    refine ⟨last, holdsLast, ?_⟩
    rw [List.flatMap_cons, List.flatMap_cons]
    refine first.append others fun rest condition => ?_
    cases xs with
    | nil => exact condition
    | cons y xs =>
      rw [List.flatMap_cons, List.append_assoc]
      exact leads y (List.mem_cons_of_mem _ List.mem_cons_self) _

theorem toList_intercalate (separator first : String) (texts : List String) :
    (separator.intercalate (first :: texts)).toList =
      first.toList ++ texts.flatMap fun text => separator.toList ++ text.toList := by
  induction texts generalizing first with
  | nil => simp
  | cons text texts ih =>
    rw [String.intercalate_cons_cons, String.toList_append, String.toList_append, ih, List.flatMap_cons,
      List.append_assoc, List.append_assoc]

theorem printAll_eq (es : List Expr) : printAll es = es.map print := by
  induction es with
  | nil => rfl
  | cons e es ih => rw [printAll, ih, List.map_cons]

theorem printAll_steps_eq (steps : List Step) : Step.printAll steps = steps.map Step.print := by
  induction steps with
  | nil => rfl
  | cons step steps ih => rw [Step.printAll, ih, List.map_cons]

/-- A predicate as it is written. -/
def predicateChars (e : Expr) : List Char := '[' :: (e.print.toList ++ [']'])

/-- A further step as it is written. -/
def furtherChars (step : Step) : List Char := '/' :: step.print.toList

/-- A further argument as it is written. -/
def argumentChars (e : Expr) : List Char := ',' :: ' ' :: e.print.toList

theorem toList_printPredicates (es : List Expr) : (printPredicates es).toList = es.flatMap predicateChars := by
  induction es with
  | nil => rfl
  | cons e es ih =>
    rw [printPredicates, String.toList_append, String.toList_append, String.toList_append, ih, List.flatMap_cons]
    rfl

theorem toList_intercalate_steps (step : Step) (steps : List Step) :
    ("/".intercalate (Step.printAll (step :: steps))).toList = step.print.toList ++ steps.flatMap furtherChars := by
  rw [printAll_steps_eq, List.map_cons, toList_intercalate, List.flatMap_map]
  rfl

theorem toList_intercalate_arguments (e : Expr) (es : List Expr) :
    (", ".intercalate (printAll (e :: es))).toList = e.print.toList ++ es.flatMap argumentChars := by
  rw [printAll_eq, List.map_cons, toList_intercalate, List.flatMap_map]
  rfl

/-! ### Forms as they are written -/

theorem toList_print_step (axis : Axis) (test : NodeTest) (es : List Expr) : (Step.mk axis test es).print.toList =
    axis.name.toList ++ "::".toList ++ (test.print.toList ++ es.flatMap predicateChars) := by
  rw [Step.print, String.toList_append, String.toList_append, String.toList_append, toList_printPredicates,
    List.append_assoc]

theorem toList_print_binary (operator : Operator) (left right : Expr) : (binary operator left right).print.toList =
    ['('] ++ (left.print.toList ++
      ([' '] ++ (operator.symbol.toList ++ ([' '] ++ (right.print.toList ++ [')']))))) := by
  have written : (binary operator left right).print =
      "(" ++ left.print ++ " " ++ operator.symbol ++ " " ++ right.print ++ ")" := rfl
  simp only [written, String.toList_append, List.append_assoc]
  rfl

theorem toList_print_relative (step : Step) (steps : List Step) :
    (path false (step :: steps)).print.toList = step.print.toList ++ steps.flatMap furtherChars := by
  have written : (path false (step :: steps)).print = "" ++ "/".intercalate (Step.printAll (step :: steps)) := rfl
  rw [written, String.toList_append, toList_intercalate_steps]
  rfl

theorem toList_print_absolute (step : Step) (steps : List Step) :
    (path true (step :: steps)).print.toList = (step :: steps).flatMap furtherChars := by
  have written : (path true (step :: steps)).print = "/" ++ "/".intercalate (Step.printAll (step :: steps)) := rfl
  rw [written, String.toList_append, toList_intercalate_steps]
  rfl

theorem toList_print_filter (base : Expr) (es : List Expr) (steps : List Step) :
    (filter base es steps).print.toList =
      base.print.toList ++ es.flatMap predicateChars ++ steps.flatMap furtherChars := by
  cases steps with
  | nil =>
    have written : (filter base es []).print = base.print ++ printPredicates es ++ "" := rfl
    rw [written, String.toList_append, String.toList_append, toList_printPredicates]
    rfl
  | cons step steps =>
    have written : (filter base es (step :: steps)).print =
        base.print ++ printPredicates es ++ ("/" ++ "/".intercalate (Step.printAll (step :: steps))) := rfl
    rw [written, String.toList_append, String.toList_append, String.toList_append, toList_printPredicates,
      toList_intercalate_steps]
    rfl

theorem toList_print_call (function : QName) (es : List Expr) : (call function es).print.toList =
    function.text.toList ++ (['('] ++ ((", ".intercalate (printAll es)).toList ++ [')'])) := by
  have written : (call function es).print = function.text ++ "(" ++ ", ".intercalate (printAll es) ++ ")" := rfl
  simp only [written, String.toList_append, List.append_assoc]
  rfl

/-! ### Predicates and steps -/

theorem open_mark (text : String) (mark : text ∈ ["(", "[", ",", "/", "-"]) : Open (some (.symbol text)) := by
  have all : ∀ text ∈ ["(", "[", ",", "/", "-"], endsOperand (some (.symbol text)) = false ∧
      some (Kind.symbol text) ≠ some (.symbol "$") := by decide
  exact ⟨(all text mark).1, (all text mark).2⟩

section Lists

variable {es : List Expr} {steps : List Step} {rest : List Char}

theorem follows_mark (e : Expr) {c : Char} (mark : c ∈ [')', ']', ',']) : e.Follows (c :: rest) := by
  simp only [List.mem_cons, List.not_mem_nil, or_false] at mark
  rcases mark with rfl | rfl | rfl <;> exact ⟨closes_mark (by decide) rest, fun _ => by simp⟩

/-- **Predicates** after the end of an operand. -/
theorem writes_predicates (all : ∀ e ∈ es, e.Writes) {previous : Option Kind}
    (operand : endsOperand previous = true) : ∃ last, endsOperand last = true ∧
      Lexes previous (es.flatMap predicateChars) (predicateTokens es) last Closes := by
  rw [predicateTokens_eq]
  refine lexes_each (fun last => endsOperand last = true) (fun e member previous => ?_)
    (fun e _ rest => closes_mark (by decide) _) (.inl operand)
  obtain ⟨last, _, lexes⟩ := all e member _ (open_mark "[" (by decide))
  have closed := lexes.append (lexes_mark last ']' (by decide)) fun rest _ => follows_mark e (by decide)
  exact ⟨some (.symbol "]"), by decide, ((lexes_mark _ '[' (by decide)).before closed).mono fun _ _ => trivial⟩

theorem closes_predicates (closes : Closes rest) : Closes (es.flatMap predicateChars ++ rest) := by
  cases es with
  | nil => exact closes
  | cons e es => exact closes_mark (by decide) _

theorem closes_further (closes : Closes rest) : Closes (steps.flatMap furtherChars ++ rest) := by
  cases steps with
  | nil => exact closes
  | cons step steps => exact closes_mark (by decide) _

/-- **A step** is an axis, a node test and predicates. -/
theorem writes_step (axis : Axis) {test : NodeTest} (made : test.Made) (legible : test.Legible)
    (all : ∀ e ∈ es, e.Writes) : (Step.mk axis test es).Writes := by
  intro previous isOpen
  obtain ⟨middle, operand, lexesTest⟩ := lexes_test made legible
  obtain ⟨last, ends, predicates⟩ := writes_predicates all operand
  have testAndPredicates := lexesTest.append predicates fun rest closes => closes_predicates closes
  have whole := (lexes_axis isOpen axis).before testAndPredicates
  refine ⟨last, ends, ?_⟩
  rw [toList_print_step]
  exact whole

/-- A step begins with the name of its axis. -/
theorem exists_step_toList (step : Step) : ∃ c cs, step.print.toList = c :: cs ∧ isNameStart c = true := by
  obtain ⟨axis, test, predicates⟩ := step
  obtain ⟨c, cs, written, start, _⟩ := isNCName_iff.mp (isNCName_axis axis)
  rw [toList_print_step, written]
  exact ⟨c, _, rfl, start⟩

/-- A step does not begin with a slash. -/
theorem head?_step (step : Step) : (step.print.toList ++ rest).head? ≠ some '/' := by
  obtain ⟨c, cs, written, start⟩ := exists_step_toList step
  have noSlash : c ≠ '/' := ne_of_isNameStart start (by decide)
  rw [written]
  simpa using noSlash

/-- **Further steps**, each after a slash. -/
theorem writes_further (all : ∀ step ∈ steps, step.Writes) (previous : Option Kind)
    (start : endsOperand previous = true ∨ steps ≠ []) : ∃ last, endsOperand last = true ∧
      Lexes previous (steps.flatMap furtherChars) (Step.furtherTokens steps) last Closes := by
  rw [furtherTokens_steps_eq]
  refine lexes_each (fun last => endsOperand last = true) (fun step member previous => ?_)
    (fun step _ rest => closes_mark (by decide) _) start
  obtain ⟨last, operand, lexes⟩ := all step member _ (open_mark "/" (by decide))
  exact ⟨last, operand, (lexes_slash _).append lexes fun rest _ => head?_step step⟩

/-- **Arguments**, with a comma and a blank between them. -/
theorem writes_arguments (all : ∀ e ∈ es, e.Writes) {previous : Option Kind} (isOpen : Open previous) :
    ∃ last, Lexes previous (", ".intercalate (printAll es)).toList (tokensOf es) last
      fun rest => Closes rest ∧ rest.head? ≠ some '/' := by
  cases es with
  | nil => exact ⟨previous, Lexes.nil⟩
  | cons e es =>
    obtain ⟨middle, _, first⟩ := all e List.mem_cons_self previous isOpen
    have others : ∃ last, True ∧ Lexes middle (es.flatMap argumentChars) (furtherTokens es) last
        fun rest => Closes rest ∧ rest.head? ≠ some '/' := by
      rw [furtherTokens_eq]
      refine lexes_each (fun _ => True) (fun e member previous => ?_)
        (fun e _ rest => ⟨closes_mark (by decide) _, by simp [argumentChars]⟩) (.inl trivial)
      obtain ⟨last, _, lexes⟩ := all e (List.mem_cons_of_mem _ member) _ (open_mark "," (by decide))
      have whole := (lexes_mark previous ',' (by decide)).before ((lexes_blank _).before lexes)
      exact ⟨last, trivial, whole.mono fun rest condition => ⟨condition.1, fun _ => condition.2⟩⟩
    obtain ⟨last, _, lexes⟩ := others
    refine ⟨last, ?_⟩
    rw [toList_intercalate_arguments]
    refine first.append lexes fun rest condition => ?_
    cases es with
    | nil => exact ⟨condition.1, fun _ => condition.2⟩
    | cons e' es => exact @follows_mark _ e ',' (by decide)

end Lists

/-! ### Expressions -/

section Forms

variable {es : List Expr} {steps : List Step}

theorem writes_negate {operand : Expr} (writes : operand.Writes) : (Expr.negate operand).Writes := by
  intro previous _
  obtain ⟨last, ends, lexes⟩ := writes _ (open_mark "-" (by decide))
  refine ⟨last, ends, ?_⟩
  rw [print, String.toList_append]
  exact (lexes_mark _ '-' (by decide)).before lexes

/-- **An operation** stands between parentheses, with blanks around its operator. -/
theorem writes_binary (operator : Operator) {left right : Expr} (writesLeft : left.Writes)
    (writesRight : right.Writes) (legible : operator.LooksLikeName → ¬ left.EndsAtRoot) :
    (Expr.binary operator left right).Writes := by
  intro previous _
  obtain ⟨middle, ends, lexesLeft⟩ := writesLeft _ (open_mark "(" (by decide))
  obtain ⟨_, _, lexesRight⟩ := writesRight _ (open_operator operator)
  have closed := lexesRight.append (lexes_mark _ ')' (by decide)) fun rest _ => follows_mark right (by decide)
  have rightSide := (lexes_blank _).before closed
  have operand : operator.LooksLikeName → endsOperand middle = true :=
    fun looksLikeName => ends.resolve_right (legible looksLikeName)
  have fromOperator := (lexes_operator operator operand).append rightSide fun rest _ => rfl
  have inside := lexesLeft.append ((lexes_blank _).before fromOperator) fun rest _ => ⟨?_, fun _ => by simp⟩
  · have whole := (lexes_mark previous '(' (by decide)).before inside
    have tokensEq : (Expr.binary operator left right).tokens = [Token.symbol "("] ++ (left.tokens ++
        ([] ++ ([operator.token] ++ ([] ++ (right.tokens ++ [Token.symbol ")"]))))) := by
      simp only [tokens, List.append_assoc, List.cons_append, List.nil_append]
    refine ⟨some (.symbol ")"), .inl (by decide), ?_⟩
    rw [toList_print_binary, tokensEq]
    exact whole.mono fun _ _ => trivial
  · rw [List.append_assoc, List.append_assoc]
    exact closes_operator operator _

/-- **A location path** begins with a slash or a step. -/
theorem writes_path {absolute : Bool} (made : absolute = true ∨ steps ≠ []) (all : ∀ step ∈ steps, step.Writes) :
    (Expr.path absolute steps).Writes := by
  intro previous isOpen
  cases absolute with
  | false =>
    obtain ⟨step, others, rfl⟩ := List.exists_cons_of_ne_nil (made.resolve_left (by simp))
    obtain ⟨middle, operand, first⟩ := all step List.mem_cons_self previous isOpen
    obtain ⟨last, ends, further⟩ := writes_further (fun x member => all x (List.mem_cons_of_mem _ member)) _
      (.inl operand)
    refine ⟨last, .inl ends, ?_⟩
    rw [toList_print_relative, tokens]
    exact (first.append further fun rest closes => closes_further closes).mono fun rest follows => follows.1
  | true =>
    cases steps with
    | nil =>
      have written : (Expr.path true []).print.toList = "/".toList := by
        rw [print, String.toList_append]
        rfl
      refine ⟨some (.symbol "/"), .inr trivial, ?_⟩
      rw [written, tokens]
      exact (lexes_slash previous).mono fun rest follows => follows.2 trivial
    | cons step others =>
      obtain ⟨last, ends, further⟩ := writes_further all previous (.inr (List.cons_ne_nil step others))
      refine ⟨last, .inl ends, ?_⟩
      rw [toList_print_absolute, tokens]
      exact further.mono fun rest follows => follows.1

/-- **A filter expression** is an operand with predicates and further steps. -/
theorem writes_filter {base : Expr} (writesBase : base.Writes) (operand : ¬ base.EndsAtRoot)
    (all : ∀ e ∈ es, e.Writes) (allSteps : ∀ step ∈ steps, step.Writes) :
    (Expr.filter base es steps).Writes := by
  intro previous isOpen
  obtain ⟨afterBase, ends, lexesBase⟩ := writesBase previous isOpen
  obtain ⟨afterPredicates, endsPredicates, predicates⟩ := writes_predicates all (ends.resolve_right operand)
  obtain ⟨last, endsSteps, further⟩ := writes_further allSteps _ (.inl endsPredicates)
  have withPredicates := lexesBase.append predicates fun rest closes =>
    ⟨closes_predicates closes, fun root => absurd root operand⟩
  refine ⟨last, .inl endsSteps, ?_⟩
  rw [toList_print_filter, tokens]
  exact (withPredicates.append further fun rest closes => closes_further closes).mono fun rest follows => follows.1

/-- **A function call** is a name with arguments between parentheses. -/
theorem writes_call {function : QName} (proper : function.Proper) (noType : function.text ∉ nodeTypes)
    (all : ∀ e ∈ es, e.Writes) : (Expr.call function es).Writes := by
  intro previous isOpen
  obtain ⟨last, arguments⟩ := writes_arguments all (open_mark "(" (by decide))
  have closed := arguments.append (lexes_mark _ ')' (by decide)) fun rest _ => ⟨closes_mark (by decide) rest, by simp⟩
  have unlisted : nodeTypes.contains function.text = false := by simpa using noType
  have name := @lexes_name previous function (.inl proper) .functionName
  have whole := name.append ((lexes_mark _ '(' (by decide)).before closed) fun rest _ =>
    ⟨endsName_cons (by decide) (by decide) _, ?_⟩
  · refine ⟨some (.symbol ")"), .inl (by decide), ?_⟩
    rw [toList_print_call, tokens]
    exact whole.mono fun _ _ => trivial
  · rw [List.append_assoc, List.singleton_append, isOpen.classifyName_of_parenthesis proper.endsWith_star, unlisted]
    rfl

/-- **A reference to a variable** is a name, or a qualified star, after its sign. -/
theorem writes_reference {variableName : QName} (made : variableName.Proper ∨ variableName.Starred) :
    (Expr.reference variableName).Writes := by
  intro previous _
  refine ⟨some .name, .inl rfl, ?_⟩
  rw [print, String.toList_append, tokens]
  have name := (lexes_name made .name).mono fun (rest : List Char) (closes : Closes rest) =>
    ⟨closes.endsName, classifyName_variable⟩
  exact ((lexes_mark previous '$' (by decide)).before name).mono fun rest follows => follows.1

end Forms

/-! ### The induction over expressions -/

theorem not_endsAtRoot {e : Expr} (noNegation : ¬ e.IsNegation) (noPath : ¬ e.IsPath) : ¬ e.EndsAtRoot := by
  cases e
  case negate => exact absurd trivial noNegation
  case path => exact absurd trivial noPath
  all_goals exact id

mutual

/-- **The written form of an expression is cut into its tokens** between its neighbours. -/
theorem writes_expr (e : Expr) (printable : e.Printable EndsAtRoot) : e.Writes := by
  match e with
  | .text value =>
    intro previous _
    refine ⟨some .literal, .inl rfl, ?_⟩
    rw [print, tokens]
    exact (lexes_literal printable.self.1).mono fun _ _ => trivial
  | .number value =>
    intro previous _
    refine ⟨some .number, .inl rfl, ?_⟩
    obtain ⟨made, d, parts, _⟩ := printable.self
    obtain ⟨whole, fraction, digits, written, _⟩ := Number.exists_numeral parts (Number.Unsigned.negative made parts)
    rw [print, tokens, written, String.toList_ofList]
    exact (lexes_numeral digits).mono fun rest follows => follows.1.endsNumeral
  | .negate operand =>
    unfold Expr.Printable Expr.Everywhere at printable
    exact writes_negate (writes_expr operand printable.2)
  | .binary operator left right =>
    unfold Expr.Printable Expr.Everywhere at printable
    exact writes_binary operator (writes_expr left printable.2.1) (writes_expr right printable.2.2)
      printable.1.2.2
  | .path absolute steps =>
    unfold Expr.Printable Expr.Everywhere at printable
    exact writes_path printable.1.1 (writes_steps steps printable.2)
  | .filter base predicates steps =>
    unfold Expr.Printable Expr.Everywhere at printable
    obtain ⟨⟨_, noNegation, noPath⟩, printableBase, printablePredicates, printableSteps⟩ := printable
    exact writes_filter (writes_expr base printableBase) (not_endsAtRoot noNegation noPath)
      (writes_all predicates printablePredicates) (writes_steps steps printableSteps)
  | .call function arguments =>
    unfold Expr.Printable Expr.Everywhere at printable
    exact writes_call printable.1.1.1 printable.1.1.2 (writes_all arguments printable.2)
  | .reference variableName => exact writes_reference printable.self.1

theorem writes_all (es : List Expr)
    (printable : Expr.AllEverywhere (fun e => e.Made ∧ e.Legible EndsAtRoot)
      (fun test => test.Made ∧ test.Legible) es) : ∀ e ∈ es, e.Writes := by
  match es with
  | [] => simp
  | e :: es =>
    unfold Expr.AllEverywhere at printable
    exact List.forall_mem_cons.mpr ⟨writes_expr e printable.1, writes_all es printable.2⟩

theorem writes_steps (steps : List Step)
    (printable : Step.AllEverywhere (fun e => e.Made ∧ e.Legible EndsAtRoot)
      (fun test => test.Made ∧ test.Legible) steps) : ∀ step ∈ steps, step.Writes := by
  match steps with
  | [] => simp
  | .mk axis test predicates :: steps =>
    unfold Step.AllEverywhere Step.Everywhere at printable
    obtain ⟨⟨⟨made, legible⟩, printablePredicates⟩, printableSteps⟩ := printable
    exact List.forall_mem_cons.mpr
      ⟨writes_step axis made legible (writes_all predicates printablePredicates), writes_steps steps printableSteps⟩

end

/-- **The written form of an expression is cut into its tokens.** -/
theorem tokenize_print {e : Expr} (printable : e.Printable EndsAtRoot) : tokenize e.print = .ok e.tokens := by
  have isOpen : Open none := ⟨rfl, by simp⟩
  obtain ⟨last, _, lexes⟩ := writes_expr e printable none isOpen
  exact lexes.tokensAfter_eq ⟨closes_nil, fun _ => by simp⟩

end Expr

end XPathAnnotator
