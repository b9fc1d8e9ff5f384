/-
**The tokens of an expression.**

`Expr.tokens` are the tokens of the written form of an expression. By the rules of the grammar they are read as
this expression again: an operation between parentheses, a location path and a unary minus each on its level of
precedence, from which it rises to the next one by rules with one symbol on the right.

* `Reads.rise` — from one level of precedence to a higher one;
* `reads_each` — lists that grow to the right: predicates, steps and arguments;
* `reads_tokens` — **the tokens of an expression are read as this expression**.
-/

import Mathlib
import XPathAnnotator.Proofs.Expr.Everywhere
import XPathAnnotator.Proofs.Expr.Rules

namespace XPathAnnotator

open XPathAnnotator.Name

/-! ### Tokens -/

/-- The token of a symbol. -/
def Token.symbol (text : String) : Token := ⟨.symbol text, text⟩

/-- The token of an operator after an operand. -/
def Operator.token : Operator → Token
  | .multiply => ⟨.multiply, "*"⟩
  | operator => Token.symbol operator.symbol

/-- The tokens of a node type. -/
def NodeTest.typeTokens (name : String) : List Token :=
  [⟨.nodeType, name⟩, Token.symbol "(", Token.symbol ")"]

/-- The tokens of a node test. -/
def NodeTest.tokens : NodeTest → List Token
  | anyName => [⟨.anyName, "*"⟩]
  | anyNameIn qualifier => [⟨.anyNameIn, qualifier ++ ":*"⟩]
  | .name written => [⟨.name, written.text⟩]
  | comment => typeTokens "comment"
  | .text => typeTokens "text"
  | instruction none => typeTokens "processing-instruction"
  | instruction (some target) =>
    [⟨.targetTest, "processing-instruction"⟩, Token.symbol "(", ⟨.literal, target⟩, Token.symbol ")"]
  | anyNode => typeTokens "node"

mutual

/-- The tokens of an expression. -/
def Expr.tokens : Expr → List Token
  | .text value => [⟨.literal, value⟩]
  | .number value => [⟨.number, Number.toText value⟩]
  | .negate operand => Token.symbol "-" :: operand.tokens
  | .binary operator left right =>
    Token.symbol "(" :: (left.tokens ++ operator.token :: right.tokens ++ [Token.symbol ")"])
  | .path true steps => Token.symbol "/" :: Step.tokensOf steps
  | .path false steps => Step.tokensOf steps
  | .filter base predicates steps =>
    base.tokens ++ Expr.predicateTokens predicates ++ Step.furtherTokens steps
  | .call function arguments =>
    ⟨.functionName, function.text⟩ :: Token.symbol "(" :: (Expr.tokensOf arguments ++ [Token.symbol ")"])
  | .reference variableName => [Token.symbol "$", ⟨.name, variableName.text⟩]

/-- The tokens of expressions with commas between them. -/
def Expr.tokensOf : List Expr → List Token
  | [] => []
  | e :: es => e.tokens ++ Expr.furtherTokens es

/-- The tokens of expressions with a comma before each. -/
def Expr.furtherTokens : List Expr → List Token
  | [] => []
  | e :: es => Token.symbol "," :: (e.tokens ++ Expr.furtherTokens es)

/-- The tokens of predicates. -/
def Expr.predicateTokens : List Expr → List Token
  | [] => []
  | e :: es => Token.symbol "[" :: (e.tokens ++ Token.symbol "]" :: Expr.predicateTokens es)

/-- The tokens of a step. -/
def Step.tokens : Step → List Token
  | .mk axis test predicates =>
    ⟨.axisName, axis.name⟩ :: Token.symbol "::" :: (test.tokens ++ Expr.predicateTokens predicates)

/-- The tokens of steps with slashes between them. -/
def Step.tokensOf : List Step → List Token
  | [] => []
  | step :: steps => step.tokens ++ Step.furtherTokens steps

/-- The tokens of steps with a slash before each. -/
def Step.furtherTokens : List Step → List Token
  | [] => []
  | step :: steps => Token.symbol "/" :: (step.tokens ++ Step.furtherTokens steps)

end

namespace Expr

open Grammar

/-! ### Terminals -/

/-- The terminals of the tokens that expressions are written with. -/
def printTerminals : List String :=
  ["or", "and", "=", "!=", "<", ">", "<=", ">=", "+", "-", "MULTIPLY", "div", "mod", "|", "/", "[", "]", "(", ")",
    ",", "$", "::", "AXIS_NAME", "NODE_TYPE", "PI_WITH_LITERAL", "LITERAL", "ASTERISK_NAME_TEST",
    "NCNAME_COLON_ASTERISK", "QNAME", "NUMBER", "FUNCTION_NAME"]

theorem mem_terminals {s : String} (member : s ∈ printTerminals) : s ∈ grammar.terminals := by
  have all : ∀ s ∈ printTerminals, s ∈ (Grammar.mk "Expr" rules).terminals := by decide
  rw [grammar_eq]
  exact all s member

section Tokens

variable {symbols : List String} {more : List Token} {parts : List Part}

/-- One token before the others. -/
theorem ReadsAll.token (kind : Token.Kind) (text : String) (member : kind.terminal ∈ printTerminals)
    (rest : ReadsAll symbols more parts) :
    ReadsAll (kind.terminal :: symbols) (⟨kind, text⟩ :: more) (.word text :: parts) :=
  .cons (@reads_token ⟨kind, text⟩ (mem_terminals member)) rest

/-- One symbol before the others. -/
theorem ReadsAll.symbol (text : String) (member : text ∈ printTerminals) (rest : ReadsAll symbols more parts) :
    ReadsAll (text :: symbols) (Token.symbol text :: more) (.word text :: parts) :=
  .token (.symbol text) text member rest

end Tokens

/-- A reading of the last symbol. -/
theorem Reads.last {s : String} {tokens : List Token} {part : Part} (reads : Reads s tokens part) :
    ReadsAll [s] tokens [part] := by
  have all := ReadsAll.cons reads .nil
  rwa [List.append_nil] at all

/-! ### Levels of precedence -/

/-- The symbols of expressions from filter expressions on, each with a rule that makes it of the one before. -/
def level : Nat → String
  | 0 => "FilterExpr"
  | 1 => "PathExpr"
  | 2 => "UnionExpr"
  | 3 => "UnaryExpr"
  | 4 => "MultiplicativeExpr"
  | 5 => "AdditiveExpr"
  | 6 => "RelationalExpr"
  | 7 => "EqualityExpr"
  | 8 => "AndExpr"
  | 9 => "OrExpr"
  | _ => "Expr"

variable {tokens : List Token} {part : Part}

theorem Reads.keep {s : String} (reads : Reads s tokens part) {k : Nat} {left : String}
    (found : rules[k]? = some ⟨left, [s], List.cons_ne_nil _ _⟩)
    (kept : builders.getD (k + 1) Expr.keep [part] = .ok part) : Reads left tokens part :=
  Reads.of_rule found reads.last kept

theorem Reads.rise_one {i : Nat} (below : i < 10) (reads : Reads (level i) tokens part) :
    Reads (level (i + 1)) tokens part := by
  match i with
  | 0 => exact @Reads.keep _ _ _ reads 25 _ rfl rfl
  | 1 => exact @Reads.keep _ _ _ reads 8 _ rfl rfl
  | 2 => exact @Reads.keep _ _ _ reads 7 _ rfl rfl
  | 3 => exact @Reads.keep _ _ _ reads 6 _ rfl rfl
  | 4 => exact @Reads.keep _ _ _ reads 5 _ rfl rfl
  | 5 => exact @Reads.keep _ _ _ reads 4 _ rfl rfl
  | 6 => exact @Reads.keep _ _ _ reads 3 _ rfl rfl
  | 7 => exact @Reads.keep _ _ _ reads 2 _ rfl rfl
  | 8 => exact @Reads.keep _ _ _ reads 1 _ rfl rfl
  | 9 => exact @Reads.keep _ _ _ reads 0 _ rfl rfl

/-- **A reading rises** from its level of precedence to all higher ones. -/
theorem Reads.rise {i j : Nat} (reads : Reads (level i) tokens part) (le : i ≤ j) (top : j ≤ 10) :
    Reads (level j) tokens part := by
  induction j, le using Nat.le_induction with
  | base => exact reads
  | succ j _ ih => exact (ih (by omega)).rise_one (by omega)

end Expr

/-- The level of an operation. -/
def Operator.level : Operator → Nat
  | or => 9
  | and => 8
  | equal => 7
  | notEqual => 7
  | less => 6
  | greater => 6
  | lessOrEqual => 6
  | greaterOrEqual => 6
  | plus => 5
  | minus => 5
  | multiply => 4
  | div => 4
  | mod => 4
  | union => 2

namespace Expr

open Grammar

/-- The level on which the written form of an expression is read. -/
def printLevel : Expr → Nat
  | .negate _ => 3
  | .path _ _ => 1
  | .filter _ _ _ => 1
  | _ => 0

theorem reads_between {s left opening closing : String} {tokens : List Token} {part : Part} {k : Nat}
    (reads : Reads s tokens part) (isOpening : opening ∈ printTerminals) (isClosing : closing ∈ printTerminals)
    (found : rules[k]? = some ⟨left, [opening, s, closing], List.cons_ne_nil _ _⟩)
    (built : builders.getD (k + 1) Expr.keep [.word opening, part, .word closing] = .ok part) :
    Reads left (Token.symbol opening :: (tokens ++ [Token.symbol closing])) part :=
  Reads.of_rule found (.symbol opening isOpening (.cons reads (.symbol closing isClosing .nil))) built

theorem operator_mem_printTerminals (operator : Operator) : operator.token.kind.terminal ∈ printTerminals := by
  cases operator <;> decide

/-- **An operation is read** from readings of its operands. -/
theorem reads_operation (operator : Operator) {left right : Expr} {before after : List Token}
    (readsLeft : Reads (level operator.level) before (.expr left))
    (readsRight : Reads (level (operator.level - 1)) after (.expr right)) :
    Reads (level operator.level) (before ++ operator.token :: after) (.expr (.binary operator left right)) := by
  have all : ReadsAll [level operator.level, operator.token.kind.terminal, level (operator.level - 1)]
      (before ++ operator.token :: after) [.expr left, .word operator.token.text, .expr right] :=
    .cons readsLeft (.token _ _ (operator_mem_printTerminals operator) readsRight.last)
  cases operator with
  | or => exact @Reads.of_rule 9 _ rfl _ _ _ all rfl
  | and => exact @Reads.of_rule 10 _ rfl _ _ _ all rfl
  | equal => exact @Reads.of_rule 11 _ rfl _ _ _ all rfl
  | notEqual => exact @Reads.of_rule 12 _ rfl _ _ _ all rfl
  | less => exact @Reads.of_rule 13 _ rfl _ _ _ all rfl
  | greater => exact @Reads.of_rule 14 _ rfl _ _ _ all rfl
  | lessOrEqual => exact @Reads.of_rule 15 _ rfl _ _ _ all rfl
  | greaterOrEqual => exact @Reads.of_rule 16 _ rfl _ _ _ all rfl
  | plus => exact @Reads.of_rule 17 _ rfl _ _ _ all rfl
  | minus => exact @Reads.of_rule 18 _ rfl _ _ _ all rfl
  | multiply => exact @Reads.of_rule 19 _ rfl _ _ _ all rfl
  | div => exact @Reads.of_rule 20 _ rfl _ _ _ all rfl
  | mod => exact @Reads.of_rule 21 _ rfl _ _ _ all rfl
  | union => exact @Reads.of_rule 23 _ rfl _ _ _ all rfl

/-! ### Lists that grow to the right -/

/-- **A list is read** item by item. -/
theorem reads_each {α : Type} {s : String} (value : List α → Part) {item : α → List Token} {xs : List α}
    (next : ∀ x ∈ xs, ∀ tokens seen, Reads s tokens (value seen) →
      Reads s (tokens ++ item x) (value (seen ++ [x])))
    {tokens : List Token} (seen : List α) (start : Reads s tokens (value seen)) :
    Reads s (tokens ++ xs.flatMap item) (value (seen ++ xs)) := by
  induction xs generalizing tokens seen with
  | nil => simpa using start
  | cons x xs ih =>
    have first := next x List.mem_cons_self tokens seen start
    have rest := ih (fun y member => next y (List.mem_cons_of_mem _ member)) _ first
    rwa [List.append_assoc, List.append_assoc, ← List.flatMap_cons] at rest

theorem predicateTokens_eq (es : List Expr) :
    predicateTokens es = es.flatMap fun e => Token.symbol "[" :: (e.tokens ++ [Token.symbol "]"]) := by
  induction es with
  | nil => rfl
  | cons e es ih => simp [predicateTokens, ih]

theorem furtherTokens_eq (es : List Expr) :
    furtherTokens es = es.flatMap fun e => Token.symbol "," :: e.tokens := by
  induction es with
  | nil => rfl
  | cons e es ih => simp [furtherTokens, ih]

theorem furtherTokens_steps_eq (steps : List Step) :
    Step.furtherTokens steps = steps.flatMap fun step => Token.symbol "/" :: step.tokens := by
  induction steps with
  | nil => rfl
  | cons step steps ih => simp [Step.furtherTokens, ih]

section Lists

variable {es : List Expr} {steps : List Step}

theorem reads_predicate {e : Expr} (reads : Reads "Expr" e.tokens (.expr e)) :
    Reads "Predicate" (Token.symbol "[" :: (e.tokens ++ [Token.symbol "]"])) (.expr e) :=
  @reads_between _ _ _ _ _ _ 54 reads (by decide) (by decide) rfl rfl

theorem reads_predicates (nonempty : es ≠ []) (all : ∀ e ∈ es, Reads "Expr" e.tokens (.expr e)) :
    Reads "PredicateList" (predicateTokens es) (.exprs es) := by
  cases es with
  | nil => exact absurd rfl nonempty
  | cons e es =>
    have first : Reads "PredicateList" _ (.exprs [e]) :=
      @Reads.of_rule 52 _ rfl _ _ _ (reads_predicate (all e List.mem_cons_self)).last rfl
    rw [predicateTokens_eq, List.flatMap_cons]
    refine reads_each .exprs (fun x member tokens seen before => ?_) [e] first
    exact @Reads.of_rule 53 _ rfl _ _ _
      (.cons before (reads_predicate (all x (List.mem_cons_of_mem _ member))).last) rfl

theorem reads_arguments (nonempty : es ≠ []) (all : ∀ e ∈ es, Reads "Expr" e.tokens (.expr e)) :
    Reads "ArgumentList" (tokensOf es) (.exprs es) := by
  cases es with
  | nil => exact absurd rfl nonempty
  | cons e es =>
    have first : Reads "ArgumentList" e.tokens (.exprs [e]) :=
      @Reads.of_rule 62 _ rfl _ _ _ (all e List.mem_cons_self).last rfl
    rw [tokensOf, furtherTokens_eq]
    refine reads_each .exprs (fun x member tokens seen before => ?_) [e] first
    exact @Reads.of_rule 63 _ rfl _ _ _ (.cons before
      (.symbol "," (by decide) (all x (List.mem_cons_of_mem _ member)).last)) rfl

theorem reads_steps (nonempty : steps ≠ []) (all : ∀ step ∈ steps, Reads "Step" step.tokens (.step step)) :
    Reads "RelativeLocationPath" (Step.tokensOf steps) (.path false steps) := by
  cases steps with
  | nil => exact absurd rfl nonempty
  | cons step steps =>
    have first : Reads "RelativeLocationPath" step.tokens (.path false [step]) :=
      @Reads.of_rule 35 _ rfl _ _ _ (all step List.mem_cons_self).last rfl
    rw [Step.tokensOf, furtherTokens_steps_eq]
    refine reads_each (.path false) (fun x member tokens seen before => ?_) [step] first
    exact @Reads.of_rule 36 _ rfl _ _ _ (.cons before
      (.symbol "/" (by decide) (all x (List.mem_cons_of_mem _ member)).last)) rfl

end Lists

/-! ### Filter expressions -/

/-- An expression with predicates after it, if there are any. -/
def filtered (base : Expr) : List Expr → Expr
  | [] => base
  | e :: es => .filter base (e :: es) []

theorem filterPredicate_filtered {base : Expr} (plain : ¬ base.IsPath) (seen : List Expr) (e : Expr) :
    filterPredicate [.expr (base.filtered seen), .expr e] = .ok (.expr (base.filtered (seen ++ [e]))) := by
  cases seen with
  | nil =>
    cases base
    case path | filter => exact absurd trivial plain
    all_goals rfl
  | cons first seen => rfl

theorem filteredPath_filtered {base : Expr} (plain : ¬ base.IsPath) (es : List Expr) (steps : List Step) :
    filteredPath [.expr (base.filtered es), .word "/", .path false steps] = .ok (.expr (.filter base es steps)) := by
  cases es with
  | nil =>
    cases base
    case path | filter => exact absurd trivial plain
    all_goals rfl
  | cons first es => rfl

section Filter

variable {base : Expr} {tokens : List Token} {es : List Expr} {steps : List Step}

/-- Predicates after an expression. -/
theorem reads_filtered (plain : ¬ base.IsPath) (readsBase : Reads "FilterExpr" tokens (.expr base))
    (all : ∀ e ∈ es, Reads "Expr" e.tokens (.expr e)) :
    Reads "FilterExpr" (tokens ++ predicateTokens es) (.expr (base.filtered es)) := by
  rw [predicateTokens_eq]
  refine reads_each (fun es => .expr (base.filtered es)) (fun x member tokens seen before => ?_) [] readsBase
  exact @Reads.of_rule 29 _ rfl _ _ _ (.cons before (reads_predicate (all x member)).last)
    (filterPredicate_filtered plain seen x)

/-- **A filter expression is read** from readings of its parts. -/
theorem reads_filter (plain : ¬ base.IsPath) (made : es ≠ [] ∨ steps ≠ [])
    (readsBase : Reads "FilterExpr" tokens (.expr base)) (all : ∀ e ∈ es, Reads "Expr" e.tokens (.expr e))
    (allSteps : ∀ step ∈ steps, Reads "Step" step.tokens (.step step)) :
    Reads "PathExpr" (tokens ++ predicateTokens es ++ Step.furtherTokens steps) (.expr (.filter base es steps)) := by
  have before := reads_filtered plain readsBase all
  cases steps with
  | nil =>
    obtain ⟨first, others, rfl⟩ := List.exists_cons_of_ne_nil (made.resolve_right (by simp))
    rw [Step.furtherTokens, List.append_nil]
    exact @Reads.keep _ _ _ before 25 _ rfl rfl
  | cons step steps =>
    have after := reads_steps (List.cons_ne_nil step steps) allSteps
    exact @Reads.of_rule 26 _ rfl _ _ _ (.cons before (.symbol "/" (by decide) after.last))
      (filteredPath_filtered plain es _)

end Filter

/-! ### Steps and node tests -/

theorem qualifierOf_append (qualifier : String) : qualifierOf (qualifier ++ ":*") = qualifier := by
  have written : (qualifier ++ ":*").toList = qualifier.toList ++ [':'] ++ ['*'] := by
    rw [String.toList_append, List.append_assoc]
    rfl
  rw [qualifierOf, written, List.dropLast_concat, List.dropLast_concat, String.ofList_toList]

/-- A test of one token is read as a node test. -/
theorem reads_nameTest {kind : Token.Kind} {text : String} {test : NodeTest} {k : Nat}
    (member : kind.terminal ∈ printTerminals)
    (found : rules[k]? = some ⟨"NameTest", [kind.terminal], List.cons_ne_nil _ _⟩)
    (built : builders.getD (k + 1) Expr.keep [.word text] = .ok (.test test)) :
    Reads "NodeTest" [⟨kind, text⟩] (.test test) :=
  @Reads.keep _ _ _ (Reads.of_rule found (.token kind text member .nil) built) 46 _ rfl rfl

theorem reads_nodeType {name : String} {test : NodeTest}
    (built : typeTest [.word name, .word "(", .word ")"] = .ok (.test test)) :
    Reads "NodeTest" (NodeTest.typeTokens name) (.test test) :=
  @Reads.of_rule 47 _ rfl _ _ _
    (.token .nodeType name (by decide) (.symbol "(" (by decide) (.symbol ")" (by decide) .nil))) built

theorem reads_test {test : NodeTest} (made : test.Made) : Reads "NodeTest" test.tokens (.test test) := by
  cases test with
  | anyName => exact @reads_nameTest .anyName _ _ 49 (by decide) rfl rfl
  | anyNameIn qualifier =>
    refine @reads_nameTest .anyNameIn _ _ 50 (by decide) rfl ?_
    exact congrArg (fun q => Except.ok (Part.test (.anyNameIn q))) (qualifierOf_append qualifier)
  | name written =>
    refine @reads_nameTest .name _ _ 51 (by decide) rfl ?_
    exact congrArg (fun name => Except.ok (Part.test (.name name))) (QName.ofText_text (.inl made))
  | comment => exact reads_nodeType rfl
  | text => exact reads_nodeType rfl
  | anyNode => exact reads_nodeType rfl
  | instruction target? =>
    cases target? with
    | none => exact reads_nodeType rfl
    | some target =>
      exact @Reads.of_rule 48 _ rfl _ _ _
        (.token .targetTest "processing-instruction" (by decide)
          (.symbol "(" (by decide) (.token .literal target (by decide) (.symbol ")" (by decide) .nil)))) rfl

theorem ofName?_name (axis : Axis) : Axis.ofName? axis.name = some axis := by
  cases axis <;> decide

theorem reads_axis (axis : Axis) :
    Reads "AxisSpecifier" [⟨.axisName, axis.name⟩, Token.symbol "::"] (.axis axis) := by
  refine @Reads.of_rule 44 _ rfl _ _ _
    (.token .axisName axis.name (by decide) (.symbol "::" (by decide) .nil)) ?_
  have built : namedAxis [.word axis.name, .word "::"] = .ok (.axis axis) := by
    rw [namedAxis, ofName?_name]
  exact built

/-- **A step is read** from readings of its predicates. -/
theorem reads_step (axis : Axis) {test : NodeTest} (made : test.Made) {es : List Expr}
    (all : ∀ e ∈ es, Reads "Expr" e.tokens (.expr e)) :
    Reads "Step" (Step.mk axis test es).tokens (.step (.mk axis test es)) := by
  rw [Step.tokens]
  cases es with
  | nil =>
    rw [predicateTokens, List.append_nil]
    exact @Reads.of_rule 38 _ rfl _ _ _ (.cons (reads_axis axis) (reads_test made).last) rfl
  | cons e es =>
    exact @Reads.of_rule 39 _ rfl _ _ _ (.cons (reads_axis axis)
      (.cons (reads_test made) (reads_predicates (List.cons_ne_nil e es) all).last)) rfl

/-! ### Expressions -/

/-- A primary expression is read as a filter expression. -/
theorem Reads.primary {tokens : List Token} {part : Part} (reads : Reads "PrimaryExpr" tokens part) :
    Reads "FilterExpr" tokens part := @Reads.keep _ _ _ reads 28 _ rfl rfl

theorem reads_location {tokens : List Token} {absolute : Bool} {steps : List Step}
    (reads : Reads "LocationPath" tokens (.path absolute steps)) :
    Reads "PathExpr" tokens (.expr (.path absolute steps)) :=
  @Reads.of_rule 24 _ rfl _ _ _ reads.last rfl

/-- **A location path is read** from readings of its steps. -/
theorem reads_path {absolute : Bool} {steps : List Step} (made : absolute = true ∨ steps ≠ [])
    (all : ∀ step ∈ steps, Reads "Step" step.tokens (.step step)) :
    Reads "PathExpr" (Expr.path absolute steps).tokens (.expr (.path absolute steps)) := by
  refine reads_location ?_
  cases absolute with
  | false =>
    rw [Expr.tokens]
    exact @Reads.keep _ _ _ (reads_steps (made.resolve_left (by simp)) all) 30 _ rfl rfl
  | true =>
    rw [Expr.tokens]
    cases steps with
    | nil =>
      have root : Reads "AbsoluteLocationPath" [Token.symbol "/"] (.path true []) :=
        @Reads.of_rule 32 _ rfl _ _ _ (.symbol "/" (by decide) .nil) rfl
      exact @Reads.keep _ _ _ root 31 _ rfl rfl
    | cons step steps =>
      have after := reads_steps (List.cons_ne_nil step steps) all
      have fromRoot : Reads "AbsoluteLocationPath" (Token.symbol "/" :: Step.tokensOf (step :: steps))
          (.path true (step :: steps)) := @Reads.of_rule 33 _ rfl _ _ _ (.symbol "/" (by decide) after.last) rfl
      exact @Reads.keep _ _ _ fromRoot 31 _ rfl rfl

/-- **A function call is read** from readings of its arguments. -/
theorem reads_call {function : QName} (made : function.Proper) {es : List Expr}
    (all : ∀ e ∈ es, Reads "Expr" e.tokens (.expr e)) :
    Reads "FunctionCall" (Expr.call function es).tokens (.expr (.call function es)) := by
  have named : QName.ofText function.text = function := QName.ofText_text (.inl made)
  rw [Expr.tokens]
  cases es with
  | nil =>
    refine @Reads.of_rule 60 _ rfl _ _ _ (.token .functionName function.text (by decide)
      (.symbol "(" (by decide) (.symbol ")" (by decide) .nil))) ?_
    exact congrArg (fun name => Except.ok (Part.expr (.call name []))) named
  | cons e es =>
    have arguments := reads_arguments (List.cons_ne_nil e es) all
    refine @Reads.of_rule 61 _ rfl _ _ _ (.token .functionName function.text (by decide)
      (.symbol "(" (by decide) (.cons arguments (.symbol ")" (by decide) .nil)))) ?_
    exact congrArg (fun name => Except.ok (Part.expr (.call name (e :: es)))) named

theorem reads_reference {variableName : QName} (made : variableName.Proper ∨ variableName.Starred) :
    Reads "VariableReference" (Expr.reference variableName).tokens (.expr (.reference variableName)) := by
  rw [Expr.tokens]
  refine @Reads.of_rule 64 _ rfl _ _ _ (.symbol "$" (by decide) (.token .name variableName.text (by decide) .nil)) ?_
  exact congrArg (fun name => Except.ok (Part.expr (.reference name))) (QName.ofText_text made)

/-- The operands of an operation are read on the levels it takes, except for negations in a union. -/
theorem printLevel_le (operator : Operator) (e : Expr) (legible : operator = .union → ¬ e.IsNegation) :
    e.printLevel ≤ operator.level - 1 := by
  cases e
  case negate operand =>
    cases operator
    case union => exact absurd trivial (legible rfl)
    all_goals exact Nat.le_of_ble_eq_true rfl
  all_goals cases operator <;> exact Nat.le_of_ble_eq_true rfl

theorem operator_level_le (operator : Operator) : operator.level ≤ 10 := by
  cases operator <;> exact Nat.le_of_ble_eq_true rfl

theorem printLevel_le_three (e : Expr) : e.printLevel ≤ 3 := by
  cases e <;> exact Nat.le_of_ble_eq_true rfl

theorem reads_tokens_of_level {e : Expr} (reads : Reads (level e.printLevel) e.tokens (.expr e)) :
    Reads "Expr" e.tokens (.expr e) :=
  reads.rise (j := 10) ((printLevel_le_three e).trans (by decide)) (Nat.le_refl 10)

/-- An expression that is neither a negation nor a path is read on the lowest level. -/
theorem printLevel_eq_zero {e : Expr} (noNegation : ¬ e.IsNegation) (noPath : ¬ e.IsPath) : e.printLevel = 0 := by
  cases e
  case negate => exact absurd trivial noNegation
  case path | filter => exact absurd trivial noPath
  all_goals rfl

variable {barred : Expr → Prop}

mutual

/-- **The tokens of an expression are read as this expression** on its level of precedence. -/
theorem reads_level (e : Expr) (printable : e.Printable barred) : Reads (level e.printLevel) e.tokens (.expr e) := by
  match e with
  | .text value =>
    rw [Expr.tokens]
    exact Reads.primary (@Reads.of_rule 57 _ rfl _ _ _ (.token .literal value (by decide) .nil) rfl)
  | .number value =>
    rw [Expr.tokens]
    refine Reads.primary (@Reads.of_rule 58 _ rfl _ _ _ (.token .number (Number.toText value) (by decide) .nil) ?_)
    exact congrArg (fun x => Except.ok (Part.expr (.number x)))
      (Number.ofText_toText printable.self.2 fun _ => Number.Unsigned.negative printable.self.1)
  | .negate operand =>
    unfold Expr.Printable Expr.Everywhere at printable
    rw [Expr.tokens]
    have reads : Reads "UnaryExpr" _ _ :=
      (reads_level operand printable.2).rise (j := 3) (printLevel_le_three operand) (by decide)
    exact @Reads.of_rule 22 _ rfl _ _ _ (.symbol "-" (by decide) reads.last) rfl
  | .binary operator left right =>
    unfold Expr.Printable Expr.Everywhere at printable
    rw [Expr.tokens]
    obtain ⟨⟨_, legible⟩, printableLeft, printableRight⟩ := printable
    have levelLeft := printLevel_le operator left fun union => (legible.1 union).1
    have levelRight := printLevel_le operator right fun union => (legible.1 union).2
    have top := operator_level_le operator
    have operation := reads_operation operator
      ((reads_level left printableLeft).rise (levelLeft.trans (Nat.sub_le _ _)) top)
      ((reads_level right printableRight).rise levelRight (by omega))
    have whole : Reads "Expr" _ _ := operation.rise (j := 10) top (Nat.le_refl 10)
    exact Reads.primary (@reads_between _ _ _ _ _ _ 56 whole (by decide) (by decide) rfl rfl)
  | .path absolute steps =>
    unfold Expr.Printable Expr.Everywhere at printable
    exact reads_path printable.1.1 (reads_allSteps steps printable.2)
  | .filter base predicates steps =>
    unfold Expr.Printable Expr.Everywhere at printable
    obtain ⟨⟨made, legible⟩, printableBase, printablePredicates, printableSteps⟩ := printable
    have readsBase := reads_level base printableBase
    rw [printLevel_eq_zero legible.1 legible.2] at readsBase
    rw [Expr.tokens]
    exact reads_filter legible.2 made.1 readsBase (reads_all predicates printablePredicates)
      (reads_allSteps steps printableSteps)
  | .call function arguments =>
    unfold Expr.Printable Expr.Everywhere at printable
    exact Reads.primary (@Reads.keep _ _ _
      (reads_call printable.1.1.1 (reads_all arguments printable.2)) 59 _ rfl rfl)
  | .reference variableName =>
    exact Reads.primary (@Reads.keep _ _ _ (reads_reference printable.self.1) 55 _ rfl rfl)

theorem reads_all (es : List Expr)
    (printable : Expr.AllEverywhere (fun e => e.Made ∧ e.Legible barred) (fun test => test.Made ∧ test.Legible) es) :
    ∀ e ∈ es, Reads "Expr" e.tokens (.expr e) := by
  match es with
  | [] => simp
  | e :: es =>
    unfold Expr.AllEverywhere at printable
    have first := reads_tokens_of_level (reads_level e printable.1)
    exact List.forall_mem_cons.mpr ⟨first, reads_all es printable.2⟩

theorem reads_allSteps (steps : List Step)
    (printable : Step.AllEverywhere (fun e => e.Made ∧ e.Legible barred) (fun test => test.Made ∧ test.Legible)
      steps) :
    ∀ step ∈ steps, Reads "Step" step.tokens (.step step) := by
  match steps with
  | [] => simp
  | .mk axis test predicates :: steps =>
    unfold Step.AllEverywhere Step.Everywhere at printable
    have first := reads_step axis printable.1.1.1 (reads_all predicates printable.1.2)
    exact List.forall_mem_cons.mpr ⟨first, reads_allSteps steps printable.2⟩

end

/-- **The tokens of an expression are read as this expression.** -/
theorem reads_tokens (e : Expr) (printable : e.Printable barred) : Reads "Expr" e.tokens (.expr e) :=
  reads_tokens_of_level (reads_level e printable)

end Expr

end XPathAnnotator
