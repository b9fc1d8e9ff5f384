/-
**The written form tells the expression.**

Two expressions that are written the same are the same, if no predicates or further steps are put after a unary minus
or a path, whose parentheses are not written, and no target of processing instructions holds a double quote. The
written forms need not be read back: it is enough that each piece of one can be told from what comes after it. What
comes after an expression is a mark that no expression goes on with, so the induction over one expression goes
through with any other one beside it.

* `lead_eq` — the first character tells the form of an expression, except for those that begin with a word;
* `Expr.TellsCore` — operands that predicates and steps may come after;
* `tells_extended`, `tells_path` — filter expressions and location paths;
* `tells_expr` — the induction over expressions;
* `print_injective` — **expressions that are written the same are the same**;
* `evalIn_eq_of_print_eq` — **the written form tells the meaning**;
* `evalIn_ne_of_print_eq` — expressions that are written the same and differ: the written form drops the parentheses
  around a path before predicates, so the second node of a path is written as the path to every second node.
-/

import Mathlib
import XPathAnnotator.Proofs.Eval.VirtualRoot
import XPathAnnotator.Proofs.Expr.Pieces
import XPathAnnotator.Proofs.Expr.RoundTrip

namespace XPathAnnotator

open XPathAnnotator.Name XPathAnnotator.Text XPathAnnotator.Token

namespace Expr

/-- Predicates and further steps are not put after a unary minus or a path. -/
def Grouped : Expr → Prop
  | .filter base _ _ => ¬ base.IsNegation ∧ ¬ base.IsPath
  | _ => True

/-- An expression as the parser makes it, all of whose parentheses are written. -/
abbrev Clear (e : Expr) : Prop :=
  e.Everywhere (fun e => e.Made ∧ e.Grouped) fun test => test.Made ∧ test.Legible

/-- An expression that predicates and further steps may come after. -/
def IsCore (e : Expr) : Prop := ¬ e.IsNegation ∧ ¬ e.IsPath

/-- The written form tells an expression from any other one, whatever may come after them. -/
def Tells (e : Expr) : Prop := ∀ e' rest rest', e'.Clear → Next afterExpr rest → Next afterExpr rest' →
  e.print.toList ++ rest = e'.print.toList ++ rest' → e = e' ∧ rest = rest'

/-- The same among the expressions that predicates and further steps may come after. -/
def TellsCore (e : Expr) : Prop := ∀ e' rest rest', e'.IsCore → e'.Clear → Next afterOperand rest →
  Next afterOperand rest' → e.print.toList ++ rest = e'.print.toList ++ rest' → e = e' ∧ rest = rest'

end Expr

/-- A step as the parser makes it, all of whose parentheses are written. -/
abbrev Step.Clear (step : Step) : Prop :=
  step.Everywhere (fun e => e.Made ∧ e.Grouped) fun test => test.Made ∧ test.Legible

/-- The written form tells a step from any other one, whatever may come after them. -/
def Step.Tells (step : Step) : Prop := ∀ step' rest rest', step'.Clear → Next afterStep rest → Next afterStep rest' →
  step.print.toList ++ rest = step'.print.toList ++ rest' → step = step' ∧ rest = rest'

namespace Expr

/-! ### First characters -/

/-- What the first character of an expression may be. -/
inductive Lead where
  | quote
  | minus
  | opening
  | closing
  | slash
  | sign
  | word
deriving DecidableEq

/-- What a character is as the first one of an expression. -/
def leadOf (c : Char) : Lead :=
  if c = '"' ∨ c = '\'' then .quote else if c = '-' then .minus else if c = '(' then .opening
  else if c = ')' then .closing else if c = '/' then .slash else if c = '$' then .sign else .word

/-- The first character of an expression, by its form. -/
def lead : Expr → Lead
  | .text _ => .quote
  | .negate _ => .minus
  | .binary _ _ _ => .opening
  | .path absolute _ => if absolute then .slash else .word
  | .filter base _ _ => base.lead
  | .number _ | .call _ _ => .word
  | .reference _ => .sign

theorem leadOf_of_isNameStart {c : Char} (start : isNameStart c = true) : leadOf c = .word := by
  have apart := not_mem_of_isNameStart start
  simp only [marks, List.mem_cons, not_or] at apart
  simp [leadOf, apart]

theorem leadOf_of_isDigit {c : Char} (digit : c.isDigit = true) : leadOf c = .word := by
  have apart : ∀ d ∈ ['"', '\'', '-', '(', ')', '/', '$'], c ≠ d := by
    rintro d member rfl
    have all : ['"', '\'', '-', '(', ')', '/', '$'].all (fun d => !d.isDigit) = true := by decide
    exact absurd digit (by simpa using List.all_eq_true.mp all c member)
  simp only [List.forall_mem_cons, ne_eq] at apart
  simp [leadOf, apart]

theorem lead_ne_closing (e : Expr) : e.lead ≠ .closing := by
  match e with
  | .filter base _ _ => exact lead_ne_closing base
  | .path true _ | .path false _ => simp [lead]
  | .text _ | .number _ | .negate _ | .binary _ _ _ | .call _ _ | .reference _ => simp [lead]

/-- **The first character tells the form**, apart from those that begin with a word. -/
theorem exists_lead {e : Expr} (clear : e.Clear) : ∃ c cs, e.print.toList = c :: cs ∧ leadOf c = e.lead := by
  match e with
  | .text value =>
    obtain ⟨quote, isQuote, _, written⟩ := exists_quote clear.self.1
    exact ⟨quote, _, written, if_pos isQuote⟩
  | .number value =>
    rcases Number.written_cases clear.self.1 with ⟨_, whole, fraction, _, digits, written, _⟩ | rfl | rfl
    · obtain ⟨c, rest, rfl⟩ := List.exists_cons_of_ne_nil digits.nonempty
      rw [print, written, String.toList_ofList]
      exact ⟨c, _, rfl, leadOf_of_isDigit (digits.whole c List.mem_cons_self)⟩
    · exact ⟨'I', "nfinity".toList, by rw [print, Number.toText_infinity]; rfl, rfl⟩
    · exact ⟨'N', "aN".toList, by rw [print, Number.toText_notANumber]; rfl, rfl⟩
  | .negate operand =>
    rw [print, String.toList_append]
    exact ⟨'-', operand.print.toList, rfl, rfl⟩
  | .binary operator left right =>
    rw [toList_print_binary]
    exact ⟨'(', _, rfl, rfl⟩
  | .path true steps =>
    rw [print, String.toList_append]
    exact ⟨'/', ("/".intercalate (Step.printAll steps)).toList, rfl, rfl⟩
  | .path false steps =>
    unfold Clear Everywhere at clear
    obtain ⟨step, others, rfl⟩ := List.exists_cons_of_ne_nil (clear.1.1.resolve_left (by simp))
    obtain ⟨c, cs, written, start⟩ := exists_step_toList step
    rw [toList_print_relative, written]
    exact ⟨c, _, rfl, leadOf_of_isNameStart start⟩
  | .filter base predicates steps =>
    unfold Clear Everywhere at clear
    obtain ⟨c, cs, written, isLead⟩ := exists_lead clear.2.1
    rw [toList_print_filter, written]
    exact ⟨c, _, rfl, isLead⟩
  | .call function arguments =>
    obtain ⟨c, cs, written, start⟩ := QName.exists_text_toList (.inl clear.self.1.1)
    rw [toList_print_call, written]
    exact ⟨c, _, rfl, leadOf_of_isNameStart start⟩
  | .reference variableName =>
    rw [print, String.toList_append]
    exact ⟨'$', variableName.text.toList, rfl, rfl⟩

section Forms

variable {e e' base : Expr} {es es' : List Expr} {steps steps' : List Step} {rest rest' : List Char}

theorem lead_eq (clear : e.Clear) (clear' : e'.Clear)
    (same : e.print.toList ++ rest = e'.print.toList ++ rest') : e.lead = e'.lead := by
  obtain ⟨c, cs, written, isLead⟩ := exists_lead clear
  obtain ⟨c', cs', written', isLead'⟩ := exists_lead clear'
  rw [written, written'] at same
  obtain rfl : c = c' := (List.cons.inj same).1
  exact isLead.symm.trans isLead'

/-- No expression begins where one is closed. -/
theorem ne_closing (clear : e.Clear) : ')' :: rest ≠ e.print.toList ++ rest' := by
  obtain ⟨c, cs, written, isLead⟩ := exists_lead clear
  rw [written]
  intro same
  obtain rfl : ')' = c := (List.cons.inj same).1
  exact lead_ne_closing e isLead.symm

/-! ### Lists -/

/-- **Predicates** can be told from what comes after them. -/
theorem tells_predicates (all : ∀ e ∈ es, e.Tells) (clear : ∀ e ∈ es', e.Clear) (next : Next afterStep rest)
    (next' : Next afterStep rest') (same : es.flatMap predicateChars ++ rest = es'.flatMap predicateChars ++ rest') :
    es = es' ∧ rest = rest' := by
  refine each_injective (fun e => ⟨_, rfl⟩) (fun e member e' clear rest rest' _ _ same => ?_) clear (by decide) next
    next' same
  have inside : e.print.toList ++ (']' :: rest) = e'.print.toList ++ (']' :: rest') := by
    simpa [predicateChars] using same
  obtain ⟨rfl, closed⟩ := all e member e' _ _ clear (next_cons (by decide) _) (next_cons (by decide) _) inside
  exact ⟨rfl, (List.cons.inj closed).2⟩

/-- **Further steps** can be told from what comes after them. -/
theorem tells_further (all : ∀ step ∈ steps, step.Tells) (clear : ∀ step ∈ steps', step.Clear)
    (next : Next afterExpr rest) (next' : Next afterExpr rest')
    (same : steps.flatMap furtherChars ++ rest = steps'.flatMap furtherChars ++ rest') :
    steps = steps' ∧ rest = rest' :=
  each_injective (fun step => ⟨_, rfl⟩) (fun step member step' clear _ _ next next' same =>
    all step member step' _ _ clear next next' (List.cons.inj same).2) clear (by decide) next next' same

/-- **Further arguments** up to the end of a call. -/
theorem tells_furtherArguments (all : ∀ e ∈ es, e.Tells) (clear : ∀ e ∈ es', e.Clear)
    (same : es.flatMap argumentChars ++ (')' :: rest) = es'.flatMap argumentChars ++ (')' :: rest')) :
    es = es' ∧ rest = rest' := by
  have next (rest : List Char) : Next [')'] (')' :: rest) := next_cons (by decide) rest
  have begins (e : Expr) : ∃ cs, argumentChars e = ',' :: cs := ⟨_, rfl⟩
  obtain ⟨rfl, closed⟩ := each_injective begins (fun e member e' clear rest rest' next next' same =>
    all e member e' _ _ clear (next.mono (by decide)) (next'.mono (by decide))
      (List.cons.inj (List.cons.inj same).2).2) clear (by decide) (next rest) (next rest') same
  exact ⟨rfl, (List.cons.inj closed).2⟩

/-- **Arguments** up to the end of a call. -/
theorem tells_arguments (all : ∀ e ∈ es, e.Tells) (clear : ∀ e ∈ es, e.Clear) (clear' : ∀ e ∈ es', e.Clear)
    (same : (", ".intercalate (printAll es)).toList ++ (')' :: rest) =
      (", ".intercalate (printAll es')).toList ++ (')' :: rest')) : es = es' ∧ rest = rest' := by
  have next (es : List Expr) (rest : List Char) : Next afterExpr (es.flatMap argumentChars ++ (')' :: rest)) := by
    cases es <;> exact next_cons (by decide) _
  match es, es' with
  | [], [] => exact ⟨rfl, (List.cons.inj same).2⟩
  | [], e' :: es' =>
    rw [toList_intercalate_arguments, List.append_assoc] at same
    exact absurd same (ne_closing (clear' e' List.mem_cons_self))
  | e :: es, [] =>
    rw [toList_intercalate_arguments, List.append_assoc] at same
    exact absurd same.symm (ne_closing (clear e List.mem_cons_self))
  | e :: es, e' :: es' =>
    rw [toList_intercalate_arguments, toList_intercalate_arguments, List.append_assoc, List.append_assoc] at same
    obtain ⟨rfl, others⟩ := all e List.mem_cons_self e' _ _ (clear' e' List.mem_cons_self) (next es rest)
      (next es' rest') same
    obtain ⟨rfl, sameRest⟩ := tells_furtherArguments (fun e member => all e (List.mem_cons_of_mem _ member))
      (fun e member => clear' e (List.mem_cons_of_mem _ member)) others
    exact ⟨rfl, sameRest⟩

/-! ### Steps -/

theorem next_predicates (next : Next afterStep rest) (es : List Expr) :
    Next afterOperand (es.flatMap predicateChars ++ rest) := by
  cases es with
  | nil => exact next.mono (List.subset_cons_self _ _)
  | cons e es => exact next_cons List.mem_cons_self _

theorem next_further (next : Next afterExpr rest) (steps : List Step) :
    Next afterStep (steps.flatMap furtherChars ++ rest) := by
  cases steps with
  | nil => exact next.mono (List.subset_cons_self _ _)
  | cons step steps => exact next_cons List.mem_cons_self _

theorem axis_eq {axis axis' : Axis} {tail tail' : List Char}
    (same : axis.name.toList ++ (':' :: tail) = axis'.name.toList ++ (':' :: tail')) : axis = axis' ∧ tail = tail' := by
  have absent (axis : Axis) : ':' ∉ axis.name.toList := not_mem_of_isNCName (isNCName_axis axis) (by decide)
  obtain ⟨sameName, sameTail⟩ := append_mark_injective (absent axis) (absent axis') same
  have found := ofName?_name axis
  rw [String.toList_injective sameName, ofName?_name axis'] at found
  exact ⟨(Option.some.inj found).symm, sameTail⟩

/-- **A step** is told by its axis, its node test and its predicates. -/
theorem tells_step (axis : Axis) {test : NodeTest} (made : test.Made) (legible : test.Legible)
    (all : ∀ e ∈ es, e.Tells) : (Step.mk axis test es).Tells := by
  rintro ⟨axis', test', es'⟩ rest rest' clear next next' same
  obtain ⟨⟨made', legible'⟩, clearPredicates⟩ := Step.everywhere_iff.mp clear
  have colons : "::".toList = [':', ':'] := rfl
  rw [toList_print_step, toList_print_step, colons] at same
  simp only [List.append_assoc, List.cons_append, List.nil_append] at same
  obtain ⟨rfl, afterAxis⟩ := axis_eq same
  obtain ⟨rfl, afterTest⟩ := NodeTest.test_injective made made' legible legible' (next_predicates next es)
    (next_predicates next' es') (List.cons.inj afterAxis).2
  obtain ⟨rfl, sameRest⟩ := tells_predicates all clearPredicates next next' afterTest
  exact ⟨rfl, sameRest⟩

/-! ### Operands -/

/-- A step begins with a word that has two colons. -/
theorem exists_word_step {step : Step} (clear : step.Clear) : ∃ word tail, step.print.toList = word ++ tail ∧
    (∀ c ∈ word, inWord c = true) ∧ 2 ≤ word.count ':' ∧
    ∀ rest, Next afterStep rest → Next ('(' :: afterOperand) (tail ++ rest) := by
  obtain ⟨axis, test, es⟩ := step
  obtain ⟨⟨made, _⟩, _⟩ := Step.everywhere_iff.mp clear
  have colons : "::".toList = [':', ':'] := rfl
  refine ⟨axis.name.toList ++ [':', ':'] ++ test.word.toList, NodeTest.bracket test.argument? ++ es.flatMap predicateChars,
    ?_, ?_, ?_, fun rest next => ?_⟩
  · rw [toList_print_step, NodeTest.toList_print, colons]
    simp only [List.append_assoc]
  · exact List.forall_mem_append.mpr ⟨List.forall_mem_append.mpr
      ⟨inWord_of_isNCName (isNCName_axis axis), inWord_of_all (by decide)⟩, NodeTest.inWord_word made⟩
  · rw [List.count_append, List.count_append]
    have two : [':', ':'].count ':' = 2 := rfl
    omega
  · rw [List.append_assoc]
    exact NodeTest.next_bracket (next_predicates next es) _

/-- A core is told from a path that does not begin at the root. -/
theorem ne_step {step : Step} (core : e.IsCore) (clear : e.Clear) (clearStep : step.Clear)
    (next : Next afterOperand rest) (next' : Next afterStep rest') :
    e.print.toList ++ rest ≠ step.print.toList ++ rest' := by
  intro same
  have isWord : e.lead = .word := by
    obtain ⟨c, cs, written, isLead⟩ := exists_lead clear
    obtain ⟨c', cs', written', start⟩ := exists_step_toList step
    rw [written, written'] at same
    obtain rfl : c = c' := (List.cons.inj same).1
    exact isLead.symm.trans (leadOf_of_isNameStart start)
  obtain ⟨word, tail, written, all, colons, follows⟩ := exists_word_step clearStep
  rw [written, List.append_assoc] at same
  cases e with
  | number value =>
    obtain ⟨inWord, noColon⟩ := inWord_toText clear.self.1
    obtain ⟨rfl, _⟩ := word_injective inWord all (next.mono (List.subset_cons_self _ _)) (follows _ next') same
    rw [List.count_eq_zero.mpr noColon] at colons
    omega
  | call function es =>
    rw [toList_print_call, List.append_assoc] at same
    obtain ⟨rfl, _⟩ := word_injective (inWord_text (.inl clear.self.1.1)) all (next_cons List.mem_cons_self _)
      (follows _ next') same
    have atMost := count_colon_text clear.self.1.1
    omega
  | negate => exact absurd trivial core.1
  | path | filter => exact absurd trivial core.2
  | text | binary | reference => simp [lead] at isWord

theorem symbol_injective {operator operator' : Operator} (same : operator.symbol = operator'.symbol) :
    operator = operator' := by
  cases operator <;> cases operator' <;> first | rfl | exact absurd same (by decide)

theorem tells_text {value : String} (clear : (Expr.text value).Clear) : (Expr.text value).TellsCore := by
  intro e' rest rest' core' clear' next next' same
  have sameLead := lead_eq clear clear' same
  cases e' with
  | text value' =>
    obtain ⟨quote, _, absent, written⟩ := exists_quote clear.self.1
    obtain ⟨quote', _, absent', written'⟩ := exists_quote clear'.self.1
    rw [print, print, written, written'] at same
    simp only [List.cons_append, List.append_assoc, List.nil_append] at same
    obtain ⟨rfl, inside⟩ := List.cons.inj same
    obtain ⟨sameValue, sameRest⟩ := append_mark_injective absent absent' inside
    exact ⟨by rw [String.toList_injective sameValue], sameRest⟩
  | negate => exact absurd trivial core'.1
  | path | filter => exact absurd trivial core'.2
  | number | binary | call | reference => simp [lead] at sameLead

/-- What comes after a number opens no parenthesis, so it is no call. -/
theorem number_append_ne_call {value : Float} {function : QName} {rest rest' : List Char}
    (clear : (Expr.number value).Clear) (clear' : (Expr.call function es).Clear) (next : Next afterOperand rest) :
    (Expr.number value).print.toList ++ rest ≠ (Expr.call function es).print.toList ++ rest' := by
  intro same
  rw [toList_print_call, List.append_assoc] at same
  obtain ⟨inWord, _⟩ := inWord_toText clear.self.1
  obtain ⟨_, opening⟩ := word_injective inWord (inWord_text (.inl clear'.self.1.1))
    (next.mono (List.subset_cons_self _ _)) (next_cons List.mem_cons_self _) same
  exact absurd opening (next.ne_cons (by decide) _)

theorem tells_number {value : Float} (clear : (Expr.number value).Clear) : (Expr.number value).TellsCore := by
  intro e' rest rest' core' clear' next next' same
  have sameLead := lead_eq clear clear' same
  obtain ⟨inWord, _⟩ := inWord_toText clear.self.1
  cases e' with
  | number value' =>
    obtain ⟨inWord', _⟩ := inWord_toText clear'.self.1
    obtain ⟨sameText, sameRest⟩ := word_injective inWord inWord' (next.mono (List.subset_cons_self _ _))
      (next'.mono (List.subset_cons_self _ _)) same
    have sameValue := Number.toText_injective clear.self.1 clear'.self.1 (String.toList_injective sameText)
    exact ⟨congrArg _ sameValue, sameRest⟩
  | call => exact absurd same (number_append_ne_call clear clear' next)
  | negate => exact absurd trivial core'.1
  | path | filter => exact absurd trivial core'.2
  | text | binary | reference => simp [lead] at sameLead

theorem tells_reference {variableName : QName} (clear : (Expr.reference variableName).Clear) :
    (Expr.reference variableName).TellsCore := by
  intro e' rest rest' core' clear' next next' same
  have sameLead := lead_eq clear clear' same
  cases e' with
  | reference variableName' =>
    rw [print, print, String.toList_append, String.toList_append] at same
    obtain ⟨sameText, sameRest⟩ := word_injective (inWord_text clear.self.1) (inWord_text clear'.self.1)
      (next.mono (List.subset_cons_self _ _)) (next'.mono (List.subset_cons_self _ _)) (List.cons.inj same).2
    have sameName := QName.ofText_text clear.self.1
    rw [String.toList_injective sameText, QName.ofText_text clear'.self.1] at sameName
    exact ⟨congrArg _ sameName.symm, sameRest⟩
  | negate => exact absurd trivial core'.1
  | path | filter => exact absurd trivial core'.2
  | text | number | binary | call => simp [lead] at sameLead

theorem tells_call {function : QName} (clear : (Expr.call function es).Clear) (all : ∀ e ∈ es, e.Tells) :
    (Expr.call function es).TellsCore := by
  intro e' rest rest' core' clear' next next' same
  have sameLead := lead_eq clear clear' same
  have inWord := inWord_text (.inl clear.self.1.1)
  cases e' with
  | number => exact absurd same.symm (number_append_ne_call clear' clear next')
  | call function' es' =>
    have proper := clear.self.1.1
    have proper' := clear'.self.1.1
    rw [toList_print_call, toList_print_call] at same
    simp only [List.append_assoc, List.cons_append, List.nil_append] at same
    obtain ⟨sameText, opening⟩ := word_injective inWord (inWord_text (.inl proper')) (next_cons List.mem_cons_self _)
      (next_cons List.mem_cons_self _) same
    have sameName := QName.ofText_text (.inl proper)
    rw [String.toList_injective sameText, QName.ofText_text (.inl proper')] at sameName
    unfold Clear Everywhere at clear clear'
    obtain ⟨rfl, sameRest⟩ := tells_arguments all (allEverywhere_iff.mp clear.2) (allEverywhere_iff.mp clear'.2)
      (List.cons.inj opening).2
    exact ⟨by rw [sameName], sameRest⟩
  | negate => exact absurd trivial core'.1
  | path | filter => exact absurd trivial core'.2
  | text | binary | reference => simp [lead] at sameLead

theorem tells_binary {operator : Operator} {left right : Expr} (clear : (Expr.binary operator left right).Clear)
    (tellsLeft : left.Tells) (tellsRight : right.Tells) : (Expr.binary operator left right).TellsCore := by
  intro e' rest rest' core' clear' next next' same
  have sameLead := lead_eq clear clear' same
  cases e' with
  | binary operator' left' right' =>
    have blank (operator : Operator) : ' ' ∉ operator.symbol.toList := by cases operator <;> decide
    unfold Clear Everywhere at clear'
    rw [toList_print_binary, toList_print_binary] at same
    simp only [List.append_assoc, List.cons_append, List.nil_append] at same
    obtain ⟨rfl, afterLeft⟩ := tellsLeft left' _ _ clear'.2.1 (next_cons (by decide) _) (next_cons (by decide) _)
      (List.cons.inj same).2
    obtain ⟨sameSymbol, afterSymbol⟩ := append_mark_injective (blank operator) (blank operator')
      (List.cons.inj afterLeft).2
    obtain rfl := symbol_injective (String.toList_injective sameSymbol)
    obtain ⟨rfl, closed⟩ := tellsRight right' _ _ clear'.2.2 (next_cons (by decide) _) (next_cons (by decide) _)
      afterSymbol
    exact ⟨rfl, (List.cons.inj closed).2⟩
  | negate => exact absurd trivial core'.1
  | path | filter => exact absurd trivial core'.2
  | text | number | call | reference => simp [lead] at sameLead

/-! ### Filter expressions -/

/-- An expression with predicates and further steps after it, if there are any. -/
def extended (base : Expr) : List Expr → List Step → Expr
  | [], [] => base
  | es, steps => .filter base es steps

theorem extended_eq (made : es ≠ [] ∨ steps ≠ []) : base.extended es steps = .filter base es steps := by
  match es, steps, made with
  | [], [], made => exact absurd made (by simp)
  | _ :: _, _, _ | [], _ :: _, _ => rfl

theorem toList_print_extended (base : Expr) (es : List Expr) (steps : List Step) :
    (base.extended es steps).print.toList =
      base.print.toList ++ es.flatMap predicateChars ++ steps.flatMap furtherChars := by
  match es, steps with
  | [], [] => exact ((List.append_nil _).trans (List.append_nil _)).symm
  | _ :: _, _ | [], _ :: _ => exact toList_print_filter _ _ _

theorem lead_extended (base : Expr) (es : List Expr) (steps : List Step) :
    (base.extended es steps).lead = base.lead := by
  match es, steps with
  | [], [] | _ :: _, _ | [], _ :: _ => rfl

/-- What is neither a unary minus nor a location path is a core with predicates and further steps. -/
theorem exists_extended (clear : e.Clear) (noNegation : ¬ e.IsNegation)
    (noLocation : ∀ absolute steps, e ≠ .path absolute steps) :
    ∃ (base : Expr) (es : List Expr) (steps : List Step), e = base.extended es steps ∧ base.IsCore ∧ base.Clear ∧
      (∀ e ∈ es, e.Clear) ∧ ∀ step ∈ steps, step.Clear := by
  by_cases core : e.IsCore
  · exact ⟨e, [], [], rfl, core, clear, List.forall_mem_nil _, List.forall_mem_nil _⟩
  · cases e with
    | filter base es steps =>
      unfold Clear Everywhere at clear
      obtain ⟨⟨made, isCore⟩, clearBase, clearPredicates, clearSteps⟩ := clear
      exact ⟨base, es, steps, (extended_eq made.1).symm, isCore, clearBase, allEverywhere_iff.mp clearPredicates,
        Step.allEverywhere_iff.mp clearSteps⟩
    | negate => exact absurd trivial noNegation
    | path absolute steps => exact absurd rfl (noLocation absolute steps)
    | text | number | binary | call | reference => exact absurd ⟨id, id⟩ core

theorem IsCore.lead_ne (core : e.IsCore) : e.lead ≠ .minus ∧ e.lead ≠ .slash := by
  cases e with
  | negate => exact absurd trivial core.1
  | path | filter => exact absurd trivial core.2
  | text | number | binary | call | reference => simp [lead]

/-- **A core with predicates and further steps** is told by its parts. -/
theorem tells_extended (core : base.IsCore) (clear : base.Clear) (tells : base.TellsCore) (all : ∀ e ∈ es, e.Tells)
    (allSteps : ∀ step ∈ steps, step.Tells) : (base.extended es steps).Tells := by
  intro e' rest rest' clear' next next' same
  rw [toList_print_extended, List.append_assoc, List.append_assoc] at same
  have after := next_predicates (next_further next steps) es
  have sameLead := lead_eq clear clear' same
  match e' with
  | .negate operand => exact absurd sameLead core.lead_ne.1
  | .path true steps' => exact absurd sameLead core.lead_ne.2
  | .path false steps' =>
    unfold Clear Everywhere at clear'
    obtain ⟨step, others, rfl⟩ := List.exists_cons_of_ne_nil (clear'.1.1.resolve_left (by simp))
    rw [toList_print_relative, List.append_assoc] at same
    have clearStep := Step.allEverywhere_iff.mp clear'.2 step List.mem_cons_self
    exact absurd same (ne_step core clear clearStep after (next_further next' others))
  | .filter _ _ _ | .text _ | .number _ | .binary _ _ _ | .call _ _ | .reference _ =>
    obtain ⟨base', es', steps', isExtended, core', clearBase, clearPredicates, clearSteps⟩ :=
      exists_extended clear' id (by simp)
    rw [isExtended] at same ⊢
    rw [toList_print_extended, List.append_assoc, List.append_assoc] at same
    obtain ⟨rfl, afterBase⟩ := tells base' _ _ core' clearBase after (next_predicates (next_further next' steps') es')
      same
    obtain ⟨rfl, afterPredicates⟩ := tells_predicates all clearPredicates (next_further next steps)
      (next_further next' steps') afterBase
    obtain ⟨rfl, sameRest⟩ := tells_further allSteps clearSteps next next' afterPredicates
    exact ⟨rfl, sameRest⟩

/-! ### Other expressions -/

theorem tells_negate (clear : e.negate.Clear) (tells : e.Tells) : e.negate.Tells := by
  intro e' rest rest' clear' next next' same
  have sameLead := lead_eq clear clear' same
  cases e' with
  | negate operand =>
    unfold Clear Everywhere at clear'
    rw [print, print, String.toList_append, String.toList_append] at same
    obtain ⟨rfl, sameRest⟩ := tells operand _ _ clear'.2 next next' (List.cons.inj same).2
    exact ⟨rfl, sameRest⟩
  | path absolute => cases absolute <;> simp [lead] at sameLead
  | filter base es steps =>
    unfold Clear Everywhere at clear'
    exact absurd sameLead.symm (IsCore.lead_ne clear'.1.2).1
  | text | number | binary | call | reference => simp [lead] at sameLead

/-- No step may come after an expression. -/
theorem ne_step_of_next (next : Next afterExpr rest) (step : Step) : rest ≠ step.print.toList ++ rest' := by
  obtain ⟨c, cs, written, start⟩ := exists_step_toList step
  rw [written]
  refine next.ne_cons (fun member => not_mem_of_isNameStart start ?_) _
  have subset : afterExpr ⊆ '.' :: '-' :: marks := by decide
  exact subset member

/-- **A location path** is told by its steps. -/
theorem tells_steps {absolute : Bool} (clear : (Expr.path absolute steps).Clear)
    (clear' : (Expr.path absolute steps').Clear) (all : ∀ step ∈ steps, step.Tells) (next : Next afterExpr rest)
    (next' : Next afterExpr rest')
    (same : (Expr.path absolute steps).print.toList ++ rest = (Expr.path absolute steps').print.toList ++ rest') :
    steps = steps' ∧ rest = rest' := by
  unfold Clear Everywhere at clear clear'
  have clearSteps := Step.allEverywhere_iff.mp clear'.2
  cases absolute with
  | false =>
    obtain ⟨step, others, rfl⟩ := List.exists_cons_of_ne_nil (clear.1.1.resolve_left (by simp))
    obtain ⟨step', others', rfl⟩ := List.exists_cons_of_ne_nil (clear'.1.1.resolve_left (by simp))
    rw [toList_print_relative, toList_print_relative] at same
    exact tells_further all clearSteps next next' (congrArg ('/' :: ·) same)
  | true =>
    have root : (Expr.path true []).print.toList = ['/'] := rfl
    match steps, steps' with
    | [], [] => exact ⟨rfl, List.append_cancel_left same⟩
    | [], step' :: others' =>
      rw [root, toList_print_absolute, List.flatMap_cons, List.append_assoc] at same
      exact absurd (List.cons.inj same).2 (ne_step_of_next next step')
    | step :: others, [] =>
      rw [root, toList_print_absolute, List.flatMap_cons, List.append_assoc] at same
      exact absurd (List.cons.inj same).2.symm (ne_step_of_next next' step)
    | step :: others, step' :: others' =>
      rw [toList_print_absolute, toList_print_absolute] at same
      exact tells_further all clearSteps next next' same

theorem tells_path {absolute : Bool} (clear : (Expr.path absolute steps).Clear) (all : ∀ step ∈ steps, step.Tells) :
    (Expr.path absolute steps).Tells := by
  intro e' rest rest' clear' next next' same
  have sameLead := lead_eq clear clear' same
  match e' with
  | .negate operand => cases absolute <;> simp [lead] at sameLead
  | .path absolute' steps' =>
    obtain rfl : absolute = absolute' := by
      cases absolute <;> cases absolute' <;> simp [lead] at sameLead <;> rfl
    obtain ⟨rfl, sameRest⟩ := tells_steps clear clear' all next next' same
    exact ⟨rfl, sameRest⟩
  | .filter _ _ _ | .text _ | .number _ | .binary _ _ _ | .call _ _ | .reference _ =>
    obtain ⟨base, es', steps', isExtended, core, clearBase, _, _⟩ := exists_extended clear' id (by simp)
    rw [isExtended] at same sameLead
    rw [lead_extended] at sameLead
    cases absolute with
    | true => exact absurd sameLead.symm core.lead_ne.2
    | false =>
      unfold Clear Everywhere at clear
      obtain ⟨step, others, rfl⟩ := List.exists_cons_of_ne_nil (clear.1.1.resolve_left (by simp))
      rw [toList_print_relative, List.append_assoc, toList_print_extended, List.append_assoc, List.append_assoc]
        at same
      have clearStep := Step.allEverywhere_iff.mp clear.2 step List.mem_cons_self
      exact absurd same.symm (ne_step core clearBase clearStep (next_predicates (next_further next' steps') es')
        (next_further next others))

end Forms

/-! ### The induction over expressions -/

/-- A core is told from any other expression if it is told from any other core. -/
theorem TellsCore.tells {e : Expr} (core : e.IsCore) (clear : e.Clear) (tells : e.TellsCore) : e.Tells :=
  @tells_extended e [] [] core clear tells (List.forall_mem_nil _) (List.forall_mem_nil _)

mutual

/-- **The written form tells an expression** from any other one, whatever may come after them. -/
theorem tells_expr (e : Expr) (clear : e.Clear) : e.Tells ∧ (e.IsCore → e.TellsCore) := by
  match e with
  | .text value =>
    have tells := tells_text clear
    exact ⟨tells.tells ⟨id, id⟩ clear, fun _ => tells⟩
  | .number value =>
    have tells := tells_number clear
    exact ⟨tells.tells ⟨id, id⟩ clear, fun _ => tells⟩
  | .negate operand =>
    have clearOperand : operand.Clear := by
      unfold Clear Everywhere at clear
      exact clear.2
    exact ⟨tells_negate clear (tells_expr operand clearOperand).1, fun core => absurd trivial core.1⟩
  | .binary operator left right =>
    have clearParts : left.Clear ∧ right.Clear := by
      unfold Clear Everywhere at clear
      exact clear.2
    have tells := tells_binary clear (tells_expr left clearParts.1).1 (tells_expr right clearParts.2).1
    exact ⟨tells.tells ⟨id, id⟩ clear, fun _ => tells⟩
  | .path absolute steps =>
    have clearSteps := by
      unfold Clear Everywhere at clear
      exact clear.2
    exact ⟨tells_path clear (tells_allSteps steps clearSteps), fun core => absurd trivial core.2⟩
  | .filter base predicates steps =>
    obtain ⟨⟨made, core⟩, clearBase, clearPredicates, clearSteps⟩ := by
      unfold Clear Everywhere at clear
      exact clear
    have tells := tells_extended core clearBase ((tells_expr base clearBase).2 core)
      (tells_all predicates clearPredicates) (tells_allSteps steps clearSteps)
    rw [extended_eq made.1] at tells
    exact ⟨tells, fun core => absurd trivial core.2⟩
  | .call function arguments =>
    have clearArguments := by
      unfold Clear Everywhere at clear
      exact clear.2
    have tells := tells_call clear (tells_all arguments clearArguments)
    exact ⟨tells.tells ⟨id, id⟩ clear, fun _ => tells⟩
  | .reference variableName =>
    have tells := tells_reference clear
    exact ⟨tells.tells ⟨id, id⟩ clear, fun _ => tells⟩

theorem tells_all (es : List Expr)
    (clear : Expr.AllEverywhere (fun e => e.Made ∧ e.Grouped) (fun test => test.Made ∧ test.Legible) es) :
    ∀ e ∈ es, e.Tells := by
  match es with
  | [] => simp
  | e :: es =>
    unfold Expr.AllEverywhere at clear
    exact List.forall_mem_cons.mpr ⟨(tells_expr e clear.1).1, tells_all es clear.2⟩

theorem tells_allSteps (steps : List Step)
    (clear : Step.AllEverywhere (fun e => e.Made ∧ e.Grouped) (fun test => test.Made ∧ test.Legible) steps) :
    ∀ step ∈ steps, step.Tells := by
  match steps with
  | [] => simp
  | .mk axis test predicates :: steps =>
    unfold Step.AllEverywhere Step.Everywhere at clear
    obtain ⟨⟨⟨made, legible⟩, clearPredicates⟩, clearSteps⟩ := clear
    exact List.forall_mem_cons.mpr
      ⟨tells_step axis made legible (tells_all predicates clearPredicates), tells_allSteps steps clearSteps⟩

end

/-- **Expressions that are written the same are the same**, if all of their parentheses are written. -/
theorem print_injective {e e' : Expr} (clear : e.Clear) (clear' : e'.Clear) (same : e.print = e'.print) : e = e' :=
  ((tells_expr e clear).1 e' [] [] clear' next_nil next_nil (by rw [same])).1

/-! ### Meaning -/

open Grammar

/-- **The written form tells the meaning**: what is parsed from two texts and written the same has the same value in
every environment and at every focus, whatever monad it is evaluated in. -/
theorem evalIn_eq_of_print_eq {m : Type → Type} [Evaluating m] {source other : String} {e e' : Expr}
    (parsed : parse source = .ok e) (parsed' : parse other = .ok e') (grouped : e.Everywhere Grouped NodeTest.Legible)
    (grouped' : e'.Everywhere Grouped NodeTest.Legible) (same : e.print = e'.print) (env : Environment m)
    (focus : Focus) : e.evalIn env focus = e'.evalIn env focus := by
  have clear : e.Clear := (made_of_parse parsed).and grouped
  have clear' : e'.Clear := (made_of_parse parsed').and grouped'
  rw [print_injective clear clear' same]

theorem grouped_secondChildren : secondChildren.Everywhere Grouped NodeTest.Legible := by
  simp [secondChildren, Everywhere, Step.AllEverywhere, Step.Everywhere, AllEverywhere, Step.descendants, two, Grouped,
    NodeTest.Legible]

theorem evalIn_eq_secondChildren : parse "//node()[2]" = .ok secondChildren ∧
    parse "/descendant-or-self::node()/child::node()[2]" = .ok secondChildren ∧
    ∀ focus, secondChildren.evalIn noteEnvironment focus = secondChildren.evalIn noteEnvironment focus := by
  have printed : secondChildren.print = "/descendant-or-self::node()/child::node()[2]" := by decide +kernel
  have again : parse "/descendant-or-self::node()/child::node()[2]" = .ok secondChildren := by
    rw [← printed]
    exact parse_print_of_printable ((made_of_parse parse_secondChildren).and legible_secondChildren)
  exact ⟨parse_secondChildren, again, evalIn_eq_of_print_eq parse_secondChildren again grouped_secondChildren
    grouped_secondChildren rfl noteEnvironment⟩

/-- The second of all nodes. -/
def secondNode : Expr := .filter (.path true [.descendants, .mk .child .anyNode []]) [two] []

theorem parse_secondNode : parse "(//node())[2]" = .ok secondNode := by
  have step := reads_childStep made_anyNode (List.forall_mem_nil _)
  have path := (reads_anywhere step).rise (i := 1) (j := 10) (by decide) (Nat.le_refl 10)
  have filtered : Reads "FilterExpr" _ (.expr secondNode) :=
    @Reads.of_rule 29 _ rfl _ _ _ (.cons (reads_parenthesized path) (reads_predicate reads_two).last) rfl
  have whole : Reads (level 0) _ (.expr secondNode) := filtered
  exact parse_of_reads (by decide +kernel) (whole.rise (j := 10) (by decide) (Nat.le_refl 10))

theorem evalIn_ne_of_print_eq : parse "(//node())[2]" = .ok secondNode ∧ parse "//node()[2]" = .ok secondChildren ∧
    secondNode.print = secondChildren.print ∧
    nodesOf? (secondNode.evalIn (noteBelow 0) (Focus.start (some (.item 0)))) = some [.item 3] ∧
    nodesOf? (secondChildren.evalIn (noteBelow 0) (Focus.start (some (.item 0)))) = some [.item 4] := by
  refine ⟨parse_secondNode, parse_secondChildren, ?_, ?_, ?_⟩
  all_goals decide +kernel

end Expr

end XPathAnnotator
