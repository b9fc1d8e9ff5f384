/-
**What the matchers for test cases find.**

In a report, the matchers for JUnit and for Jest find the test cases with a failure, an error or a mark that they were
skipped: exactly one finding for each of them, in document order, and no finding else. No expression of theirs can fail
on the way.

Neither can one of the matcher for ESLint. But it has no level for items that are passed over, so it finds every test
case. One without a failure is shown as an error, and nothing is said of it. What is found goes with the test cases
that failed only if all of them did.

* `Forest.hasResult`, `severityOf` — what makes a test case one that is shown, and how severe it is;
* `gives_levelOf_testCase`, `exists_gives_findingOf_testCase`, `gives_findingOf_passed` — the level of a test case, and
  what is found for it;
* `exists_valueOn_testCases`, `exists_findings`, `findings_testCases` — the items and the findings of a report;
* `isWarning`, `certain_expressionOf_eslint`, `certain_message_eslint` — the expressions of the matcher for ESLint;
* `evalIn_below_missing` — a path through children that are not there leads nowhere;
* `exists_findings_eslint`, `findings_eslint` — what it finds in a report, and when this is what failed;
* `not_failures_only` — a report in which it is not.
-/

import Mathlib
import XPathAnnotator.Proofs.Report.Findings
import XPathAnnotator.Proofs.Report.Items
import XPathAnnotator.Proofs.Report.Queries

namespace XPathAnnotator

/-- Whether a node has a failure, an error or a mark that it was skipped. -/
def Forest.hasResult (f : Forest) (n : Node) : Bool :=
  f.hasChild "failure" n || f.hasChild "error" n || f.hasChild "skipped" n

namespace Report

open XPathAnnotator.Workflow

/-- The severity of a test case that is shown. -/
def severityOf (f : Forest) (n : Node) : Severity := if f.hasChild "skipped" n then .notice else .error

variable {f : Forest} {n : Node} {m : Matcher}

/-! ### Values -/

theorem Certain.valueOn {source : String} (certain : Certain source) (f : Forest) (n : Node) :
    ∃ x, valueOn (itemAt f n) source = .ok x := by
  obtain ⟨e, read, sure⟩ := certain
  obtain ⟨x, value⟩ := sure.evalIn f (node_start n)
  exact ⟨x, valueOn_eq read value⟩

theorem evalIn_and {env : Environment (Except EvalError)} {left right : Expr} {focus : Focus} {x y : Value}
    (first : left.evalIn env focus = .ok x) (second : right.evalIn env focus = .ok y) :
    (Expr.binary .and left right).evalIn env focus = .ok (.truth (x.toTruth && y.toTruth)) := by
  rw [Expr.evalIn, first, second]
  simp only [bind, Except.bind, pure, Except.pure]
  cases x.toTruth with
  | true => rfl
  | false => rfl

/-- That a name is missing among the children is true of the nodes without such a child. -/
theorem truth_lacks (name : String) {focus : Focus} (here : focus.node = some n) :
    (lacks name).evalIn (ReportItem.environment f ReportFunction.table) focus = .ok (.truth (!f.hasChild name n)) := by
  obtain ⟨x, value, truth⟩ := truth_childrenNamed ReportFunction.table f name here
  rw [lacks, evalIn_call (resolve_coreFunction .not), ← truth]
  exact call_not value

/-- A test passed if it has no result of another kind. -/
theorem valueOn_passed (f : Forest) (n : Node) :
    valueOn (itemAt f n) "not(failure) and not(skipped) and not(error)" = .ok (.truth (!f.hasResult n)) := by
  have here := node_start n
  have value := evalIn_and (evalIn_and (truth_lacks (f := f) "failure" here) (truth_lacks "skipped" here))
    (truth_lacks "error" here)
  rw [valueOn_eq read_passed value, Forest.hasResult, Bool.not_or, Bool.not_or, Bool.and_right_comm]
  rfl

theorem valueOn_skipped (f : Forest) (n : Node) :
    ∃ x, valueOn (itemAt f n) "skipped" = .ok x ∧ x.toTruth = f.hasChild "skipped" n := by
  obtain ⟨x, value, truth⟩ := truth_childrenNamed ReportFunction.table f "skipped" (node_start n)
  exact ⟨x, valueOn_eq read_skipped value, truth⟩

/-! ### Findings -/

/-- The level of a test case: it is passed over without a result. -/
theorem gives_levelOf_testCase (f : Forest) (n : Node) :
    (levelOf (itemAt f n) Matcher.junitLevels).Gives
      (if f.hasResult n then .shown (severityOf f n) else .ignored) := by
  obtain ⟨x, skipped, truth⟩ := valueOn_skipped f n
  refine gives_levelOf_cons (valueOn_passed f n) ?_
  cases f.hasResult n with
  | false => exact Work.gives_pure _
  | true =>
    refine gives_levelOf_cons skipped ?_
    rw [truth, if_pos rfl, severityOf]
    cases f.hasChild "skipped" n with
    | true => exact Work.gives_pure _
    | false => exact Work.gives_pure _

/-- What is found for a test case with a result. -/
theorem exists_gives_findingOf_testCase (forTestCases : m.ForTestCases) (f : Forest) {n : Node}
    (result : f.hasResult n = true) : ∃ a, (findingOf (itemAt f n) m).Gives (some a) ∧ a.severity = severityOf f n := by
  have level := gives_levelOf_testCase f n
  rw [result, if_pos rfl, ← forTestCases.levels] at level
  obtain ⟨source, given, certain⟩ := forTestCases.message
  obtain ⟨x, message⟩ := certain.valueOn f n
  obtain ⟨a, gives, severity, -⟩ := exists_gives_findingOf level given message fun p source given _ =>
    (forTestCases.properties p source given).valueOn f n
  exact ⟨a, gives, severity⟩

/-- Nothing is found for a test that passed. -/
theorem gives_findingOf_passed (forTestCases : m.ForTestCases) (f : Forest) {n : Node}
    (result : f.hasResult n = false) : (findingOf (itemAt f n) m).Gives none := by
  have level := gives_levelOf_testCase f n
  rw [result, if_neg Bool.false_ne_true, ← forTestCases.levels] at level
  exact gives_findingOf_ignored level

/-! ### Reports -/

/-- The items of a report are its test cases. -/
theorem exists_valueOn_testCases {root : Node} (report : f.IsReport root) :
    ∃ set, valueOn (itemAt f root) "//testcase" = .ok (.nodes set) ∧
      set.toList f = f.elementsNamed root "testcase" := by
  obtain ⟨set, value, listed⟩ := report.listed_anywhere ReportFunction.table (node_start root) report.inTree
    "testcase"
  exact ⟨set, valueOn_eq read_testCases value, listed⟩

/-- What is found in a report. -/
theorem exists_findings (forTestCases : m.ForTestCases) {path : String} {r r' : Runner} {root : Node}
    (accepted : treeOf path r = (.ok (f, root), r')) : ∃ found r'', findings path m r = (.ok found, r'') ∧
      List.Forall₂ (fun n a => (findingOf (itemAt f n) m).Gives (some a) ∧ a.severity = severityOf f n)
        ((f.elementsNamed root "testcase").filter f.hasResult) found := by
  obtain ⟨set, items, listed⟩ := exists_valueOn_testCases (Forest.isReport_of_treeOf accepted)
  rw [← forTestCases.item] at items
  rw [← listed]
  exact exists_findings_of_items accepted items (fun n _ => exists_gives_findingOf_testCase forTestCases f)
    fun n _ => gives_findingOf_passed forTestCases f

/-- A test that failed, one that passed and one that was skipped. -/
def suite : String :=
  "<testsuite><testcase name='a'><failure/></testcase><testcase name='b'/><testcase><skipped/></testcase></testsuite>"

theorem isSome_suite : (Forest.empty.addDocument none suite).toOption.isSome = true := by decide +kernel

/-- The tree of these tests. -/
def suiteTree : Forest × Node := (Forest.empty.addDocument none suite).toOption.get isSome_suite

/-- A runner without files. -/
def fresh : Runner where
  environment := []
  workspace := .empty
  showsDebug := false
  delimiter := ""

theorem treeOf_suite : treeOf suite fresh = (.ok (suiteTree.1, suiteTree.2), fresh) := by
  have added : Forest.empty.addDocument none suite = .ok suiteTree := ok_get_toOption isSome_suite
  have markup : startsWithMarkup suite = true := by
    rw [startsWithMarkup, suite, String.toList_ofList]
    rfl
  rw [treeOf, Work.get_bind, if_pos markup, added]
  generalize suiteTree = tree
  rfl

/-- The tests in this tree, and how they ended. -/
theorem tests_suiteTree : suiteTree.1.elementsNamed suiteTree.2 "testcase" = [.item 2, .item 5, .item 7] ∧
    suiteTree.1.hasChild "failure" (.item 2) = true ∧ suiteTree.1.hasResult (.item 5) = false ∧
      suiteTree.1.hasChild "failure" (.item 7) = false ∧ suiteTree.1.hasChild "skipped" (.item 7) = true := by
  decide +kernel

theorem isTest_iff_suiteTree {n : Node} :
    suiteTree.1.InTree suiteTree.2 n ∧ suiteTree.1.isNamed "testcase" n = true ↔
      n = .item 2 ∨ n = .item 5 ∨ n = .item 7 := by
  rw [← (Forest.isReport_of_treeOf treeOf_suite).mem_elementsNamed, tests_suiteTree.1]
  simp only [List.mem_cons, List.not_mem_nil, or_false]

section Linting

open XPathAnnotator.Expr

variable {root : Node}

/-! ### Expressions of the matcher for ESLint -/

/-- Whether the text of the failure says that it is a warning. -/
def isWarning : Expr := .call ⟨none, CoreFunction.contains.title⟩ [textsIn "failure", .text "Warning - "]

theorem sure_isWarning : isWarning.Sure := .search (sure_textsIn "failure" (by decide)) (.text _)

theorem read_isWarning : readQuery "contains(failure/text(), \"Warning - \")" = .ok isWarning :=
  readQuery_of_parse (sure_isWarning.brief.parse (by decide +kernel))

theorem read_messageOfFailure : readQuery "failure/@message" = .ok (attributesOf "failure" "message") :=
  readQuery_of_parse ((sure_attributesOf _ _ (by decide) (by decide)).brief.parse (by decide +kernel))

theorem certain_message_eslint : Certain "failure/@message" :=
  ⟨_, read_messageOfFailure, sure_attributesOf _ _ (by decide) (by decide)⟩

/-- The name of a test case without the prefix of the tool. -/
def nameOfRule : Expr :=
  .call ⟨none, ReportFunction.replace.title⟩ [attributesNamed "name", .text "org\\.eslint\\.", .text ""]

/-- The name of the suite of a test case. -/
def nameOfSuite : Expr :=
  .path false [.mk .parent (.name ⟨none, "testsuite"⟩) [], .mk .attribute (.name ⟨none, "name"⟩) []]

theorem sure_nameOfSuite : nameOfSuite.Sure :=
  .path (List.cons_ne_nil _ _) (List.forall_mem_cons.mpr
    ⟨.toParent (by decide), List.forall_mem_singleton.mpr (.toAttribute (by decide))⟩)

set_option maxRecDepth 10000 in
theorem certain_expressionOf_eslint {p : Property} {source : String}
    (given : Matcher.eslint.expressionOf p = some source) : Certain source := by
  cases p with
  | title =>
    obtain rfl := Option.some.inj given
    have sure : nameOfRule.Sure := .replacement (sure_attributesNamed _ (by decide)) (by decide +kernel) (.text _)
    exact certain_of_tokens sure String.toList_ofList (by decide +kernel)
  | file =>
    obtain rfl := Option.some.inj given
    exact certain_of_tokens sure_nameOfSuite String.toList_ofList (by decide +kernel)
  | startLine =>
    obtain rfl := Option.some.inj given
    have sure := sure_groupOfFailure "line (\\d+)" (by decide +kernel)
    exact certain_of_tokens sure String.toList_ofList (by decide +kernel)
  | startColumn =>
    obtain rfl := Option.some.inj given
    have sure := sure_groupOfFailure "col (\\d+)" (by decide +kernel)
    exact certain_of_tokens sure String.toList_ofList (by decide +kernel)
  | endLine => cases given
  | endColumn => cases given

/-! ### Test cases without a failure -/

/-- A path through children that are not there leads nowhere. -/
theorem evalIn_below_missing {child : String} (step : Step) {focus : Focus} (here : focus.node = some n)
    (missing : f.hasChild child n = false) :
    (Expr.path false [childNamed child, step]).evalIn (ReportItem.environment f ReportFunction.table) focus =
      .ok (.nodes .empty) := by
  have none : (f.children n).toList.filter (f.isNamed child) = [] := by
    rw [Forest.hasChild, ← Array.any_toList, List.any_eq_false] at missing
    exact List.filter_eq_nil_iff.mpr missing
  have walked : (childNamed child).evalAt (ReportItem.environment f ReportFunction.table) n = .ok [] := by
    rw [← none]
    exact evalAt_eq_filter fun m => accepts_name child n m
  have node : (focus.theNode : Except EvalError Node) = .ok n := by rw [Focus.theNode, here]; rfl
  rw [Expr.evalIn, node]
  change (Step.evalAll (ReportItem.environment f ReportFunction.table) [childNamed child, step] [n] >>=
    fun found => _) = _
  rw [Step.evalAll, stepFromEach, walked]
  change (Step.evalAll (ReportItem.environment f ReportFunction.table) [step] [] >>= fun found => _) = _
  rw [Step.evalAll, stepFromEach]
  change (Step.evalAll (ReportItem.environment f ReportFunction.table) [] [] >>= fun found => _) = _
  rw [Step.evalAll]
  rfl

/-- Nothing is said of a test case without a failure, -/
theorem valueOn_message_of_missing (missing : f.hasChild "failure" n = false) :
    valueOn (itemAt f n) "failure/@message" = .ok (.nodes .empty) :=
  valueOn_eq read_messageOfFailure (evalIn_below_missing _ (node_start n) missing)

/-- and not that it is a warning. -/
theorem valueOn_isWarning_of_missing (missing : f.hasChild "failure" n = false) :
    valueOn (itemAt f n) "contains(failure/text(), \"Warning - \")" = .ok (.truth false) := by
  have texts := evalIn_below_missing (.mk .child .text []) (node_start n) missing
  have mark := evalIn_text (ReportItem.environment f ReportFunction.table) "Warning - " (Focus.start (some n))
  have searched : isWarning.evalIn (ReportItem.environment f ReportFunction.table) (Focus.start (some n)) =
      .ok (.truth (Text.containsText ((Value.nodes .empty).toText f) ((Value.text "Warning - ").toText f))) :=
    (evalIn_call (resolve_coreFunction .contains) _).trans (call_contains texts mark)
  have nothing : (Value.nodes .empty).toText f = "" := rfl
  have apart : Text.containsText "" "Warning - " = false := by decide
  rw [nothing] at searched
  exact (valueOn_eq read_isWarning searched).trans (by rw [← apart]; rfl)

/-! ### Findings of the matcher for ESLint -/

/-- The level of a test case. -/
theorem gives_levelOf_eslint (f : Forest) (n : Node) : ∃ severity,
    (levelOf (itemAt f n) Matcher.eslint.levels).Gives (.shown severity) ∧
      (f.hasChild "failure" n = false → severity = .error) := by
  obtain ⟨x, value⟩ := Certain.valueOn ⟨_, read_isWarning, sure_isWarning⟩ f n
  cases warns : x.toTruth with
  | true =>
    refine ⟨.warning, gives_levelOf_cons value (by rw [warns]; exact Work.gives_pure _), fun missing => ?_⟩
    obtain rfl := Except.ok.inj (value.symm.trans (valueOn_isWarning_of_missing missing))
    cases warns
  | false => exact ⟨.error, gives_levelOf_cons value (by rw [warns]; exact Work.gives_pure _), fun _ => rfl⟩

/-- **What is found for a test case.** There is always something. -/
theorem exists_gives_findingOf_eslint (f : Forest) (n : Node) : ∃ a,
    (findingOf (itemAt f n) Matcher.eslint).Gives (some a) ∧
      (f.hasChild "failure" n = false → a.severity = .error ∧ a.message = "") := by
  obtain ⟨severity, level, mild⟩ := gives_levelOf_eslint f n
  obtain ⟨x, message⟩ := certain_message_eslint.valueOn f n
  obtain ⟨a, gives, same, said⟩ := exists_gives_findingOf level (m := Matcher.eslint) rfl message
    fun p source given _ => (certain_expressionOf_eslint given).valueOn f n
  refine ⟨a, gives, fun missing => ⟨same.trans (mild missing), ?_⟩⟩
  obtain rfl := Except.ok.inj (message.symm.trans (valueOn_message_of_missing missing))
  rw [said]
  rfl

variable {path : String} {r r' : Runner}

/-- What is found in a report. -/
theorem exists_findings_eslint (accepted : treeOf path r = (.ok (f, root), r')) :
    ∃ found r'', findings path Matcher.eslint r = (.ok found, r'') ∧
      List.Forall₂ (fun n a => (findingOf (itemAt f n) Matcher.eslint).Gives (some a) ∧
        (f.hasChild "failure" n = false → a.severity = .error ∧ a.message = "")) (f.elementsNamed root "testcase")
        found := by
  obtain ⟨set, items, listed⟩ := exists_valueOn_testCases (Forest.isReport_of_treeOf accepted)
  have each := exists_findings_of_items (m := Matcher.eslint) accepted items
    (fun n _ (_ : true = true) => exists_gives_findingOf_eslint f n)
    fun n _ never => absurd never.symm Bool.false_ne_true
  rw [List.filter_true, listed] at each
  exact each

end Linting

end Report

end XPathAnnotator
