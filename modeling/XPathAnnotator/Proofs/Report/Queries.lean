/-
**The expressions of the matchers for JUnit reports.**

The matchers for reports of JUnit and of Jest are texts. Here stands for each of these texts the expression that it is
read as: nearly all are brief and never fail, apart from the path to the items and the condition under which an item
is passed over.

* `Certain` — texts that are read as expressions which never fail;
* `read_testCases`, `read_passed` — the path to the items, and the condition of a test that passed;
* `Matcher.ForTestCases` — a matcher with these items and levels and nothing that can fail;
* `forTestCases_junit`, `forTestCases_jest` — the matchers for JUnit and for Jest are such.
-/

import Mathlib
import XPathAnnotator.Proofs.Report.Certainty
import XPathAnnotator.Report.Extract

namespace XPathAnnotator.Report

open XPathAnnotator.Expr

theorem readQuery_of_parse {source : String} {e : Expr} (parsed : Expr.parse source = .ok e) :
    readQuery source = .ok e := by
  rw [readQuery, Expr.read, parsed]
  rfl

/-- Whether a text is read as an expression that never fails. -/
def Certain (source : String) : Prop := ∃ e, readQuery source = .ok e ∧ e.Sure

/-- It is if its characters are cut into the tokens of such an expression. They are given apart from the text, since
reading them off a long text is slow. -/
theorem certain_of_tokens {source : String} {characters : List Char} {e : Expr} (sure : e.Sure)
    (same : source.toList = characters) (cut : Token.tokensAfter none characters = .ok e.brief) : Certain source := by
  have whole : Token.tokenize source = .ok e.brief := by rw [Token.tokenize, same, cut]
  exact ⟨e, readQuery_of_parse (sure.brief.parse whole), sure⟩

/-- The characters of a text that is written in four rows. -/
theorem toList_fourRows (a b c d : List Char) :
    (String.ofList a ++ String.ofList b ++ String.ofList c ++ String.ofList d).toList = a ++ b ++ c ++ d := by
  simp only [String.toList_append, String.toList_ofList]

/-! ### Pieces of expressions -/

/-- A path to the attributes of a name. -/
def attributesNamed (name : String) : Expr := .path false [.mk .attribute (.name ⟨none, name⟩) []]

/-- A path to the attributes of a name of the children of a name. -/
def attributesOf (child name : String) : Expr := .path false [childNamed child, .mk .attribute (.name ⟨none, name⟩) []]

/-- A path to the texts in the children of a name. -/
def textsIn (child : String) : Expr := .path false [childNamed child, .mk .child .text []]

/-- That there are no children of a name. -/
def lacks (name : String) : Expr := .call ⟨none, CoreFunction.not.title⟩ [childrenNamed name]

theorem sure_childrenNamed (name : String) (isName : Token.isNCName name = true) : (childrenNamed name).Sure :=
  .path (List.cons_ne_nil _ _) (List.forall_mem_singleton.mpr (.toChild isName))

theorem sure_attributesNamed (name : String) (isName : Token.isNCName name = true) : (attributesNamed name).Sure :=
  .path (List.cons_ne_nil _ _) (List.forall_mem_singleton.mpr (.toAttribute isName))

theorem sure_attributesOf (child name : String) (isChild : Token.isNCName child = true)
    (isName : Token.isNCName name = true) : (attributesOf child name).Sure :=
  .path (List.cons_ne_nil _ _) (List.forall_mem_cons.mpr
    ⟨.toChild isChild, List.forall_mem_singleton.mpr (.toAttribute isName)⟩)

theorem sure_textsIn (child : String) (isChild : Token.isNCName child = true) : (textsIn child).Sure :=
  .path (List.cons_ne_nil _ _) (List.forall_mem_cons.mpr ⟨.toChild isChild, List.forall_mem_singleton.mpr .toText⟩)

theorem sure_lacks (name : String) (isName : Token.isNCName name = true) : (lacks name).Sure :=
  .negation (sure_childrenNamed name isName)

/-! ### Items and levels -/

/-- That a test case has no failure, no mark that it was skipped, and no error. -/
def passed : Expr := .binary .and (.binary .and (lacks "failure") (lacks "skipped")) (lacks "error")

theorem read_testCases : readQuery "//testcase" = .ok (anywhere "testcase") := by
  have made : NodeTest.Made (.name ⟨none, "testcase"⟩) := made_name (by decide)
  have step := reads_childStep made (List.forall_mem_nil _)
  have path := reads_anywhere step
  have read := path.rise (i := 1) (j := 10) (by decide) (Nat.le_refl 10)
  exact readQuery_of_parse (parse_of_reads (by decide +kernel) read)

theorem read_passed : readQuery "not(failure) and not(skipped) and not(error)" = .ok passed := by
  have failure := (sure_lacks "failure" (by decide)).brief.reads
  have skipped := (sure_lacks "skipped" (by decide)).brief.reads
  have error := (sure_lacks "error" (by decide)).brief.reads
  have first := reads_operation .and (failure.rise (i := 1) (j := 8) (by decide) (by decide))
    (skipped.rise (i := 1) (j := 7) (by decide) (by decide))
  have whole := reads_operation .and first (error.rise (i := 1) (j := 7) (by decide) (by decide))
  have read := whole.rise (i := 8) (j := 10) (by decide) (Nat.le_refl 10)
  exact readQuery_of_parse (parse_of_reads (by decide +kernel) read)

theorem read_skipped : readQuery "skipped" = .ok (childrenNamed "skipped") :=
  readQuery_of_parse ((sure_childrenNamed _ (by decide)).brief.parse (by decide +kernel))

/-! ### Messages and properties -/

/-- The message of a kind of result and the text in it. -/
def messageAndText (child : String) : Expr :=
  .call ⟨none, ReportFunction.normalize.title⟩
    [.call ⟨none, CoreFunction.concat.title⟩ [attributesOf child "message", .text " \n ", textsIn child]]

/-- The message for an error or a skipped test, and what is said of a failure. -/
def messageOr (ofFailure : Expr) : Expr :=
  .call ⟨none, ReportFunction.choose.title⟩ [childrenNamed "error", messageAndText "error",
    .call ⟨none, ReportFunction.choose.title⟩ [childrenNamed "skipped", attributesOf "skipped" "message", ofFailure]]

/-- What a group of a pattern matches in the failure. -/
def groupOfFailure (pattern : String) : Expr :=
  .call ⟨none, ReportFunction.firstGroup.title⟩ [childrenNamed "failure", .text pattern]

theorem sure_messageAndText (child : String) (isChild : Token.isNCName child = true) : (messageAndText child).Sure := by
  refine .tidying (.joining fun e member => ?_)
  simp only [List.mem_cons, List.not_mem_nil, or_false] at member
  rcases member with rfl | rfl | rfl
  · exact sure_attributesOf _ _ isChild (by decide)
  · exact .text _
  · exact sure_textsIn _ isChild

theorem sure_messageOr {ofFailure : Expr} (sure : ofFailure.Sure) : (messageOr ofFailure).Sure := by
  refine .choice (sure_childrenNamed _ (by decide)) (sure_messageAndText _ (by decide)) ?_
  exact .choice (sure_childrenNamed _ (by decide)) (sure_attributesOf _ _ (by decide) (by decide)) sure

theorem sure_groupOfFailure (pattern : String) (compiles : (Pattern.compile pattern).isOk = true) :
    (groupOfFailure pattern).Sure := .group (sure_childrenNamed _ (by decide)) compiles

/-- A matcher whose items are the test cases of a document, with the levels of JUnit, a message and properties that
never fail. -/
structure Matcher.ForTestCases (m : Matcher) : Prop where
  item : m.item = "//testcase"
  levels : m.levels = junitLevels
  message : ∃ source, m.message = some source ∧ Certain source
  properties : ∀ p source, m.expressionOf p = some source → Certain source

/-- The class and the name of a test case. -/
def classAndName : Expr :=
  .call ⟨none, CoreFunction.concat.title⟩ [attributesNamed "classname", .text " - ", attributesNamed "name"]

theorem sure_classAndName : classAndName.Sure := by
  refine .joining fun e member => ?_
  simp only [List.mem_cons, List.not_mem_nil, or_false] at member
  rcases member with rfl | rfl | rfl
  · exact sure_attributesNamed _ (by decide)
  · exact .text _
  · exact sure_attributesNamed _ (by decide)

set_option maxRecDepth 10000 in
theorem forTestCases_junit : Matcher.junit.ForTestCases where
  item := rfl
  levels := rfl
  message := ⟨_, rfl, certain_of_tokens (sure_messageOr (sure_messageAndText "failure" (by decide)))
    (toList_fourRows _ _ _ _) (by decide +kernel)⟩
  properties p source given := by
    cases p with
    | title =>
      obtain rfl := Option.some.inj given
      exact certain_of_tokens sure_classAndName String.toList_ofList (by decide +kernel)
    | file =>
      obtain rfl := Option.some.inj given
      exact certain_of_tokens (sure_attributesNamed "file" (by decide)) String.toList_ofList (by decide +kernel)
    | startLine =>
      obtain rfl := Option.some.inj given
      exact certain_of_tokens (sure_attributesNamed "line" (by decide)) String.toList_ofList (by decide +kernel)
    | endLine => cases given
    | startColumn => cases given
    | endColumn => cases given

/-- The line and the column that Jest writes at the end of a line. -/
def linePattern : String := ".*.spec.\\w\x7b2,3\x7d:(\\d+):.*"

def columnPattern : String := ".*.spec.\\w\x7b2,3\x7d:\\d+:(\\d+).*"

set_option maxRecDepth 10000 in
theorem forTestCases_jest : Matcher.jest.ForTestCases where
  item := rfl
  levels := rfl
  message := ⟨_, rfl, certain_of_tokens (sure_messageOr (.tidying (sure_textsIn "failure" (by decide))))
    (toList_fourRows _ _ _ _) (by decide +kernel)⟩
  properties p source given := by
    cases p with
    | title =>
      obtain rfl := Option.some.inj given
      exact certain_of_tokens (sure_attributesNamed "name" (by decide)) String.toList_ofList (by decide +kernel)
    | file =>
      obtain rfl := Option.some.inj given
      exact certain_of_tokens (sure_attributesNamed "file" (by decide)) String.toList_ofList (by decide +kernel)
    | startLine =>
      obtain rfl := Option.some.inj given
      have sure := sure_groupOfFailure linePattern (by decide +kernel)
      exact certain_of_tokens sure String.toList_ofList (by decide +kernel)
    | startColumn =>
      obtain rfl := Option.some.inj given
      have sure := sure_groupOfFailure columnPattern (by decide +kernel)
      exact certain_of_tokens sure String.toList_ofList (by decide +kernel)
    | endLine => cases given
    | endColumn => cases given

end XPathAnnotator.Report
