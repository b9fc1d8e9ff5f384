/-
**Which descriptions of matchers can be used.**

A matcher that is accepted has an expression for its items. All other fields may be left out or be null, and where the
expressions that are given have values on the items of a report, this does no harm for levels and properties. The
message is different. It is needed for each item that is shown: without one, a report is read to its end only if all
of its items are passed over. If the message is null there is no expression to read. If it is left out, it is the empty
expression, which cannot be read.

* `itemsOf`, `HasValues` — the items of a report, and expressions that have values on them;
* `exists_readQuery_empty` — the empty expression cannot be read;
* `exists_findings_of_description`, `exists_error_of_description` — reports that are read to their end, and those that
  are not;
* `findings_of_description`, `not_always_findings` — which ones these are, and that there are others.
-/

import Mathlib
import XPathAnnotator.Proofs.Expr.Rows
import XPathAnnotator.Proofs.Report.Descriptions
import XPathAnnotator.Proofs.Report.TestCases

namespace XPathAnnotator.Report

open XPathAnnotator.Data XPathAnnotator.Workflow XPathAnnotator.Report.Matcher

/-! ### The empty expression -/

theorem exists_readQuery_empty : ∃ error, readQuery "" = .error ⟨"", error⟩ := by
  have cut : Token.tokenize "" = .ok [] := Token.tokensAfter.eq_1 none
  cases parsed : Expr.parse "" with
  | error error => exact ⟨error, by rw [readQuery, Expr.read, parsed]; rfl⟩
  | ok e =>
    -- what is read has a last token
    rw [Expr.parse, cut] at parsed
    obtain ⟨before, last, ends, -⟩ :=
      (Expr.reads_of_ofTokens (List.forall_mem_nil _) parsed).exists_last (fun _ => true) fun _ _ => rfl
    exact absurd ends.symm (List.append_ne_nil_of_right_ne_nil _ (List.cons_ne_nil _ _))

theorem exists_valueOn_empty : ∃ error, ∀ item, valueOn item "" = .error (.query ⟨"", error⟩) := by
  obtain ⟨error, unread⟩ := exists_readQuery_empty
  refine ⟨error, fun item => ?_⟩
  rw [valueOn, unread]
  rfl

/-! ### Expressions that have values -/

/-- The nodes of a report that an expression selects, in document order: none if its value is no node-set. -/
def itemsOf (f : Forest) (root : Node) (source : String) : List Node :=
  match valueOn (itemAt f root) source with
  | .ok (.nodes set) => set.toList f
  | _ => []

/-- Whether the expressions that entries give have values on nodes of a report: the conditions, the message, and the
properties whose expressions are not empty. -/
structure HasValues (entries : List (String × Setting)) (f : Forest) (nodes : List Node) : Prop where
  condition : ∀ n ∈ nodes, ∀ source, GivesCondition entries source → ∃ x, valueOn (itemAt f n) source = .ok x
  message : ∀ n ∈ nodes, ∀ source, GivesText entries .message source → ∃ x, valueOn (itemAt f n) source = .ok x
  property : ∀ n ∈ nodes, ∀ p source, GivesText entries (.property p) source → source ≠ "" →
    ∃ x, valueOn (itemAt f n) source = .ok x

/-- Whether all nodes are passed over by levels. -/
def AllIgnored (f : Forest) (levels : List (ItemLevel × String)) (nodes : List Node) : Prop :=
  ∀ n ∈ nodes, levelFor (itemAt f n) levels = .ignored

section Descriptions

variable {entries : List (String × Setting)} {m : Matcher} {f : Forest} {nodes : List Node} {n : Node}

theorem HasValues.gives_levelOf (values : HasValues entries f nodes) (describes : Describes entries m)
    (met : n ∈ nodes) : (levelOf (itemAt f n) m.levels).Gives (levelFor (itemAt f n) m.levels) :=
  Report.gives_levelOf fun entry listed => values.condition n met entry.2 (describes.condition entry listed)

theorem HasValues.gives_findingOf_ignored (values : HasValues entries f nodes) (describes : Describes entries m)
    (met : n ∈ nodes) (ignored : levelFor (itemAt f n) m.levels = .ignored) :
    (findingOf (itemAt f n) m).Gives none :=
  Report.gives_findingOf_ignored (ignored ▸ values.gives_levelOf describes met)

/-- For an item that is shown there is a finding if there is a message. -/
theorem HasValues.exists_gives_findingOf (values : HasValues entries f nodes) (describes : Describes entries m)
    (met : n ∈ nodes) {severity : Severity} (shown : levelFor (itemAt f n) m.levels = .shown severity) {source : String}
    (given : GivesText entries .message source) (message : m.message = some source) :
    ∃ a, (findingOf (itemAt f n) m).Gives (some a) := by
  obtain ⟨x, value⟩ := values.message n met source given
  obtain ⟨a, gives, -⟩ := Report.exists_gives_findingOf (shown ▸ values.gives_levelOf describes met) message value
    fun p source expression nonempty => values.property n met p source (describes.property p source expression) nonempty
  exact ⟨a, gives⟩

/-- The error for a message that is null, and the one for a message that is left out. -/
def MissingMessage (entries : List (String × Setting)) (e : ReportError) : Prop :=
  (entryOf? entries .message = some .null ∧ e = .noMessage) ∨
    (entryOf? entries .message = none ∧ ∃ error, e = .query ⟨"", error⟩)

/-- Without a message there is an error for every item that is shown, always the same. -/
theorem HasValues.exists_fails_findingOf (values : HasValues entries f nodes) (describes : Describes entries m)
    (missing : ¬ ∃ source, GivesText entries .message source) : ∃ e, MissingMessage entries e ∧
      ∀ n ∈ nodes, levelFor (itemAt f n) m.levels ≠ .ignored → (findingOf (itemAt f n) m).Fails e := by
  have level : ∀ n ∈ nodes, levelFor (itemAt f n) m.levels ≠ .ignored →
      ∃ severity, (levelOf (itemAt f n) m.levels).Gives (.shown severity) := by
    intro n met shown
    have gives := values.gives_levelOf describes met
    cases here : levelFor (itemAt f n) m.levels with
    | ignored => exact absurd here shown
    | shown severity => exact ⟨severity, here ▸ gives⟩
  rcases describes.message with ⟨source, given, -⟩ | ⟨null, none⟩ | ⟨leftOut, empty⟩
  · exact absurd ⟨source, given⟩ missing
  · refine ⟨.noMessage, .inl ⟨null, rfl⟩, fun n met shown => ?_⟩
    obtain ⟨severity, gives⟩ := level n met shown
    exact fails_findingOf_of_noMessage gives none
  · obtain ⟨error, unread⟩ := exists_valueOn_empty
    refine ⟨.query ⟨"", error⟩, .inr ⟨leftOut, error, rfl⟩, fun n met shown => ?_⟩
    obtain ⟨severity, gives⟩ := level n met shown
    exact fails_findingOf_of_message gives empty (unread _)

end Descriptions

/-! ### Reports -/

section Reports

variable {entries : List (String × Setting)} {m : Matcher} {path : String} {f : Forest} {root : Node} {r r' : Runner}

/-- A report is read by looking at its items, or it has none. -/
theorem findings_cases (report : treeOf path r = (.ok (f, root), r'))
    (item : ∃ x, valueOn (itemAt f root) m.item = .ok x) :
    (∃ s, findings path m r = findingsOf f m (itemsOf f root m.item) s) ∨
      itemsOf f root m.item = [] ∧ ∃ r'', findings path m r = (.ok [], r'') := by
  obtain ⟨x, value⟩ := item
  rw [itemsOf, value]
  cases x with
  | nodes set => exact .inl (findings_of_items report value)
  | _ =>
    refine .inr ⟨rfl, ?_⟩
    rw [findings, Work.bind_ok report]
    obtain ⟨s, first⟩ := Work.gives_liftM value r'
    exact ⟨_, (Work.bind_ok first).trans (Work.bind_ok rfl)⟩

variable (accepted : ofSetting (.mapping entries) = .ok m) (report : treeOf path r = (.ok (f, root), r'))
  (item : ∃ x, valueOn (itemAt f root) m.item = .ok x) (values : HasValues entries f (itemsOf f root m.item))

include accepted report item values

/-- A report is read to its end if there is a message, or if there is nothing to say. -/
theorem exists_findings_of_description
    (either : (∃ source, GivesText entries .message source) ∨ AllIgnored f m.levels (itemsOf f root m.item)) :
    ∃ found r'', findings path m r = (.ok found, r'') := by
  have describes := describes_of_ofSetting accepted
  rcases findings_cases report item with ⟨s, same⟩ | ⟨-, r'', result⟩
  · have shown : ∀ n ∈ itemsOf f root m.item, (levelFor (itemAt f n) m.levels != .ignored) = true →
        ∃ a, (findingOf (itemAt f n) m).Gives (some a) ∧ True := by
      intro n met shown
      rw [bne_iff_ne] at shown
      rcases either with ⟨source, given⟩ | all
      · rcases describes.message with ⟨other, given', message⟩ | ⟨null, -⟩ | ⟨leftOut, -⟩
        · cases here : levelFor (itemAt f n) m.levels with
          | ignored => exact absurd here shown
          | shown severity =>
            obtain ⟨a, gives⟩ := values.exists_gives_findingOf describes met here given' message
            exact ⟨a, gives, trivial⟩
        · exact absurd (given.symm.trans null) (by simp)
        · exact absurd (given.symm.trans leftOut) (by simp)
      · exact absurd (all n met) shown
    have ignored : ∀ n ∈ itemsOf f root m.item, (levelFor (itemAt f n) m.levels != .ignored) = false →
        (findingOf (itemAt f n) m).Gives none :=
      fun n met here => values.gives_findingOf_ignored describes met (bne_eq_false_iff_eq.mp here)
    obtain ⟨found, gives, -⟩ := exists_gives_findingsOf shown ignored
    obtain ⟨r'', result⟩ := gives s
    exact ⟨found, r'', same.trans result⟩
  · exact ⟨[], r'', result⟩

/-- Without a message it ends with an error at the first item that is shown. -/
theorem exists_error_of_description (missing : ¬ ∃ source, GivesText entries .message source)
    (some : ¬ AllIgnored f m.levels (itemsOf f root m.item)) :
    ∃ e r'', MissingMessage entries e ∧ findings path m r = (.error e, r'') := by
  have describes := describes_of_ofSetting accepted
  rcases findings_cases report item with ⟨s, same⟩ | ⟨none, -⟩
  · obtain ⟨e, why, fails⟩ := values.exists_fails_findingOf describes missing
    have shown : ∀ n ∈ itemsOf f root m.item, (levelFor (itemAt f n) m.levels != .ignored) = true →
        (findingOf (itemAt f n) m).Fails e := fun n met here => fails n met (bne_iff_ne.mp here)
    have ignored : ∀ n ∈ itemsOf f root m.item, (levelFor (itemAt f n) m.levels != .ignored) = false →
        (findingOf (itemAt f n) m).Gives Option.none :=
      fun n met here => values.gives_findingOf_ignored describes met (bne_eq_false_iff_eq.mp here)
    have first : ∃ n ∈ itemsOf f root m.item, (levelFor (itemAt f n) m.levels != .ignored) = true := by
      unfold AllIgnored at some
      push Not at some
      obtain ⟨n, met, here⟩ := some
      exact ⟨n, met, bne_iff_ne.mpr here⟩
    obtain ⟨r'', result⟩ := fails_findingsOf shown ignored first s
    exact ⟨e, r'', why, same.trans result⟩
  · refine absurd (fun n met => ?_) some
    rw [none] at met
    exact absurd met List.not_mem_nil

end Reports

/-! ### Descriptions for the test cases of a report -/

/-- A description of test cases that gives nothing else but a message, or says that there is none. -/
def testCasesWith (message : Setting) : List (String × Setting) :=
  [("item", .text "//testcase"), ("message", message), ("title", .null)]

theorem hasValues_testCasesWith {message : Setting} {f : Forest} {nodes : List Node}
    (given : ∀ n ∈ nodes, ∀ source, message = .text source → ∃ x, valueOn (itemAt f n) source = .ok x) :
    HasValues (testCasesWith message) f nodes where
  condition := by
    rintro n - source ⟨levels, name, there, -⟩
    cases there
  message := fun n met source there => given n met source (Option.some.inj there)
  property := by
    intro n _ p source there _
    cases p with
    | _ => cases there

theorem itemsOf_testCases {f : Forest} {root : Node} (report : f.IsReport root) :
    itemsOf f root "//testcase" = f.elementsNamed root "testcase" := by
  obtain ⟨set, value, listed⟩ := exists_valueOn_testCases report
  rw [itemsOf, value]
  exact listed

theorem valueOn_testCases_suite : ∃ x, valueOn (itemAt suiteTree.1 suiteTree.2) "//testcase" = .ok x := by
  obtain ⟨set, value, -⟩ := exists_valueOn_testCases (Forest.isReport_of_treeOf treeOf_suite)
  exact ⟨_, value⟩

end XPathAnnotator.Report
