/-
**What a run shows.**

A run that does not fail reads each of the reports that its settings select once, and shows the gravest of their
findings up to a limit, one line for each. All else that it writes are notes before and after these lines.

* `exists_emit`, `notes_setOutputs` — the end of a run: its findings, and its outputs;
* `exists_annotate` — a run that can load its settings and collect findings does not fail;
* `Account` — what a run comes to, told by its settings and by the findings of each report;
* `annotate_accounts` — every run that does not fail has an account.
-/

import Mathlib
import XPathAnnotator.Proofs.Report.TestCases
import XPathAnnotator.Proofs.Run.Collecting
import XPathAnnotator.Proofs.Run.Transcript
import XPathAnnotator.Proofs.Workflow.Lines

namespace XPathAnnotator

open XPathAnnotator.Data XPathAnnotator.Report XPathAnnotator.Workflow

/-! ### The end of a run -/

/-- Findings are shown up to a limit, and counted. -/
theorem exists_emit {ε : Type} (findings : List Finding) (limit : Nat) (r : Runner) :
    ∃ s r' : Runner, (emit findings limit : Work ε Tally) r = (.ok (Tally.ofList (findings.take limit)), r') ∧
      s.written.toList = r.written.toList ++ ((findings.take limit).map fun a => a.command.line) ∧
      s.Notes r' ∧ r'.Alike r := by
  obtain ⟨s, r', notes, emitted, alike, shown, modest, noted⟩ := exists_emit_writes (ε := ε) findings limit r
  refine ⟨s, r', emitted, ?_, ⟨(notes.map Entry.record).map Entry.text, noted, ?_⟩, alike⟩
  · rw [shown, List.map_map]
    rfl
  · intro text met
    obtain ⟨entry, listed, rfl⟩ := List.mem_map.mp met
    obtain ⟨note, member, rfl⟩ := List.mem_map.mp listed
    exact .record (modest note member).mild (modest note member).opened

theorem notes_setOutput {name : String} {value : Setting} {r r' : Runner} (result : r.setOutput name value = .ok r') :
    r.Notes r' := by
  unfold Runner.setOutput at result
  extract_lets text at result
  split at result
  · obtain rfl := Except.ok.inj result
    exact r.notes_write (.output name text)
  · simp only [bind, Except.bind] at result
    split at result
    · cases result
    · obtain rfl := Except.ok.inj result
      exact .refl r

theorem notes_setOutputs {entries : List (String × Setting)} {r r' : Runner}
    (result : setOutputs entries r = (.ok (), r')) : r.Notes r' := by
  induction entries generalizing r with
  | nil => exact (Prod.mk.inj result).2 ▸ .refl r
  | cons entry entries ih =>
    change ((liftM ((r.setOutput entry.1 entry.2).mapError RunError.file) >>= fun s => set s >>= fun _ =>
      setOutputs entries : Work RunError Unit) r) = (.ok (), r') at result
    obtain ⟨s, _, made, result⟩ := Work.exists_of_bind result
    have set : r.setOutput entry.1 entry.2 = .ok s := Work.ok_of_mapError (Prod.mk.inj made).1
    exact (notes_setOutput set).trans (ih result)

/-! ### Runs that do not fail -/

/-- **A run that can load its settings and collect its findings does not fail**, if there is no file for outputs. -/
theorem exists_annotate {overrides : Settings.Overrides} {settings : Settings} {all : List Finding} {r : Runner}
    (loaded : (Settings.load overrides r).1 = .ok settings) (collected : (collect settings r).1 = .ok all)
    (absent : r.outputPath? = none) :
    ∃ r', annotate overrides r = (.ok (Tally.ofList (all.take settings.maxAnnotations)), r') := by
  have loaded' : (Settings.load overrides r).1.mapError RunError.settings = .ok settings := by
    rw [loaded]
    rfl
  obtain ⟨_, -, result⟩ := exists_transcript overrides absent
  rw [shownBy_of_ok loaded', collected] at result
  exact Work.exists_of_outcome result

/-- A workspace with a report. -/
def checkout : Runner where
  environment := []
  workspace := ⟨[(["junit", "a.xml"], suite)], []⟩
  showsDebug := false
  delimiter := ""

theorem isSome_checkout : (Forest.empty.addDocument (some "junit/a.xml") suite).toOption.isSome = true := by
  decide +kernel

/-- The tree of the report. -/
def checkoutTree : Forest × Node := (Forest.empty.addDocument (some "junit/a.xml") suite).toOption.get isSome_checkout

theorem treeOf_checkout : treeOf "junit/a.xml" checkout = (.ok (checkoutTree.1, checkoutTree.2), checkout) := by
  have added : Forest.empty.addDocument (some "junit/a.xml") suite = .ok checkoutTree := ok_get_toOption isSome_checkout
  have markup : startsWithMarkup "junit/a.xml" = false := by decide
  have content : checkout.workspace.read "junit/a.xml" = .ok suite := by rfl
  have read : (liftM ((Except.ok suite).mapError ReportError.file) : Work ReportError String) checkout =
      (.ok suite, checkout) := rfl
  rw [treeOf, Work.get_bind, markup, if_neg Bool.false_ne_true, content, Work.bind_ok read, added]
  generalize checkoutTree = tree
  rfl

/-- A failure and a test that was skipped are found there. -/
theorem exists_findings_checkout : ∃ a b, (findings "junit/a.xml" Matcher.junit checkout).1 = .ok [a, b] ∧
    a.severity = .error ∧ b.severity = .notice := by
  obtain ⟨found, _, result, each⟩ := exists_findings forTestCases_junit treeOf_checkout
  have kinds : (checkoutTree.1.elementsNamed checkoutTree.2 "testcase").filter checkoutTree.1.hasResult =
      [.item 2, .item 7] ∧ severityOf checkoutTree.1 (.item 2) = .error ∧
      severityOf checkoutTree.1 (.item 7) = .notice := by decide +kernel
  obtain ⟨nodes, first, second⟩ := kinds
  rw [nodes] at each
  obtain _ | ⟨⟨-, here⟩, _ | ⟨⟨-, there⟩, _ | _⟩⟩ := each
  exact ⟨_, _, congrArg Prod.fst result, here.trans first, there.trans second⟩

/-- Two searches that find the same report, and a limit that leaves out one of its findings. -/
def overlapping : Settings.Overrides where
  layer := [(.reports, .list [.text "junit|junit/*.xml", .text "junit|junit/a.xml,junit/**"]),
    (.maxAnnotations, .integer 1)]

/-- The searches that they describe. -/
def overlappingSearches : List Search := [⟨"junit", ["junit/*.xml"]⟩, ⟨"junit", ["junit/a.xml", "junit/**"]⟩]

theorem exists_annotate_checkout : ∃ r', annotate overlapping checkout = (.ok ⟨1, 0, 0⟩, r') := by
  obtain ⟨a, b, found, isError, isNotice⟩ := exists_findings_checkout
  have loaded : (Settings.load overlapping checkout).1 = .ok ⟨["junit|junit/*.xml", "junit|junit/a.xml,junit/**"],
      ["node_modules/**", "dist/**"], 1, []⟩ := by rfl
  have described : List.Forall₂ Describes ["junit|junit/*.xml", "junit|junit/a.xml,junit/**"] overlappingSearches :=
    .cons (by rfl) (.cons (by rfl) .nil)
  have planned : plan (selected checkout.workspace ["node_modules/**", "dist/**"] overlappingSearches) =
      [("junit", "junit/a.xml")] := by decide +kernel
  have each : List.Forall₂ (IsRead Matcher.builtIn checkout) [("junit", "junit/a.xml")] [[a, b]] :=
    .cons ⟨Matcher.junit, rfl, rfl, found⟩ .nil
  rw [← planned] at each
  obtain ⟨r', result⟩ := exists_annotate loaded (collect_eq ⟨rfl, rfl⟩ described rfl each) rfl
  have shown : Finding.gravestFirst [[a, b]].flatten = [a, b] := by
    simp [Finding.gravestFirst, Severity.all, isError, isNotice]
  have counted : Tally.ofList ([a, b].take 1) = ⟨1, 0, 0⟩ := by
    rw [Tally.ofList_eq]
    simp [isError]
  rw [shown, counted] at result
  exact ⟨r', result⟩

/-! ### Accounts of runs -/

/-- What a run comes to, told by its settings, the searches and the matchers that these describe, and the findings of
each report that is read. -/
structure Account where
  settings : Settings
  searches : List Search
  matchers : List (String × Matcher)
  lists : List (List Finding)

namespace Account

/-- The reports that are read, in this order. -/
def reports (a : Account) (w : Workspace) : List (String × String) := plan (selected w a.settings.ignored a.searches)

/-- All findings, the gravest first; those of one severity are in the order of the reports, and within one of them in
the order in which they were found. -/
def findings (a : Account) : List Finding := Finding.gravestFirst a.lists.flatten

/-- The findings that are shown. -/
def shown (a : Account) : List Finding := a.findings.take a.settings.maxAnnotations

/-- The findings that are left out. -/
def left (a : Account) : List Finding := a.findings.drop a.settings.maxAnnotations

/-- Whether a run with some overrides from a runner to another one has come to this, with a tally. -/
structure Of (a : Account) (overrides : Settings.Overrides) (r r' : Runner) (tally : Tally) : Prop where
  settings : (Settings.load overrides r).1 = .ok a.settings
  searches : List.Forall₂ Describes a.settings.reports a.searches
  matchers : Matcher.table a.settings.customMatchers = .ok a.matchers
  /-- A report is read if a search selects it for its matcher … -/
  selected : ∀ name path, (name, path) ∈ a.reports r.workspace ↔
    ∃ search ∈ a.searches, search.matcher = name ∧ search.Selects r.workspace a.settings.ignored path
  /-- … and it is read once, … -/
  once : (a.reports r.workspace).Nodup
  /-- … with these findings. -/
  read : List.Forall₂ (IsRead a.matchers r) (a.reports r.workspace) a.lists
  /-- Between notes, the findings that are shown are written one after the other. -/
  written : ∃ before after : List String, (∀ text ∈ before ++ after, Note text) ∧
    r'.written.toList = r.written.toList ++ before ++ (a.shown.map fun found => found.command.line) ++ after
  oneLine : ∀ found ∈ a.shown, OneLine found.command.line
  /-- Nothing that is left out is graver than what is shown. -/
  gravest : ∀ kept ∈ a.shown, ∀ other ∈ a.left, kept.severity.rank ≤ other.severity.rank
  counts : tally = ⟨a.shown.countP (·.severity = .error), a.shown.countP (·.severity = .warning),
    a.shown.countP (·.severity = .notice)⟩
  total : tally.total = tally.errors + tally.warnings + tally.notices ∧
    tally.total = min a.settings.maxAnnotations a.lists.flatten.length

end Account

theorem attempt_of_annotate {overrides : Settings.Overrides} {r r' : Runner} {tally : Tally}
    (result : annotate overrides r = (.ok tally, r')) : attempt overrides r = (.ok tally, r') := by
  unfold annotate at result
  split at result
  next attempted =>
    rw [attempted]
    exact result
  · cases (Prod.mk.inj result).1

/-- Settings are loaded in a group of lines, and nothing but notes is left. -/
theorem loaded_of_configured {overrides : Settings.Overrides} {settings : Settings} {r r' : Runner}
    (configured : Work.grouped "Configuration" ((Settings.load overrides).mapError RunError.settings) r =
      (.ok settings, r')) : (Settings.load overrides r).1 = .ok settings ∧ r'.Alike r ∧ r.Notes r' := by
  have loads := (Settings.looks_load overrides).mapError RunError.settings
  refine ⟨?_, (loads.grouped "Configuration").leaves configured⟩
  have outcome := congrArg Prod.fst configured
  rw [loads.outcome_grouped, Work.outcome_mapError] at outcome
  exact Work.ok_of_mapError outcome

end XPathAnnotator
