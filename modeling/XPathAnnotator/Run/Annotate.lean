/-
**A run.**

A run loads its settings, finds the reports that they name, takes the findings from them, shows the
gravest ones and sets how many there are as outputs. Each of the first three is a group of lines; an
error ends the run with a line of its own. `emit` shows the first findings up to a limit, where a
limit below zero leaves out so many at the end, and counts those that it has shown.
-/

import XPathAnnotator.Path.Glob
import XPathAnnotator.Report.Extract
import XPathAnnotator.Report.Finding
import XPathAnnotator.Settings.Basic
import XPathAnnotator.Workflow.Runner

namespace XPathAnnotator

open XPathAnnotator.Data XPathAnnotator.Report XPathAnnotator.Workflow

/-! ### Showing findings -/

/-- How many findings of each severity have been shown. -/
structure Tally where
  errors : Nat := 0
  warnings : Nat := 0
  notices : Nat := 0
deriving DecidableEq

namespace Tally

/-- How many findings have been shown. -/
def total (t : Tally) : Nat := t.errors + t.warnings + t.notices

/-- Counts one more finding. -/
def count (t : Tally) : Severity → Tally
  | .error => { t with errors := t.errors + 1 }
  | .warning => { t with warnings := t.warnings + 1 }
  | .notice => { t with notices := t.notices + 1 }

/-- The tally of findings. -/
def ofList (findings : List Finding) : Tally :=
  findings.foldl (fun t a => t.count a.severity) {}

/-- The numbers of a tally by their names. -/
def entries (t : Tally) : List (String × Setting) :=
  [("errors", .integer t.errors), ("warnings", .integer t.warnings),
    ("notices", .integer t.notices), ("total", .integer t.total)]

end Tally

/-- The first items of a list up to a limit, or all but so many at its end. -/
def firstUpTo {α : Type} (limit : Int) (items : List α) : List α :=
  match limit with
  | .ofNat n => items.take n
  | .negSucc n => items.take (items.length - (n + 1))

/-- Shows findings up to a limit. -/
def emit {ε : Type} (findings : List Finding) (limit : Int) : Work ε Tally := do
  let shown := firstUpTo limit findings
  shown.forM fun a => Work.issue a.command
  if limit < findings.length then
    Work.warn ("Maximum number of annotations reached (" ++ toString limit ++ "). " ++
      toString (findings.length - limit) ++ " annotations were not shown.")
  return Tally.ofList shown

/-! ### Runs -/

/-- Why a run fails. -/
inductive RunError where
  | settings (error : SettingsError)
  /-- The text does not say which reports to look for. -/
  | notReports (text : String)
  | matcher (error : MatcherError)
  | report (error : ReportError)
  | file (error : FileError)

/-- The wording of an error of a run. -/
def RunError.message : RunError → String
  | settings e => e.message
  | notReports text =>
    "Invalid report " ++ Text.quoted text ++ ", the format is 'matcher|pattern[,pattern...]'"
  | matcher e => e.message
  | report e => e.message
  | file e => e.message

/-- Reports to look for: the name of their matcher, and patterns for their paths. -/
structure Search where
  matcher : String
  patterns : List String
deriving DecidableEq

/-- The search that a text is written for: a name, a bar, and patterns between commas. -/
def Search.ofText (text : String) : Except RunError Search :=
  match Text.cutAt? '|' text with
  | none => .error (.notReports text)
  | some (name, patterns) =>
    let name := Text.trimSpaces name
    if name = "" then .error (.notReports text)
    else .ok ⟨name, ((Text.pieces ',' patterns).map Text.trimSpaces).filter (· != "")⟩

/-- The paths of reports by the names of their matchers, in the order of discovery. -/
abbrev Reports := List (String × List String)

/-- Adds the paths of reports that are not there yet. -/
def Reports.add (reports : Reports) (name : String) (paths : List String) : Reports :=
  Datum.put name ((reports.lookup name).getD [] ++ paths).eraseDups reports

/-- Finds the reports of a search. -/
def findReports (ignored : List String) (reports : Reports) (search : Search) :
    Work RunError Reports :=
  Work.grouped ("Finding " ++ search.matcher ++ " reports") do
    let paths := Path.findFiles (← get).workspace search.patterns ignored
    if paths.isEmpty then
      Work.warn ("No reports found for " ++ search.matcher ++ " using patterns " ++
        String.intercalate "," search.patterns)
      return reports
    else
      Work.info ("Found " ++ toString paths.length ++ " report(s) for " ++ search.matcher)
      return reports.add search.matcher paths

/-- Finds the reports of all searches. -/
def findAll (ignored : List String) (reports : Reports) : List String → Work RunError Reports
  | [] => return reports
  | text :: rest => do
    let search ← liftM (Search.ofText text)
    findAll ignored (← findReports ignored reports search) rest

/-- Takes the findings from the reports at some paths. -/
def readReports (name : String) (m : Matcher) : List String → Work RunError (List Finding)
  | [] => return []
  | path :: rest => do
    Work.debug ("Parsing " ++ path)
    if m.format ≠ some "xml" then throw (.matcher (.unsupportedFormat name m.format))
    let found ← (findings path m).mapError .report
    return found ++ (← readReports name m rest)

/-- Takes the findings from all reports, after those that are known already. -/
def readAll (matchers : List (String × Matcher)) (known : List Finding) :
    Reports → Work RunError (List Finding)
  | [] => return known
  | (name, paths) :: rest =>
    match matchers.lookup name with
    | none => throw (.matcher (.unknownMatcher name))
    | some m => do
      let known ← Work.grouped ("Parsing " ++ name ++ " reports") do
        let known := known ++ (← readReports name m paths)
        Work.info ("Parsed " ++ toString known.length ++ " annotation(s) from " ++
          toString paths.length ++ " report(s)")
        return known
      readAll matchers known rest

/-- The findings of the reports that settings name, the gravest first. -/
def collect (settings : Settings) : Work RunError (List Finding) := do
  let matchers ← liftM ((Matcher.table settings.customMatchers).mapError RunError.matcher)
  let reports ← findAll settings.ignored [] settings.reports
  return Finding.bySeverity (← readAll matchers [] reports)

/-- Sets outputs. -/
def setOutputs : List (String × Setting) → Work RunError Unit
  | [] => return
  | (name, value) :: rest => do
    set (← liftM (((← get).setOutput name value).mapError RunError.file))
    setOutputs rest

/-- A run up to its first error. -/
def attempt (overrides : Settings.Overrides) : Work RunError Tally := do
  let settings ← Work.grouped "Configuration" ((Settings.load overrides).mapError .settings)
  let findings ← collect settings
  let tally ← emit findings settings.maxAnnotations
  setOutputs tally.entries
  return tally

/-- A run. An error is shown at its end. -/
def annotate (overrides : Settings.Overrides) : Work RunError Tally := fun r =>
  match attempt overrides r with
  | (.ok tally, r) => (.ok tally, r)
  | (.error e, r) => (.error e, r.issue ⟨"error", [], e.message⟩)

end XPathAnnotator
