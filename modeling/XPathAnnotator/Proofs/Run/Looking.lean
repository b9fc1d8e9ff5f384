/-
**Most of a run only looks.**

A run loads its settings, finds reports and reads them without changing a variable or a file, and it writes nothing but
notes on the way. So each report is read as it was when the run began.

* `quiet_load` — the settings; `quiet_findings` — one report; `sectioned_findAll`, `sectioned_readAll` — all reports;
* `sectioned_collect` — the findings of a run.
-/

import Mathlib
import XPathAnnotator.Proofs.Workflow.Sections
import XPathAnnotator.Run.Annotate

namespace XPathAnnotator

open XPathAnnotator.Data XPathAnnotator.Report XPathAnnotator.Workflow

/-! ### Settings -/

namespace Settings

theorem quiet_enterAll (path : String) (layer : Layer) (entries : List (String × Setting)) :
    (enterAll path layer entries).Quiet := by
  induction entries generalizing layer with
  | nil => exact Work.Quiet.pure layer
  | cons entry entries ih =>
    rw [enterAll]
    split
    · exact ih _
    · exact (Work.Quiet.warn ((((begins_self (by decide)).append _).append _).append _)).bind fun _ => ih _

theorem quiet_fileLayer (path : String) : (fileLayer path).Quiet := by
  refine Work.Quiet.get (fun r => ?_) fun alike => by rw [alike.2]
  split
  · exact (Work.Quiet.info (((begins_self (by decide)).append _).append _)).bind fun _ => Work.Quiet.pure _
  · refine (Work.Quiet.info ((begins_self (by decide)).append _)).bind fun _ => ?_
    split
    · exact Work.Quiet.throw _
    · exact Work.Quiet.throw _
    · exact Work.Quiet.pure _
    · exact quiet_enterAll _ _ _
    · exact Work.Quiet.throw _

theorem quiet_load (overrides : Overrides) : (load overrides).Quiet := by
  refine Work.Quiet.get (fun r => ?_) fun alike => by rw [alike.1]
  refine (Work.Quiet.liftM _).bind fun inputs => ?_
  refine (Work.Quiet.debug ((begins_self (by decide)).append _)).bind fun _ => ?_
  refine (quiet_fileLayer _).bind fun file => ?_
  refine (Work.Quiet.debug ((begins_self (by decide)).append _)).bind fun _ => ?_
  refine (Work.Quiet.liftM _).bind fun settings => ?_
  exact (Work.Quiet.debug ((begins_self (by decide)).append _)).bind fun _ => Work.Quiet.pure settings

end Settings

/-! ### Reports -/

namespace Report

theorem quiet_levelOf (item : ReportItem) (levels : List (ItemLevel × String)) : (levelOf item levels).Quiet := by
  induction levels with
  | nil => exact Work.Quiet.pure _
  | cons entry levels ih =>
    obtain ⟨level, condition⟩ := entry
    refine (Work.Quiet.liftM _).bind fun value => ?_
    refine (Work.Quiet.debug ((((((begins_self (by decide)).append _).append _).append _).append _).append _)).bind
      fun _ => ?_
    split
    · exact Work.Quiet.pure level
    · exact ih

theorem quiet_findingOf (item : ReportItem) (m : Matcher) : (findingOf item m).Quiet := by
  refine (quiet_levelOf item m.levels).bind fun level => ?_
  split
  · exact (Work.Quiet.debug (begins_self (by decide))).bind fun _ => Work.Quiet.pure none
  · split
    · exact Work.Quiet.throw _
    · exact (Work.Quiet.liftM _).bind fun _ => (Work.Quiet.liftM _).bind fun _ => Work.Quiet.pure _

theorem quiet_findingsOf (f : Forest) (m : Matcher) (nodes : List Node) : (findingsOf f m nodes).Quiet := by
  induction nodes with
  | nil => exact Work.Quiet.pure []
  | cons n nodes ih =>
    refine (Work.Quiet.debug (((begins_self (by decide)).append _).append _)).bind fun _ => ?_
    exact (quiet_findingOf _ m).bind fun _ => ih.bind fun _ => Work.Quiet.pure _

theorem quiet_treeOf (path : String) : (treeOf path).Quiet := by
  refine Work.Quiet.get (fun r => ?_) fun alike => by rw [alike.2]
  split
  · exact Work.Quiet.liftM _
  · exact (Work.Quiet.liftM _).bind fun _ => Work.Quiet.liftM _

/-- **A report is read** quietly. -/
theorem quiet_findings (path : String) (m : Matcher) : (findings path m).Quiet := by
  refine (quiet_treeOf path).bind fun ⟨f, root⟩ => ?_
  refine (Work.Quiet.liftM _).bind fun value => ?_
  split
  · refine (Work.Quiet.debug (((((begins_self (by decide)).append _).append _).append _).append _)).bind fun _ => ?_
    exact quiet_findingsOf f m _
  · exact (Work.Quiet.warn ((begins_self (by decide)).append _)).bind fun _ => Work.Quiet.pure []

end Report

/-! ### All reports -/

theorem sectioned_findReports (ignored : List String) (reports : Reports) (search : Search) :
    (findReports ignored reports search).Sectioned := by
  refine Work.Sectioned.grouped (Work.Quiet.get (fun r => ?_) fun alike => by rw [alike.2]) _
  extract_lets paths
  split
  · refine (Work.Quiet.warn ((((begins_self (by decide)).append _).append _).append _)).bind fun _ => ?_
    exact Work.Quiet.pure reports
  · refine (Work.Quiet.info ((((begins_self (by decide)).append _).append _).append _)).bind fun _ => ?_
    exact Work.Quiet.pure _

theorem sectioned_findAll (ignored : List String) (reports : Reports) (texts : List String) :
    (findAll ignored reports texts).Sectioned := by
  induction texts generalizing reports with
  | nil => exact Work.Sectioned.pure reports
  | cons text texts ih =>
    exact (Work.Sectioned.liftM _).bind fun search => (sectioned_findReports ignored reports search).bind fun _ => ih _

theorem quiet_readReports (name : String) (m : Matcher) (paths : List String) : (readReports name m paths).Quiet := by
  induction paths with
  | nil => exact Work.Quiet.pure []
  | cons path paths ih =>
    refine (Work.Quiet.debug ((begins_self (by decide)).append _)).bind fun _ => ?_
    have reading := ((quiet_findings path m).mapError RunError.report).bind fun found =>
      ih.bind fun rest => Work.Quiet.pure (found ++ rest)
    split
    · exact (Work.Quiet.throw _).bind fun _ => reading
    · exact reading

theorem sectioned_readGroup (name : String) (m : Matcher) (known : List Finding) (paths : List String) :
    (Work.grouped ("Parsing " ++ name ++ " reports") do
      let known := known ++ (← readReports name m paths)
      Work.info ("Parsed " ++ toString known.length ++ " annotation(s) from " ++ toString paths.length ++ " report(s)")
      return known).Sectioned := by
  refine Work.Sectioned.grouped ((quiet_readReports name m paths).bind fun found => ?_) _
  refine (Work.Quiet.info (((((begins_self (by decide)).append _).append _).append _).append _)).bind fun _ => ?_
  exact Work.Quiet.pure (known ++ found)

theorem sectioned_readAll (matchers : List (String × Matcher)) (known : List Finding) (reports : Reports) :
    (readAll matchers known reports).Sectioned := by
  induction reports generalizing known with
  | nil => exact Work.Sectioned.pure known
  | cons entry reports ih =>
    obtain ⟨name, paths⟩ := entry
    rw [readAll]
    split
    · exact Work.Sectioned.throw _
    next m _ => exact (sectioned_readGroup name m known paths).bind fun _ => ih _

/-- **The findings of a run are collected** in sections. -/
theorem sectioned_collect (settings : Settings) : (collect settings).Sectioned :=
  (Work.Sectioned.liftM _).bind fun matchers =>
    (sectioned_findAll settings.ignored [] settings.reports).bind fun reports =>
      (sectioned_readAll matchers [] reports).bind fun _ => Work.Sectioned.pure _

/-! ### Looking -/

theorem Settings.looks_load (overrides : Overrides) : (load overrides).Looks := (quiet_load overrides).looks

/-- **A report is read** without leaving anything but notes. -/
theorem Report.looks_findings (path : String) (m : Matcher) : (findings path m).Looks := (quiet_findings path m).looks

theorem looks_findReports (ignored : List String) (reports : Reports) (search : Search) :
    (findReports ignored reports search).Looks := (sectioned_findReports ignored reports search).looks

theorem looks_findAll (ignored : List String) (reports : Reports) (texts : List String) :
    (findAll ignored reports texts).Looks := (sectioned_findAll ignored reports texts).looks

theorem looks_readReports (name : String) (m : Matcher) (paths : List String) : (readReports name m paths).Looks :=
  (quiet_readReports name m paths).looks

theorem looks_readGroup (name : String) (m : Matcher) (known : List Finding) (paths : List String) :
    (Work.grouped ("Parsing " ++ name ++ " reports") do
      let known := known ++ (← readReports name m paths)
      Work.info ("Parsed " ++ toString known.length ++ " annotation(s) from " ++ toString paths.length ++ " report(s)")
      return known).Looks := (sectioned_readGroup name m known paths).looks

theorem looks_readAll (matchers : List (String × Matcher)) (known : List Finding) (reports : Reports) :
    (readAll matchers known reports).Looks := (sectioned_readAll matchers known reports).looks

/-- **The findings of a run are collected** without leaving anything but notes. -/
theorem looks_collect (settings : Settings) : (collect settings).Looks := (sectioned_collect settings).looks

end XPathAnnotator
