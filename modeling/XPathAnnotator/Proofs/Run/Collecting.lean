/-
**The reports of a run.**

Searches may have the same matcher, and their patterns may find the same files. So the reports that they select, in the
order of discovery, are put together by their matchers, and each report is read once.

* `selected` — what searches select; `plan` — the reports in the order in which they are read, each once;
* `mem_selected`, `mem_plan`, `nodup_plan` — a plan has no repetitions and forgets nothing;
* `Reports.add_ofSelected` — adding what another search has found keeps to the plan;
* `exists_of_findAll`, `exists_of_readAll`, `exists_of_collect` — what a run has found, read and collected;
* `findAll_eq`, `readAll_eq`, `collect_eq` — what it finds, reads and collects if nothing fails.
-/

import Mathlib
import XPathAnnotator.Proofs.Data.Lookups
import XPathAnnotator.Proofs.Report.Severities
import XPathAnnotator.Proofs.Run.Looking

namespace XPathAnnotator

open XPathAnnotator.Data XPathAnnotator.Report XPathAnnotator.Workflow

/-! ### Plans -/

/-- The reports that searches select in the order of discovery, each as the name of its matcher and its path. -/
def selected (w : Workspace) (ignored : List String) (searches : List Search) : List (String × String) :=
  searches.flatMap fun search => (Path.findFiles w search.patterns ignored).map fun path => (search.matcher, path)

/-- The paths that are selected for a matcher, in the order of their first discovery. -/
def pathsFor (pairs : List (String × String)) (name : String) : List String :=
  ((pairs.filter fun pair => pair.1 = name).map Prod.snd).eraseDups

/-- The order in which reports are read: those of one matcher after those of another one, the matchers in the order in
which reports were first found for them, and the reports of each in the order of their first discovery. -/
def plan (pairs : List (String × String)) : List (String × String) :=
  (pairs.map Prod.fst).eraseDups.flatMap fun name => (pathsFor pairs name).map fun path => (name, path)

/-- Whether a search selects the path of a report: the shortest form of a file that one of its patterns finds, unless
it is to be ignored. -/
def Search.Selects (search : Search) (w : Workspace) (ignored : List String) (path : String) : Prop :=
  ∃ pattern ∈ search.patterns, ∃ file ∈ Path.filesOf w pattern,
    Path.normalize file = path ∧ Path.isIgnored path ignored = false

theorem mem_findFiles {w : Workspace} {ignored : List String} {search : Search} {path : String} :
    path ∈ Path.findFiles w search.patterns ignored ↔ search.Selects w ignored path := by
  simp only [Path.findFiles, Search.Selects, List.mem_eraseDups, List.mem_filter, List.mem_map, List.mem_flatMap,
    Bool.not_eq_true']
  constructor
  · rintro ⟨⟨file, ⟨pattern, met, found⟩, rfl⟩, kept⟩
    exact ⟨pattern, met, file, found, rfl, kept⟩
  · rintro ⟨pattern, met, file, found, rfl, kept⟩
    exact ⟨⟨file, ⟨pattern, met, found⟩, rfl⟩, kept⟩

theorem mem_selected {w : Workspace} {ignored : List String} {searches : List Search} {name path : String} :
    (name, path) ∈ selected w ignored searches ↔
      ∃ search ∈ searches, search.matcher = name ∧ search.Selects w ignored path := by
  simp only [selected, List.mem_flatMap, List.mem_map, Prod.mk.injEq, mem_findFiles]
  constructor
  · rintro ⟨search, met, _, found, same, rfl⟩
    exact ⟨search, met, same, found⟩
  · rintro ⟨search, met, same, found⟩
    exact ⟨search, met, path, found, same, rfl⟩

/-- Another search selects its reports before those of the rest. -/
theorem selected_cons (w : Workspace) (ignored : List String) (search : Search) (searches : List Search) :
    selected w ignored (search :: searches) = selected w ignored [search] ++ selected w ignored searches := by
  rw [selected, selected, selected, List.flatMap_cons, List.flatMap_singleton]

variable {chosen : List (String × String)}

theorem mem_pathsFor {name path : String} : path ∈ pathsFor chosen name ↔ (name, path) ∈ chosen := by
  rw [pathsFor, List.mem_eraseDups, List.mem_map]
  constructor
  · rintro ⟨⟨first, second⟩, met, rfl⟩
    obtain ⟨met, same⟩ := List.mem_filter.mp met
    rw [← of_decide_eq_true same]
    exact met
  · intro met
    exact ⟨(name, path), List.mem_filter.mpr ⟨met, decide_eq_true rfl⟩, rfl⟩

/-- **A plan has the reports that are selected** … -/
theorem mem_plan {pair : String × String} : pair ∈ plan chosen ↔ pair ∈ chosen := by
  simp only [plan, List.mem_flatMap, List.mem_eraseDups, List.mem_map, mem_pathsFor]
  constructor
  · rintro ⟨name, -, path, met, rfl⟩
    exact met
  · intro met
    exact ⟨pair.1, ⟨pair, met, rfl⟩, pair.2, met, rfl⟩

/-- **… and each of them once.** -/
theorem nodup_plan : (plan chosen).Nodup := by
  refine List.nodup_flatMap.mpr ⟨fun name _ => ?_, ?_⟩
  · exact (nodup_eraseDups _).map fun a b same => (Prod.mk.inj same).2
  · refine (nodup_eraseDups _).imp fun {a b} apart pair metA metB => apart ?_
    obtain ⟨_, -, rfl⟩ := List.mem_map.mp metA
    obtain ⟨_, -, same⟩ := List.mem_map.mp metB
    exact (Prod.mk.inj same).1.symm

/-! ### Tables of reports -/

namespace Reports

/-- The paths of reports that are selected, by their matchers. -/
def ofSelected (chosen : List (String × String)) : Reports :=
  (chosen.map Prod.fst).eraseDups.map fun name => (name, pathsFor chosen name)

/-- The reports of a table. -/
def pairs (reports : Reports) : List (String × String) :=
  reports.flatMap fun entry => entry.2.map fun path => (entry.1, path)

theorem pairs_ofSelected (chosen : List (String × String)) : (ofSelected chosen).pairs = plan chosen :=
  List.flatMap_map _ _ _

theorem lookup_ofSelected (name : String) : ((ofSelected chosen).lookup name).getD [] = pathsFor chosen name := by
  rw [ofSelected, lookup_map_keys]
  split
  · rfl
  next absent =>
    rw [List.mem_eraseDups, List.mem_map] at absent
    refine (List.eq_nil_iff_forall_not_mem.mpr fun path met => absent ?_).symm
    exact ⟨(name, path), mem_pathsFor.mp met, rfl⟩

theorem filled_ofSelected : ∀ entry ∈ ofSelected chosen, entry.2 ≠ [] := by
  intro entry met
  obtain ⟨name, there, rfl⟩ := List.mem_map.mp met
  obtain ⟨⟨_, path⟩, chosen, rfl⟩ := List.mem_map.mp (List.mem_eraseDups.mp there)
  exact List.ne_nil_of_mem (mem_pathsFor.mpr chosen)

theorem pathsFor_append (name : String) (paths : List String) (other : String) :
    pathsFor (chosen ++ paths.map fun path => (name, path)) other =
      if other = name then (pathsFor chosen name ++ paths).eraseDups else pathsFor chosen other := by
  rw [pathsFor, List.filter_append, List.map_append]
  split
  next same =>
    subst same
    have all : ((paths.map fun path => (other, path)).filter fun pair => pair.1 = other) =
        paths.map fun path => (other, path) :=
      List.filter_eq_self.mpr fun pair met => by
        obtain ⟨path, -, rfl⟩ := List.mem_map.mp met
        exact decide_eq_true rfl
    rw [all, List.map_map, pathsFor, eraseDups_eraseDups_append]
    exact congrArg _ (congrArg _ (List.map_id _))
  next apart =>
    have none : ((paths.map fun path => (name, path)).filter fun pair => pair.1 = other) = [] :=
      List.filter_eq_nil_iff.mpr fun pair met => by
        obtain ⟨path, -, rfl⟩ := List.mem_map.mp met
        exact fun same => apart (of_decide_eq_true same).symm
    rw [none, List.map_nil, List.append_nil, pathsFor]

/-- **Adding the reports of another search** comes to selecting them after the others. -/
theorem add_ofSelected (name : String) {paths : List String} (nonempty : paths ≠ []) :
    (ofSelected chosen).add name paths = ofSelected (chosen ++ paths.map fun path => (name, path)) := by
  have names : ((chosen ++ paths.map fun path => (name, path)).map Prod.fst).eraseDups =
      if name ∈ (chosen.map Prod.fst).eraseDups then (chosen.map Prod.fst).eraseDups
      else (chosen.map Prod.fst).eraseDups ++ [name] := by
    simp only [List.map_append, List.map_map, List.mem_eraseDups]
    exact eraseDups_append_constant _ _ nonempty
  rw [add, lookup_ofSelected, ofSelected, put_map_keys (nodup_eraseDups _), ofSelected, names]
  refine List.map_congr_left fun other _ => ?_
  rw [pathsFor_append]

end Reports

/-! ### Finding reports -/

/-- What is found for a search. -/
theorem outcome_findReports (ignored : List String) (search : Search) (r : Runner) :
    (findReports ignored (.ofSelected chosen) search r).1 =
      .ok (.ofSelected (chosen ++ selected r.workspace ignored [search])) := by
  rw [selected, List.flatMap_singleton]
  change ((if (Path.findFiles r.workspace search.patterns ignored).isEmpty then
      Work.warn _ >>= fun _ => pure _ else Work.info _ >>= fun _ => pure _ : Work RunError Reports) (r.issue _)).1 = _
  split
  next none =>
    rw [List.isEmpty_iff.mp none, List.map_nil, List.append_nil]
    rfl
  next some =>
    rw [← Reports.add_ofSelected _ (mt List.isEmpty_iff.mpr some)]
    rfl

variable {r start : Runner}

/-- Whether a text describes a search. -/
def Describes (text : String) (search : Search) : Prop := Search.ofText text = .ok search

theorem exists_of_findAll (chosen : List (String × String)) {ignored texts : List String} {reports : Reports}
    (alike : r.Alike start) (result : (findAll ignored (.ofSelected chosen) texts r).1 = .ok reports) :
    ∃ searches, List.Forall₂ Describes texts searches ∧
      reports = .ofSelected (chosen ++ selected start.workspace ignored searches) := by
  induction texts generalizing chosen r with
  | nil =>
    refine ⟨[], .nil, ?_⟩
    rw [selected, List.flatMap_nil, List.append_nil]
    exact (Except.ok.inj result).symm
  | cons text texts ih =>
    obtain ⟨search, _, read, alike, result⟩ := (Work.looks_liftM _).exists_of_bind alike result
    obtain ⟨_, _, found, alike, result⟩ := (looks_findReports _ _ search).exists_of_bind alike result
    rw [outcome_findReports] at found
    obtain rfl := Except.ok.inj found
    obtain ⟨searches, others, rfl⟩ := ih _ alike result
    refine ⟨search :: searches, .cons read others, ?_⟩
    rw [List.append_assoc, ← selected_cons]

/-- **What is found for all searches** is what they select. -/
theorem findAll_eq (chosen : List (String × String)) {ignored texts : List String} {searches : List Search}
    (alike : r.Alike start) (described : List.Forall₂ Describes texts searches) :
    (findAll ignored (.ofSelected chosen) texts r).1 =
      .ok (.ofSelected (chosen ++ selected start.workspace ignored searches)) := by
  induction described generalizing chosen r with
  | nil =>
    rw [selected, List.flatMap_nil, List.append_nil]
    rfl
  | @cons _ search _ searches here others ih =>
    refine (Work.looks_liftM _).ok_bind alike here fun _ alike => ?_
    refine (looks_findReports _ _ search).ok_bind alike (outcome_findReports ignored search start) fun _ alike => ?_
    rw [ih _ alike, List.append_assoc, ← selected_cons]

/-! ### Reading reports -/

/-- Whether a matcher finds this in a report. -/
def Finds (m : Matcher) (r : Runner) (path : String) (found : List Finding) : Prop :=
  m.format = some "xml" ∧ (findings path m r).1 = .ok found

/-- Whether this is found in a report by the matcher of its name. -/
def IsRead (matchers : List (String × Matcher)) (r : Runner) (report : String × String) (found : List Finding) : Prop :=
  ∃ m, matchers.lookup report.1 = some m ∧ Finds m r report.2 found

variable {name : String} {m : Matcher} {matchers : List (String × Matcher)}

theorem exists_of_readReports {paths : List String} {all : List Finding} (alike : r.Alike start)
    (result : (readReports name m paths r).1 = .ok all) :
    ∃ lists, List.Forall₂ (Finds m start) paths lists ∧ all = lists.flatten := by
  induction paths generalizing all r with
  | nil => exact ⟨[], .nil, (Except.ok.inj result).symm⟩
  | cons path paths ih =>
    rw [readReports] at result
    obtain ⟨_, _, -, alike, result⟩ :=
      (Work.looks_debug ((begins_self (by decide)).append _)).exists_of_bind alike result
    by_cases xml : m.format = some "xml"
    · simp only [ne_eq, xml, not_true_eq_false, if_false] at result
      obtain ⟨found, _, first, alike, result⟩ := ((looks_findings path m).mapError _).exists_of_bind alike result
      obtain ⟨rest, _, others, -, result⟩ := (looks_readReports name m paths).exists_of_bind alike result
      obtain ⟨lists, each, rfl⟩ := ih ⟨rfl, rfl⟩ others
      exact ⟨found :: lists, .cons ⟨xml, Work.ok_of_mapError first⟩ each, (Except.ok.inj result).symm⟩
    · simp only [ne_eq, xml, not_false_eq_true, if_true] at result
      cases (show Except.error _ = Except.ok all from result)

theorem readReports_eq {paths : List String} {lists : List (List Finding)} (alike : r.Alike start)
    (each : List.Forall₂ (Finds m start) paths lists) : (readReports name m paths r).1 = .ok lists.flatten := by
  induction each generalizing r with
  | nil => rfl
  | @cons path found paths lists here others ih =>
    obtain ⟨xml, here⟩ := here
    rw [readReports]
    simp only [ne_eq, xml, not_true_eq_false, if_false]
    refine (Work.looks_debug ((begins_self (by decide)).append _)).ok_bind alike rfl fun _ alike => ?_
    refine ((looks_findings path m).mapError _).ok_bind alike (Work.mapError_ok RunError.report here) fun _ alike => ?_
    exact (looks_readReports name m paths).ok_bind alike (ih ⟨rfl, rfl⟩) fun _ _ => rfl

theorem exists_of_readAll {known all : List Finding} {reports : Reports} (alike : r.Alike start)
    (result : (readAll matchers known reports r).1 = .ok all) :
    ∃ lists, List.Forall₂ (IsRead matchers start) reports.pairs lists ∧ all = known ++ lists.flatten := by
  induction reports generalizing known r with
  | nil =>
    refine ⟨[], .nil, ?_⟩
    rw [List.flatten_nil, List.append_nil]
    exact (Except.ok.inj result).symm
  | cons entry reports ih =>
    obtain ⟨name, paths⟩ := entry
    cases named : matchers.lookup name with
    | none =>
      simp only [readAll, named] at result
      cases (show Except.error _ = Except.ok all from result)
    | some m =>
      simp only [readAll, named] at result
      obtain ⟨total, _, here, alike, result⟩ := (looks_readGroup name m known paths).exists_of_bind alike result
      obtain ⟨found, _, read, -, same⟩ := (looks_readReports name m paths).exists_of_bind (start.alike_issue _) here
      obtain rfl : known ++ found = total := Except.ok.inj same
      obtain ⟨lists, each, rfl⟩ := exists_of_readReports ⟨rfl, rfl⟩ read
      obtain ⟨others, each', rfl⟩ := ih alike result
      refine ⟨lists ++ others, List.rel_append ?_ each', by rw [List.flatten_append, List.append_assoc]⟩
      exact List.forall₂_map_left_iff.mpr (each.imp fun path found read => ⟨m, named, read⟩)

/-- Two lists of reports are read one after the other. -/
theorem exists_append_of_forall₂ {α β : Type} {related : α → β → Prop} {first second : List α} {others : List β}
    (each : List.Forall₂ related (first ++ second) others) :
    ∃ before after, others = before ++ after ∧ List.Forall₂ related first before ∧ List.Forall₂ related second after :=
  ⟨_, _, (List.take_append_drop first.length others).symm, (List.forall₂_take_append _ _ _ each.flip).flip,
    (List.forall₂_drop_append _ _ _ each.flip).flip⟩

/-- The reports of a name have one matcher. -/
theorem exists_finds {paths : List String} {lists : List (List Finding)} (filled : paths ≠ [])
    (each : List.Forall₂ (IsRead matchers r) (paths.map fun path => (name, path)) lists) :
    ∃ m, matchers.lookup name = some m ∧ List.Forall₂ (Finds m r) paths lists := by
  rw [List.forall₂_map_left_iff] at each
  cases each with
  | nil => exact absurd rfl filled
  | cons here others =>
    obtain ⟨m, named, finds⟩ := here
    refine ⟨m, named, .cons finds (others.imp fun path found read => ?_)⟩
    obtain ⟨_, named', finds⟩ := read
    obtain rfl := Option.some.inj (named.symm.trans named')
    exact finds

/-- **What is read from all reports**: the findings of each, one report after the other. -/
theorem readAll_eq {known : List Finding} {reports : Reports} {lists : List (List Finding)} (alike : r.Alike start)
    (filled : ∀ entry ∈ reports, entry.2 ≠ []) (each : List.Forall₂ (IsRead matchers start) reports.pairs lists) :
    (readAll matchers known reports r).1 = .ok (known ++ lists.flatten) := by
  induction reports generalizing known lists r with
  | nil =>
    cases each
    rw [List.flatten_nil, List.append_nil]
    rfl
  | cons entry reports ih =>
    obtain ⟨name, paths⟩ := entry
    obtain ⟨here, later⟩ := List.forall_mem_cons.mp filled
    obtain ⟨first, others, rfl, each, each'⟩ := exists_append_of_forall₂ each
    obtain ⟨m, named, each⟩ := exists_finds here each
    simp only [readAll, named]
    rw [List.flatten_append, ← List.append_assoc]
    refine (looks_readGroup name m known paths).ok_bind alike ?_ fun _ alike => ih alike later each'
    exact (looks_readReports name m paths).ok_bind (start.alike_issue _) (readReports_eq ⟨rfl, rfl⟩ each) fun _ _ => rfl

/-! ### Collecting findings -/

/-- **What a run collects**: the findings of the reports that its settings select, the gravest first. -/
theorem exists_of_collect {settings : Settings} {all : List Finding} (alike : r.Alike start)
    (result : (collect settings r).1 = .ok all) :
    ∃ searches matchers lists, List.Forall₂ Describes settings.reports searches ∧
      Matcher.table settings.customMatchers = .ok matchers ∧
      List.Forall₂ (IsRead matchers start) (plan (selected start.workspace settings.ignored searches)) lists ∧
      all = Finding.gravestFirst lists.flatten := by
  obtain ⟨matchers, _, table, alike, result⟩ := (Work.looks_liftM _).exists_of_bind alike result
  obtain ⟨reports, _, found, alike, result⟩ := (looks_findAll _ _ _).exists_of_bind alike result
  obtain ⟨known, _, read, -, result⟩ := (looks_readAll _ _ _).exists_of_bind alike result
  obtain ⟨searches, described, rfl⟩ := exists_of_findAll [] ⟨rfl, rfl⟩ found
  obtain ⟨lists, each, rfl⟩ := exists_of_readAll ⟨rfl, rfl⟩ read
  rw [List.nil_append, Reports.pairs_ofSelected] at each
  refine ⟨searches, matchers, lists, described, Work.ok_of_mapError table, each, ?_⟩
  rw [← Finding.bySeverity_eq]
  exact (Except.ok.inj result).symm

theorem collect_eq {settings : Settings} {searches : List Search} {lists : List (List Finding)}
    (alike : r.Alike start) (described : List.Forall₂ Describes settings.reports searches)
    (table : Matcher.table settings.customMatchers = .ok matchers)
    (each : List.Forall₂ (IsRead matchers start) (plan (selected start.workspace settings.ignored searches)) lists) :
    (collect settings r).1 = .ok (Finding.gravestFirst lists.flatten) := by
  rw [← Reports.pairs_ofSelected] at each
  refine (Work.looks_liftM _).ok_bind (a := matchers) alike ?_ fun _ alike => ?_
  · rw [table]
    rfl
  refine (looks_findAll _ _ _).ok_bind alike (findAll_eq [] ⟨rfl, rfl⟩ described) fun _ alike => ?_
  refine (looks_readAll _ _ _).ok_bind alike (readAll_eq ⟨rfl, rfl⟩ Reports.filled_ofSelected each) fun _ _ => ?_
  rw [← Finding.bySeverity_eq]
  rfl

end XPathAnnotator
