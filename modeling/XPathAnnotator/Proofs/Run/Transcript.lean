/-
**Every run writes a transcript.**

A run writes sections, for its settings, its searches and its reports, and what is left when these are done: its
findings and its outputs, or its error. A section is closed also where its piece of the run fails, and nothing is shown
or set before all pieces that can fail have ended. So a run that fails leaves closed sections and one line that tells
its error.

The stream of a run takes its commands. Its records are written by a handler, to the same stream or elsewhere:
`Transcript.entries` is what stands in a stream for both, `Transcript.commands` what stands in one for commands alone.

* `exists_emit_writes`, `exists_setOutputs` — findings that are shown, and outputs that are set;
* `shownBy` — what a run shows or why it fails, told by its pieces;
* `Transcript`, `Transcript.Of` — what a run writes;
* `exists_transcript`, `annotate_transcript` — every run without a file for outputs has a transcript.
-/

import Mathlib
import XPathAnnotator.Proofs.Run.Looking

namespace XPathAnnotator

open XPathAnnotator.Data XPathAnnotator.Report XPathAnnotator.Workflow

/-! ### Findings and outputs -/

theorem exists_forM_issue {ε : Type} (shown : List Finding) (r : Runner) :
    ∃ r', (shown.forM fun a => Work.issue a.command : Work ε PUnit) r = (.ok ⟨⟩, r') ∧ r'.Alike r ∧
      r.Writes r' (shown.map fun a => .command a.command) := by
  induction shown generalizing r with
  | nil => exact ⟨r, rfl, ⟨rfl, rfl⟩, .refl r⟩
  | cons a shown ih =>
    obtain ⟨r', result, alike, writes⟩ := ih (r.issue a.command)
    exact ⟨r', (Work.bind_ok rfl).trans result, alike.trans (r.alike_issue _), (Runner.Writes.issue r _).trans writes⟩

/-- Findings are shown up to a limit, and counted; a warning may follow. -/
theorem exists_emit_writes {ε : Type} (findings : List Finding) (limit : Nat) (r : Runner) :
    ∃ (s r' : Runner) (notes : List Record),
      (emit findings limit : Work ε Tally) r = (.ok (Tally.ofList (findings.take limit)), r') ∧ r'.Alike r ∧
      r.Writes s ((findings.take limit).map fun a => .command a.command) ∧
      (∀ note ∈ notes, note.Modest) ∧ s.Writes r' (notes.map .record) := by
  obtain ⟨s, shown, alike, writes⟩ := exists_forM_issue (ε := ε) (findings.take limit) r
  have counted := Work.Quiet.pure (ε := ε) (Tally.ofList (findings.take limit))
  have opened : Begins openings ("Maximum number of annotations reached (" ++ toString (limit : Int) ++ "). " ++
      toString (findings.length - limit : Int) ++ " annotations were not shown.") :=
    ((((begins_self (by decide)).append _).append _).append _).append _
  have warned := (Work.Quiet.warn opened).bind fun _ => counted
  rw [emit]
  by_cases more : (limit : Int) < findings.length
  · obtain ⟨notes, modest, noted⟩ := warned.exists_records s
    simp only [more, if_true]
    exact ⟨s, _, notes, Work.bind_ok shown, (warned.looks.keeps s).trans alike, writes, modest, noted⟩
  · obtain ⟨notes, modest, noted⟩ := counted.exists_records s
    simp only [more, if_false]
    exact ⟨s, _, notes, Work.bind_ok shown, (counted.looks.keeps s).trans alike, writes, modest, noted⟩

/-- The command that sets an output. -/
def outputCommand (entry : String × Setting) : Command :=
  ⟨"set-output", [("name", .text entry.1)], Command.valueText entry.2⟩

/-- Outputs are set by commands if there is no file for them. -/
theorem exists_setOutputs (entries : List (String × Setting)) {r : Runner} (absent : r.outputPath? = none) :
    ∃ r', setOutputs entries r = (.ok (), r') ∧ r.Writes r' (entries.map fun entry => .command (outputCommand entry)) := by
  induction entries generalizing r with
  | nil => exact ⟨r, rfl, .refl r⟩
  | cons entry entries ih =>
    have made : r.setOutput entry.1 entry.2 = .ok (r.issue (outputCommand entry)) := by
      rw [Runner.setOutput]
      simp only [absent]
      rfl
    obtain ⟨r', result, writes⟩ := ih (r := r.issue (outputCommand entry)) absent
    refine ⟨r', ?_, (Runner.Writes.issue r _).trans writes⟩
    change ((liftM ((r.setOutput entry.1 entry.2).mapError RunError.file) >>= fun s => set s >>= fun _ =>
      setOutputs entries : Work RunError Unit) r) = (.ok (), r')
    rw [made]
    exact result

/-! ### Transcripts -/

/-- The findings that a run shows, or why it fails: what its settings and its search for findings come to on the runner
that it starts from. -/
def shownBy (overrides : Settings.Overrides) (r : Runner) : Except RunError (List Finding) := do
  let settings ← (Settings.load overrides r).1.mapError .settings
  let all ← (collect settings r).1
  return all.take settings.maxAnnotations

/-- What a run writes. -/
structure Transcript where
  sections : List Section
  /-- The findings that are shown. -/
  shown : List Finding
  /-- What is noted after them. -/
  notes : List Record
  /-- The commands at the end. -/
  closing : List Command

namespace Transcript

/-- All that is written, commands and records, in this order. -/
def entries (t : Transcript) : List Entry :=
  t.sections.flatMap Section.entries ++ (t.shown.map fun found => .command found.command) ++ t.notes.map .record ++
    t.closing.map .command

/-- The commands that are given, in this order: all that stands in a stream without records. -/
def commands (t : Transcript) : List Command :=
  t.sections.flatMap Section.commands ++ t.shown.map Finding.command ++ t.closing

theorem commandsOf_entries (t : Transcript) : commandsOf t.entries = t.commands := by
  have shown : t.shown.map (fun found => Entry.command found.command) = (t.shown.map Finding.command).map .command :=
    List.map_map.symm
  rw [entries, shown, commandsOf_append, commandsOf_append, commandsOf_append, commandsOf_sections, commandsOf_commands,
    commandsOf_commands, commandsOf_records, List.append_nil, commands]

/-- Whether a run with some overrides from a runner to another one has this transcript. -/
structure Of (t : Transcript) (overrides : Settings.Overrides) (r r' : Runner) : Prop where
  written : r.Writes r' t.entries
  first : t.sections.head?.map Section.name = some "Configuration"
  sections : ∀ s ∈ t.sections, s.Modest
  notes : ∀ note ∈ t.notes, note.Modest
  /-- A run that fails shows nothing, and ends with its error. -/
  failed : ∀ e, shownBy overrides r = .error e →
    t.shown = [] ∧ t.notes = [] ∧ t.closing = [⟨"error", [], e.message⟩]
  /-- A run that does not fail ends with its outputs. -/
  finished : ∀ shown, shownBy overrides r = .ok shown →
    t.shown = shown ∧ t.closing = (Tally.ofList shown).entries.map outputCommand

namespace Of

variable {t : Transcript} {overrides : Settings.Overrides} {r r' : Runner}

/-- The commands at the end tell an error or set outputs. -/
theorem closing (of : t.Of overrides r r') {command : Command} (given : command ∈ t.closing) :
    (∃ message, command = ⟨"error", [], message⟩) ∨ ∃ entry, command = outputCommand entry := by
  cases result : shownBy overrides r with
  | error e =>
    obtain ⟨-, -, closing⟩ := of.failed e result
    rw [closing] at given
    exact .inl ⟨e.message, List.mem_singleton.mp given⟩
  | ok shown =>
    obtain ⟨-, closing⟩ := of.finished shown result
    rw [closing] at given
    obtain ⟨entry, -, same⟩ := List.mem_map.mp given
    exact .inr ⟨entry, same.symm⟩

theorem record_modest (of : t.Of overrides r r') {record : Record} (written : .record record ∈ t.entries) :
    record.Modest := by
  unfold entries at written
  simp only [List.mem_append, List.mem_flatMap, List.mem_map, reduceCtorEq, and_false, exists_false, or_false,
    Entry.record.injEq, exists_eq_right] at written
  rcases written with ⟨s, listed, written⟩ | noted
  · refine of.sections s listed record ?_
    simpa [Section.entries] using written
  · exact of.notes record noted

/-- **A command is one line.** -/
theorem oneLine (of : t.Of overrides r r') {command : Command} (given : command ∈ t.commands) :
    OneLine command.line := by
  simp only [commands, List.mem_append, List.mem_flatMap, List.mem_map, Section.commands, List.mem_cons,
    List.not_mem_nil, or_false] at given
  rcases given with (⟨s, -, rfl | rfl⟩ | ⟨found, -, rfl⟩) | given
  · exact Command.oneLine (by simp [OneLine]) fun _ met => absurd met List.not_mem_nil
  · exact Command.oneLine (by simp [OneLine]) fun _ met => absurd met List.not_mem_nil
  · exact found.oneLine
  · obtain ⟨message, rfl⟩ | ⟨entry, rfl⟩ := of.closing given
    · exact Command.oneLine (by simp [OneLine]) fun _ met => absurd met List.not_mem_nil
    · exact Command.oneLine (by simp [OneLine, outputCommand]) fun _ met => List.mem_singleton.mp met ▸ by simp [OneLine]

theorem linesOf_commands (of : t.Of overrides r r') :
    linesOf (t.commands.map Command.line) = t.commands.map Command.line ++ [""] :=
  linesOf_eq (List.forall_mem_map.mpr fun _ given => of.oneLine given)

/-- Findings, errors and outputs leave groups as they are. -/
theorem passage_line (of : t.Of overrides r r') {command : Command}
    (given : command ∈ t.shown.map Finding.command ++ t.closing) (isOpen : Bool) :
    passage isOpen command.line = some isOpen := by
  have apart (name : String) (named : name ∈ ["error", "warning", "notice", "set-output"])
      (properties : List (String × Setting)) (message : String) :
      passage isOpen (Command.mk name properties message).line = some isOpen := by
    have opened : ∀ name ∈ ["error", "warning", "notice", "set-output"],
        ["::" ++ name] ⊆ ["::error", "::warning", "::notice", "::set-output"] := by decide
    have begins := (Command.begins_line name properties message).mono (opened name named)
    exact passage_of_begins begins (by decide) isOpen
  rcases List.mem_append.mp given with given | given
  · obtain ⟨found, -, rfl⟩ := List.mem_map.mp given
    exact apart _ (by cases found.severity <;> decide) _ _
  · obtain ⟨message, rfl⟩ | ⟨entry, rfl⟩ := of.closing given
    · exact apart _ (by decide) _ _
    · exact apart _ (by decide) _ _

/-- **Groups are closed.** -/
theorem groupsClosed_commands (of : t.Of overrides r r') : GroupsClosed (t.commands.map Command.line) := by
  unfold commands
  rw [List.append_assoc, List.map_append]
  refine (groupsClosed_sections t.sections).append ?_
  exact foldlM_passage (List.forall_mem_map.mpr fun _ given => of.passage_line given) false

theorem groupsClosed_entries (of : t.Of overrides r r') : GroupsClosed (t.entries.map Entry.text) := by
  rw [groupsClosed_text_iff fun _ => of.record_modest, commandsOf_entries]
  exact of.groupsClosed_commands

/-- A run that fails gives nothing but its sections and its error, and no section shows or sets anything. -/
theorem of_error (of : t.Of overrides r r') {e : RunError} (fails : shownBy overrides r = .error e) :
    t.commands = t.sections.flatMap Section.commands ++ [⟨"error", [], e.message⟩] ∧
      ∃ before : List String,
        t.entries.map Entry.text = before ++ ["::error::" ++ Command.escapeMessage e.message] ∧
        ∀ text ∈ before, ¬ Begins ["::error", "::notice", "::set-output"] text := by
  obtain ⟨shown, notes, closing⟩ := of.failed e fails
  refine ⟨by rw [commands, shown, closing, List.map_nil, List.append_nil],
    (t.sections.flatMap Section.entries).map Entry.text, ?_, ?_⟩
  · rw [entries, shown, notes, closing, List.map_nil, List.map_nil, List.append_nil, List.append_nil, List.map_append]
    rfl
  · intro text written
    obtain ⟨entry, listed, rfl⟩ := List.mem_map.mp written
    obtain ⟨s, member, inside⟩ := List.mem_flatMap.mp listed
    exact ((of.sections s member).begins inside).not_begins (by decide)

end Of

end Transcript

/-! ### Runs -/

section Runs

variable {overrides : Settings.Overrides} {r r' : Runner} {settings : Settings} {sections : List Section}

theorem shownBy_of_error {e : RunError} (loaded : (Settings.load overrides r).1.mapError .settings = .error e) :
    shownBy overrides r = .error e := by
  rw [shownBy, loaded]
  rfl

theorem shownBy_of_ok (loaded : (Settings.load overrides r).1.mapError RunError.settings = .ok settings) :
    shownBy overrides r = (collect settings r).1 >>= fun all => .ok (all.take settings.maxAnnotations) := by
  rw [shownBy, loaded]
  rfl

/-- A run that fails after some sections has a transcript. -/
theorem exists_transcript_of_error {e : RunError} (attempted : attempt overrides r = (.error e, r'))
    (fails : shownBy overrides r = .error e) (first : sections.head?.map Section.name = some "Configuration")
    (modest : ∀ s ∈ sections, s.Modest) (writes : r.Writes r' (sections.flatMap Section.entries)) :
    ∃ t : Transcript, t.Of overrides r (annotate overrides r).2 ∧
      (annotate overrides r).1 = (shownBy overrides r).map Tally.ofList := by
  have result : annotate overrides r = (.error e, r'.issue ⟨"error", [], e.message⟩) := by
    unfold annotate
    rw [attempted]
  have entries : Transcript.entries ⟨sections, [], [], [⟨"error", [], e.message⟩]⟩ =
      sections.flatMap Section.entries ++ [.command ⟨"error", [], e.message⟩] := by
    simp [Transcript.entries]
  rw [result, fails]
  refine ⟨⟨sections, [], [], [⟨"error", [], e.message⟩]⟩, ⟨?_, first, modest, by simp, ?_, ?_⟩, rfl⟩
  · rw [entries]
    exact writes.trans (.issue r' _)
  · intro other same
    obtain rfl := Except.error.inj (fails.symm.trans same)
    exact ⟨rfl, rfl, rfl⟩
  · intro shown same
    cases fails.symm.trans same

/-- A run that collects its findings in some sections has a transcript, if there is no file for outputs. -/
theorem exists_transcript_of_ok {all : List Finding} {limit : Nat}
    (attempted : attempt overrides r = (emit all limit >>= fun tally => do setOutputs tally.entries; return tally) r')
    (shows : shownBy overrides r = .ok (all.take limit)) (absent : r'.outputPath? = none)
    (first : sections.head?.map Section.name = some "Configuration") (modest : ∀ s ∈ sections, s.Modest)
    (writes : r.Writes r' (sections.flatMap Section.entries)) :
    ∃ t : Transcript, t.Of overrides r (annotate overrides r).2 ∧
      (annotate overrides r).1 = (shownBy overrides r).map Tally.ofList := by
  obtain ⟨r₁, r₂, notes, emitted, alike, shown, modest', noted⟩ := exists_emit_writes (ε := RunError) all limit r'
  obtain ⟨r₃, set, outputs⟩ :=
    exists_setOutputs (Tally.ofList (all.take limit)).entries (alike.outputPath?_eq.trans absent)
  have result : annotate overrides r = (.ok (Tally.ofList (all.take limit)), r₃) := by
    unfold annotate
    rw [attempted, Work.bind_ok emitted, Work.bind_ok set]
    rfl
  rw [result, shows]
  refine ⟨⟨sections, all.take limit, notes, (Tally.ofList (all.take limit)).entries.map outputCommand⟩,
    ⟨?_, first, modest, modest', ?_, ?_⟩, rfl⟩
  · unfold Transcript.entries
    rw [List.map_map]
    exact ((writes.trans shown).trans noted).trans outputs
  · intro e same
    cases shows.symm.trans same
  · intro other same
    obtain rfl := Except.ok.inj (shows.symm.trans same)
    exact ⟨rfl, rfl⟩

/-- **Every run has a transcript**, if there is no file for outputs, and it comes to what its pieces come to. -/
theorem exists_transcript (overrides : Settings.Overrides) (absent : r.outputPath? = none) :
    ∃ t : Transcript, t.Of overrides r (annotate overrides r).2 ∧
      (annotate overrides r).1 = (shownBy overrides r).map Tally.ofList := by
  have quiet := (Settings.quiet_load overrides).mapError RunError.settings
  have loaded := (quiet.looks.outcome_grouped "Configuration" r).symm
  have keeps := (quiet.looks.grouped "Configuration").keeps r
  obtain ⟨configuration, named, modest, writes⟩ := quiet.exists_section "Configuration" r
  have first (others : List Section) : (configuration :: others).head?.map Section.name = some "Configuration" :=
    congrArg some named
  rw [Work.outcome_mapError] at loaded
  rcases configured : Work.grouped "Configuration" ((Settings.load overrides).mapError RunError.settings) r with
    ⟨e | settings, r₁⟩
  · rw [configured] at loaded writes
    rw [← List.flatMap_singleton Section.entries configuration] at writes
    exact exists_transcript_of_error (Work.bind_error configured) (shownBy_of_error loaded) (first [])
      (List.forall_mem_singleton.mpr modest) writes
  rw [configured] at loaded keeps writes
  have shows := shownBy_of_ok loaded
  rw [← (looks_collect settings).same keeps] at shows
  have keeps' := (looks_collect settings).keeps r₁
  obtain ⟨sections, each, writes'⟩ := (sectioned_collect settings).exists_sections r₁
  have modestAll := List.forall_mem_cons.mpr ⟨modest, each⟩
  have writesAll := writes.trans writes'
  rw [← List.flatMap_cons] at writesAll
  rcases collected : collect settings r₁ with ⟨e | all, r₂⟩
  · rw [collected] at shows writesAll
    exact exists_transcript_of_error ((Work.bind_ok configured).trans (Work.bind_error collected)) shows
      (first sections) modestAll writesAll
  · rw [collected] at shows keeps' writesAll
    have absent' := (keeps'.trans keeps).outputPath?_eq.trans absent
    exact exists_transcript_of_ok ((Work.bind_ok configured).trans (Work.bind_ok collected)) shows absent'
      (first sections) modestAll writesAll

end Runs

/-- A workspace with a report, -/
def desk : Runner where
  environment := []
  workspace := ⟨[(["a.xml"], "<a/>")], []⟩
  showsDebug := true
  delimiter := ""

/-- a search that finds nothing, and one that finds the report for a matcher that is not there. -/
def unmatched : Settings.Overrides where
  layer := [(.reports, .list [.text "junit|none.xml", .text "unknown|*.xml"])]

theorem exists_shownBy_unmatched :
    ∃ e, shownBy unmatched desk = .error e ∧ e.message = "No matcher found for unknown" := by
  have told : (match shownBy unmatched desk with
      | .error e => e.message
      | .ok _ => "") = "No matcher found for unknown" := by decide +kernel
  split at told
  next e fails => exact ⟨e, fails, told⟩
  next => exact absurd told (by decide)

end XPathAnnotator
