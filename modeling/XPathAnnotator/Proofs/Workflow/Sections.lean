/-
**Sections of what is written.**

What a run writes are commands and records. Some pieces of a run are quiet: they write records only. Others write
sections, each a group that is opened, the records of a quiet piece, and the end of the group; a section is ended
however its piece ends. So on the way no group is left open and none begins within another one.

* `Entry`, `Section` — what is written; `Record.Modest` — the records of a run;
* `linesOf_eq` — commands make one line each;
* `GroupsClosed` — texts in which every group is ended before the next one begins;
* `Work.Quiet`, `Work.Sectioned` — pieces of a run that write records and sections, by how they are put together;
* `Work.Quiet.exists_records`, `Work.Quiet.exists_section`, `Work.Sectioned.exists_sections` — what they write, whether
  they fail or not;
* `Work.Quiet.looks`, `Work.Sectioned.looks` — they only look at their runner.
-/

import Mathlib
import XPathAnnotator.Proofs.Text.Words
import XPathAnnotator.Proofs.Workflow.Lines
import XPathAnnotator.Proofs.Workflow.Notes

namespace XPathAnnotator.Workflow

/-! ### Entries -/

/-- A thing that a run writes. -/
inductive Entry where
  | command (command : Command)
  | record (record : Record)

/-- The text of an entry. -/
def Entry.text : Entry → String
  | command c => c.line
  | record r => r.text

/-- The command that an entry is. -/
def Entry.command? : Entry → Option Command
  | command c => some c
  | record _ => none

/-- Whether a record is one of those that a run writes: below the level of errors, with a message that begins as the
messages of a run do. -/
structure Record.Modest (record : Record) : Prop where
  mild : record.level < Record.errorLevel
  opened : Begins openings record.message

/-- A group with the records in it. -/
structure Section where
  name : String
  records : List Record

/-- What is written for a section. -/
def Section.entries (s : Section) : List Entry :=
  .command ⟨"group", [], s.name⟩ :: s.records.map .record ++ [.command ⟨"endgroup", [], ""⟩]

/-- The commands around a section. -/
def Section.commands (s : Section) : List Command := [⟨"group", [], s.name⟩, ⟨"endgroup", [], ""⟩]

/-- Whether the records of a section are those of a run. -/
def Section.Modest (s : Section) : Prop := ∀ record ∈ s.records, record.Modest

theorem Record.Modest.begins {record : Record} (modest : record.Modest) : Begins recordOpenings record.text :=
  begins_text modest.mild modest.opened

/-- **What is written for a section** begins as commands around groups and modest records do. -/
theorem Section.Modest.begins {s : Section} (modest : s.Modest) {entry : Entry} (written : entry ∈ s.entries) :
    Begins (["::group", "::endgroup"] ++ recordOpenings) entry.text := by
  simp only [Section.entries, List.cons_append, List.mem_cons, List.mem_append, List.mem_map, List.not_mem_nil,
    or_false] at written
  rcases written with rfl | ⟨record, listed, rfl⟩ | rfl
  · exact (Command.begins_line "group" [] s.name).mono (by decide)
  · exact (modest record listed).begins.mono (List.subset_append_right _ _)
  · exact (Command.begins_line "endgroup" [] "").mono (by decide)

/-! ### Lines -/

/-- The lines of texts that are written with an end of line each; after the last one there is an empty line. -/
def linesOf (texts : List String) : List String := Text.pieces '\n' (String.join (texts.map (· ++ "\n")))

/-- The lines of a runner are those of what it has written. -/
theorem lines_eq_linesOf (r : Runner) : r.lines = linesOf r.written.toList := rfl

/-- **Texts without ends of lines make one line each.** -/
theorem linesOf_eq {texts : List String} (oneLine : ∀ text ∈ texts, OneLine text) : linesOf texts = texts ++ [""] := by
  unfold linesOf Text.pieces
  induction texts with
  | nil => rfl
  | cons text texts ih =>
    obtain ⟨here, later⟩ := List.forall_mem_cons.mp oneLine
    have absent : '\n' ∉ text.toList := fun member => (here _ member).1 rfl
    have characters : (String.join ((text :: texts).map (· ++ "\n"))).toList =
        text.toList ++ '\n' :: (String.join (texts.map (· ++ "\n"))).toList := by
      simp [String.join_cons]
    rw [characters, Text.piecesOf_append absent, List.map_cons, ih later, String.ofList_toList]
    rfl

/-! ### Groups -/

/-- Whether a group is open behind a text, none if the text begins one within another one or ends one where none is
open. -/
def passage (isOpen : Bool) (text : String) : Option Bool :=
  if Text.startsWith text "::group::" then if isOpen then none else some true
  else if text = "::endgroup::" then if isOpen then some false else none
  else some isOpen

/-- Whether each group is ended before the next one begins, and none is left open. -/
def GroupsClosed (texts : List String) : Prop := texts.foldlM passage false = some false

instance (texts : List String) : Decidable (GroupsClosed texts) :=
  inferInstanceAs (Decidable (texts.foldlM passage false = some false))

theorem GroupsClosed.append {texts others : List String} (first : GroupsClosed texts) (second : GroupsClosed others) :
    GroupsClosed (texts ++ others) := by
  unfold GroupsClosed at *
  rw [List.foldlM_append, first]
  exact second

/-- A text that begins in a way that no command around a group does leaves open and closed what is. -/
theorem passage_of_begins {others : List String} {text : String} (begins : Begins others text)
    (apart : ∀ opening ∈ others, ∀ other ∈ ["::group::", "::endgroup::"], ¬ opening.toList <+: other.toList ∧
      ¬ other.toList <+: opening.toList) (isOpen : Bool) : passage isOpen text = some isOpen := by
  have notBegins := begins.not_begins apart
  have noGroup : ¬ Text.startsWith text "::group::" = true := by
    rw [Text.startsWith, List.isPrefixOf_iff_prefix]
    exact fun group => notBegins ⟨"::group::", by decide, group⟩
  have noEnd : text ≠ "::endgroup::" := by
    rintro rfl
    exact notBegins (begins_self (by decide))
  rw [passage, if_neg noGroup, if_neg noEnd]

/-- Texts that leave open and closed what is. -/
theorem foldlM_passage {texts : List String} (each : ∀ text ∈ texts, ∀ isOpen, passage isOpen text = some isOpen)
    (isOpen : Bool) : texts.foldlM passage isOpen = some isOpen := by
  induction texts with
  | nil => rfl
  | cons text texts ih =>
    obtain ⟨here, later⟩ := List.forall_mem_cons.mp each
    rw [List.foldlM_cons, here]
    exact ih later

theorem passage_record {record : Record} (modest : record.Modest) (isOpen : Bool) :
    passage isOpen record.text = some isOpen :=
  passage_of_begins modest.begins (by decide) isOpen

theorem passage_group (name : String) : passage false (Command.mk "group" [] name).line = some true := by
  have begins : Text.startsWith (Command.mk "group" [] name).line "::group::" = true := by
    rw [Text.startsWith, List.isPrefixOf_iff_prefix]
    have line : (Command.mk "group" [] name).line = "::group::" ++ Command.escapeMessage name := rfl
    rw [line, String.toList_append]
    exact List.prefix_append _ _
  rw [passage, if_pos begins]
  rfl

theorem passage_endgroup : passage true (Command.mk "endgroup" [] "").line = some false := by
  decide

/-- The commands among entries. -/
def commandsOf (entries : List Entry) : List Command := entries.filterMap Entry.command?

theorem commandsOf_append (entries others : List Entry) :
    commandsOf (entries ++ others) = commandsOf entries ++ commandsOf others := List.filterMap_append

/-- Records do not matter to the groups that they stand in. -/
theorem foldlM_passage_text {entries : List Entry} (modest : ∀ record, .record record ∈ entries → record.Modest)
    (isOpen : Bool) : (entries.map Entry.text).foldlM passage isOpen =
      ((commandsOf entries).map Command.line).foldlM passage isOpen := by
  induction entries generalizing isOpen with
  | nil => rfl
  | cons entry entries ih =>
    have later : ∀ record, .record record ∈ entries → record.Modest :=
      fun record member => modest record (List.mem_cons_of_mem _ member)
    cases entry with
    | command c =>
      change (passage isOpen c.line).bind _ = (passage isOpen c.line).bind _
      exact congrArg _ (funext fun isOpen => ih later isOpen)
    | record record =>
      rw [List.map_cons, List.foldlM_cons, Entry.text, passage_record (modest record List.mem_cons_self)]
      exact ih later isOpen

/-- **Groups are closed if those of the commands are**, whatever the records between them say. -/
theorem groupsClosed_text_iff {entries : List Entry} (modest : ∀ record, .record record ∈ entries → record.Modest) :
    GroupsClosed (entries.map Entry.text) ↔ GroupsClosed ((commandsOf entries).map Command.line) := by
  unfold GroupsClosed
  rw [foldlM_passage_text modest]

theorem commandsOf_commands (commands : List Command) : commandsOf (commands.map .command) = commands := by
  unfold commandsOf
  rw [List.filterMap_map]
  exact List.filterMap_some

theorem commandsOf_records (records : List Record) : commandsOf (records.map .record) = [] := by
  unfold commandsOf
  rw [List.filterMap_map]
  exact List.filterMap_eq_nil_iff.mpr fun _ _ => rfl

theorem commandsOf_section (s : Section) : commandsOf s.entries = s.commands := by
  rw [Section.entries, commandsOf_append]
  change _ :: commandsOf (s.records.map .record) ++ _ = _
  rw [commandsOf_records]
  rfl

theorem commandsOf_sections (sections : List Section) :
    commandsOf (sections.flatMap Section.entries) = sections.flatMap Section.commands := by
  induction sections with
  | nil => rfl
  | cons s sections ih => rw [List.flatMap_cons, List.flatMap_cons, commandsOf_append, commandsOf_section, ih]

/-- **Sections are closed.** -/
theorem groupsClosed_sections (sections : List Section) :
    GroupsClosed ((sections.flatMap Section.commands).map Command.line) := by
  induction sections with
  | nil => rfl
  | cons s sections ih =>
    rw [List.flatMap_cons, List.map_append]
    refine GroupsClosed.append ?_ ih
    unfold GroupsClosed
    rw [Section.commands, List.map_cons, List.foldlM_cons, passage_group]
    exact congrArg (Option.bind · some) passage_endgroup

/-! ### Pieces of a run -/

/-- Whether a runner comes after another one with nothing written but some entries. -/
def Runner.Writes (r s : Runner) (entries : List Entry) : Prop :=
  s.written.toList = r.written.toList ++ entries.map Entry.text

namespace Runner.Writes

variable {r s t : Runner} {entries others : List Entry}

theorem refl (r : Runner) : r.Writes r [] := (List.append_nil _).symm

theorem trans (first : r.Writes s entries) (second : s.Writes t others) : r.Writes t (entries ++ others) := by
  unfold Writes at *
  rw [second, first, List.map_append, List.append_assoc]

theorem write (r : Runner) (entry : Entry) : r.Writes (r.write entry.text) [entry] := Array.toList_push

theorem issue (r : Runner) (command : Command) : r.Writes (r.issue command) [.command command] :=
  write r (.command command)

end Runner.Writes

namespace Work

/-- Pieces of a run that write modest records only, by how they are put together. -/
inductive Quiet : {ε α : Type} → Work ε α → Prop
  | pure {ε α : Type} (a : α) : Quiet (pure a : Work ε α)
  | throw {ε α : Type} (e : ε) : Quiet (throw e : Work ε α)
  | liftM {ε α : Type} (x : Except ε α) : Quiet (liftM x : Work ε α)
  | log {ε : Type} {level : Int} {message : String} (mild : level < Record.errorLevel)
      (opened : Begins openings message) : Quiet (log level message : Work ε Unit)
  | get {ε α : Type} {next : Runner → Work ε α} (each : ∀ r, Quiet (next r))
      (same : ∀ {r s : Runner}, r.Alike s → next r = next s) : Quiet (get >>= next)
  | bind {ε α β : Type} {w : Work ε α} {next : α → Work ε β} (first : Quiet w) (second : ∀ a, Quiet (next a)) :
      Quiet (w >>= next)
  | mapError {ε δ α : Type} {w : Work ε α} (quiet : Quiet w) (rename : ε → δ) : Quiet (mapError rename w)

/-- Pieces of a run that write sections only. -/
inductive Sectioned : {ε α : Type} → Work ε α → Prop
  | pure {ε α : Type} (a : α) : Sectioned (pure a : Work ε α)
  | throw {ε α : Type} (e : ε) : Sectioned (throw e : Work ε α)
  | liftM {ε α : Type} (x : Except ε α) : Sectioned (liftM x : Work ε α)
  | grouped {ε α : Type} {w : Work ε α} (quiet : Quiet w) (name : String) : Sectioned (grouped name w)
  | bind {ε α β : Type} {w : Work ε α} {next : α → Work ε β} (first : Sectioned w)
      (second : ∀ a, Sectioned (next a)) : Sectioned (w >>= next)

variable {ε α β : Type} {w : Work ε α}

/-- What a sequence writes, in items of some kind: those of its first piece, and then those of the second one. -/
theorem exists_writes_bind {ι : Type} {good : ι → Prop} {entriesOf : List ι → List Entry}
    (append : ∀ items others, entriesOf (items ++ others) = entriesOf items ++ entriesOf others)
    {next : α → Work ε β}
    (first : ∀ r : Runner, ∃ items, (∀ item ∈ items, good item) ∧ r.Writes (w r).2 (entriesOf items))
    (second : ∀ (a : α) (r : Runner), ∃ items, (∀ item ∈ items, good item) ∧
      r.Writes (next a r).2 (entriesOf items)) (r : Runner) :
    ∃ items, (∀ item ∈ items, good item) ∧ r.Writes ((w >>= next) r).2 (entriesOf items) := by
  obtain ⟨items, each, writes⟩ := first r
  rcases outcome : w r with ⟨_ | a, r'⟩
  · rw [outcome] at writes
    rw [bind_error outcome]
    exact ⟨items, each, writes⟩
  · rw [outcome] at writes
    obtain ⟨others, each', writes'⟩ := second a r'
    rw [bind_ok outcome]
    exact ⟨items ++ others, List.forall_mem_append.mpr ⟨each, each'⟩, append items others ▸ writes.trans writes'⟩

namespace Quiet

theorem debug {message : String} (opened : Begins openings message) : (debug message : Work ε Unit).Quiet :=
  .log (by decide) opened

theorem info {message : String} (opened : Begins openings message) : (info message : Work ε Unit).Quiet :=
  .log (by decide) opened

theorem warn {message : String} (opened : Begins openings message) : (warn message : Work ε Unit).Quiet :=
  .log (by decide) opened

theorem looks (quiet : w.Quiet) : w.Looks := by
  induction quiet with
  | pure a => exact looks_pure a
  | throw e => exact looks_throw e
  | liftM x => exact looks_liftM x
  | log mild opened => exact looks_log mild opened
  | get each same ih => exact looks_get ih same
  | bind first second ih ih' => exact ih.bind ih'
  | mapError quiet rename ih => exact ih.mapError rename

/-- **A quiet piece writes records**, whether it fails or not. -/
theorem exists_records (quiet : w.Quiet) (r : Runner) :
    ∃ records : List Record, (∀ record ∈ records, record.Modest) ∧ r.Writes (w r).2 (records.map .record) := by
  have none (r : Runner) : ∃ records : List Record, (∀ record ∈ records, record.Modest) ∧
      r.Writes r (records.map .record) := ⟨[], fun _ met => absurd met List.not_mem_nil, .refl r⟩
  induction quiet generalizing r with
  | pure | throw | liftM => exact none r
  | @log _ level message mild opened =>
    change ∃ records : List Record, _ ∧ r.Writes (r.log ⟨level, message⟩) (records.map .record)
    unfold Runner.log
    split
    · exact ⟨[⟨level, message⟩], List.forall_mem_singleton.mpr ⟨mild, opened⟩, .write r (.record ⟨level, message⟩)⟩
    · exact none r
  | get each same ih => exact ih r r
  | bind first second ih ih' => exact exists_writes_bind (fun _ _ => List.map_append) ih ih' r
  | mapError quiet rename ih => exact ih r

end Quiet

/-- **A quiet piece in a group writes a section**, whether it fails or not. -/
theorem Quiet.exists_section (quiet : w.Quiet) (name : String) (r : Runner) :
    ∃ s : Section, s.name = name ∧ s.Modest ∧ r.Writes (grouped name w r).2 s.entries := by
  obtain ⟨records, modest, writes⟩ := quiet.exists_records (r.issue ⟨"group", [], name⟩)
  exact ⟨⟨name, records⟩, rfl, modest, ((Runner.Writes.issue r _).trans writes).trans (.issue _ _)⟩

theorem Sectioned.looks (sectioned : w.Sectioned) : w.Looks := by
  induction sectioned with
  | pure a => exact looks_pure a
  | throw e => exact looks_throw e
  | liftM x => exact looks_liftM x
  | grouped quiet name => exact quiet.looks.grouped name
  | bind first second ih ih' => exact ih.bind ih'

/-- **A piece in sections writes sections**, whether it fails or not, and also where it fails within a group. -/
theorem Sectioned.exists_sections (sectioned : w.Sectioned) (r : Runner) :
    ∃ sections : List Section, (∀ s ∈ sections, s.Modest) ∧ r.Writes (w r).2 (sections.flatMap Section.entries) := by
  have none (r : Runner) : ∃ sections : List Section, (∀ s ∈ sections, s.Modest) ∧
      r.Writes r (sections.flatMap Section.entries) := ⟨[], fun _ met => absurd met List.not_mem_nil, .refl r⟩
  induction sectioned generalizing r with
  | pure | throw | liftM => exact none r
  | @grouped _ w quiet name =>
    obtain ⟨s, -, modest, writes⟩ := quiet.exists_section name r
    refine ⟨[s], List.forall_mem_singleton.mpr modest, ?_⟩
    rw [List.flatMap_singleton]
    exact writes
  | bind first second ih ih' => exact exists_writes_bind (fun _ _ => List.flatMap_append) ih ih' r

end Work

end XPathAnnotator.Workflow
