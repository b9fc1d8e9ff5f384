/-
**The notes of a run.**

A piece of a run goes on from the runner that the piece before it has left, unless that one failed.

Beside the findings that it shows, a run takes notes: records on what it does, lines around groups, and outputs. Most
pieces of a run only look at its runner. They take notes and change nothing else, and what they come to depends on the
variables and the files that they find, not on what has been written before.

* `Work.bind_ok`, `Work.bind_error`, `Work.get_bind`, `Work.exists_of_bind` — a sequence of two pieces, forwards and
  backwards;
* `Work.ok_of_mapError` — results beside renamed errors;
* `Work.Gives`, `Work.Fails` — pieces that have a result, or an error, on every runner, with `Gives.bind`, `Fails.bind`
  and `Gives.bind_fails` for sequences;
* `Note` — the lines that are notes; `Note.ne_line`, none of them shows an error or a notice;
* `Runner.Notes` — a runner after another one, with nothing but notes in between;
* `Work.Looks` — pieces of a run that only look, closed under `bind`, `grouped` and `mapError`;
* `Work.Looks.exists_of_bind`, `Work.Looks.ok_bind` — the pieces of a sequence, told by the runner that the run began
  with.
-/

import Mathlib
import XPathAnnotator.Report.Finding
import XPathAnnotator.Workflow.Runner

namespace XPathAnnotator.Workflow.Work

/-! ### Pieces of runs -/

variable {ε α β : Type} {w : Work ε α} {next : α → Work ε β} {r : Runner}

theorem bind_ok {a : α} {r' : Runner} (first : w r = (.ok a, r')) : (w >>= next) r = next a r' := by
  change (ExceptT.bindCont next (w r).1 : StateM Runner _) (w r).2 = _
  rw [first]
  rfl

theorem bind_error {e : ε} {r' : Runner} (first : w r = (.error e, r')) : (w >>= next) r = (.error e, r') := by
  change (ExceptT.bindCont next (w r).1 : StateM Runner _) (w r).2 = _
  rw [first]
  rfl

/-- A piece that begins with looking at its runner. -/
theorem get_bind (onward : Runner → Work ε β) (r : Runner) : (get >>= onward : Work ε β) r = onward r r := bind_ok rfl

theorem exists_of_bind {b : β} {r'' : Runner} (result : (w >>= next) r = (.ok b, r'')) :
    ∃ a r', w r = (.ok a, r') ∧ next a r' = (.ok b, r'') := by
  rcases first : w r with ⟨_ | a, r'⟩
  · rw [bind_error first] at result
    cases (Prod.mk.inj result).1
  · rw [bind_ok first] at result
    exact ⟨a, r', rfl, result⟩

theorem exists_of_outcome {outcome : Except ε α} (same : (w r).1 = outcome) : ∃ r', w r = (outcome, r') :=
  ⟨(w r).2, Prod.ext same rfl⟩

theorem outcome_mapError {δ : Type} (rename : ε → δ) (w : Work ε α) (r : Runner) :
    (mapError rename w r).1 = (w r).1.mapError rename := rfl

theorem mapError_ok {δ : Type} (rename : ε → δ) {r : Runner} {a : α} (result : (w r).1 = .ok a) :
    (mapError rename w r).1 = .ok a := by
  rw [outcome_mapError, result]
  rfl

/-- A result is one that was there before its errors were renamed. -/
theorem ok_of_mapError {δ : Type} {x : Except ε α} {rename : ε → δ} {a : α} (result : x.mapError rename = .ok a) :
    x = .ok a := by
  cases x with
  | error e => cases result
  | ok b => exact congrArg Except.ok (Except.ok.inj result)

/-- Whether a piece of a run has a result on every runner, always the same one. -/
def Gives (w : Work ε α) (a : α) : Prop := ∀ r, ∃ r', w r = (.ok a, r')

theorem gives_pure (a : α) : (pure a : Work ε α).Gives a := fun r => ⟨r, rfl⟩

theorem gives_log (level : Int) (message : String) : (log level message : Work ε Unit).Gives () :=
  fun r => ⟨r.log ⟨level, message⟩, rfl⟩

theorem outcome_liftM (x : Except ε α) (r : Runner) : ((liftM x : Work ε α) r).1 = x := rfl

theorem gives_liftM {x : Except ε α} {a : α} (same : x = .ok a) : (liftM x : Work ε α).Gives a := by
  subst same
  exact fun r => ⟨r, rfl⟩

theorem Gives.bind {a : α} {b : β} (first : w.Gives a) (second : (next a).Gives b) : (w >>= next).Gives b := by
  intro r
  obtain ⟨r', result⟩ := first r
  rw [bind_ok result]
  exact second r'

/-- Whether a piece of a run fails on every runner, always with the same error. -/
def Fails (w : Work ε α) (e : ε) : Prop := ∀ r, ∃ r', w r = (.error e, r')

theorem fails_throw (e : ε) : (throw e : Work ε α).Fails e := fun r => ⟨r, rfl⟩

theorem fails_liftM {x : Except ε α} {e : ε} (same : x = .error e) : (liftM x : Work ε α).Fails e := by
  subst same
  exact fun r => ⟨r, rfl⟩

theorem Fails.bind {e : ε} (first : w.Fails e) : (w >>= next).Fails e := by
  intro r
  obtain ⟨r', result⟩ := first r
  exact ⟨r', bind_error result⟩

theorem Gives.bind_fails {a : α} {e : ε} (first : w.Gives a) (second : (next a).Fails e) : (w >>= next).Fails e := by
  intro r
  obtain ⟨r', result⟩ := first r
  rw [bind_ok result]
  exact second r'

end XPathAnnotator.Workflow.Work

namespace XPathAnnotator.Workflow

open XPathAnnotator.Data

/-! ### Notes -/

/-- Whether a text begins with one of some texts. -/
def Begins (openings : List String) (text : String) : Prop := ∃ opening ∈ openings, opening.toList <+: text.toList

theorem begins_self {openings : List String} {text : String} (listed : text ∈ openings) : Begins openings text :=
  ⟨text, listed, List.prefix_rfl⟩

theorem Begins.append {openings : List String} {text : String} (begins : Begins openings text) (rest : String) :
    Begins openings (text ++ rest) := by
  obtain ⟨opening, listed, start⟩ := begins
  refine ⟨opening, listed, start.trans ?_⟩
  rw [String.toList_append]
  exact List.prefix_append _ _

theorem Begins.mono {openings others : List String} {text : String} (begins : Begins openings text)
    (all : openings ⊆ others) : Begins others text := by
  obtain ⟨opening, listed, start⟩ := begins
  exact ⟨opening, all listed, start⟩

/-- A text that begins in one way does not begin in others that are apart from it. -/
theorem Begins.not_begins {openings others : List String} {text : String} (begins : Begins openings text)
    (apart : ∀ opening ∈ openings, ∀ other ∈ others, ¬ opening.toList <+: other.toList ∧
      ¬ other.toList <+: opening.toList) : ¬ Begins others text := by
  rintro ⟨other, listed', start'⟩
  obtain ⟨opening, listed, start⟩ := begins
  obtain ⟨notInside, notAround⟩ := apart opening listed other listed'
  exact (List.prefix_or_prefix_of_prefix start start').elim notInside notAround

theorem Command.begins_line (name : String) (properties : List (String × Setting)) (message : String) :
    Begins ["::" ++ name] (Command.mk name properties message).line := by
  unfold line
  exact (((begins_self List.mem_cons_self).append _).append _).append _

/-- How the messages of a run begin. -/
def openings : List String :=
  ["Parsed inputs: ", "Parsed yaml config: ", "Final config: ", "No config file found at ", "Using config file at ",
    "Unknown setting ", "No reports found for ", "Found ", "Parsing ", "Parsed ", "No items found in ",
    "Processing item: ", "Checking level ", "Ignoring item.", "Maximum number of annotations reached ("]

/-- How the texts of records below the level of errors begin. -/
def recordOpenings : List String := ["::warning", "::debug"] ++ openings

theorem Record.begins_text {record : Record} (mild : record.level < errorLevel)
    (opened : Begins openings record.message) : Begins recordOpenings record.text := by
  unfold text
  rw [if_neg (not_le_of_gt mild)]
  split
  · exact (Command.begins_line _ _ _).mono (by decide)
  · split
    · exact opened.mono (List.subset_append_right _ _)
    · exact (Command.begins_line _ _ _).mono (by decide)

/-- The lines that a run writes beside its findings. -/
inductive Note : String → Prop where
  /-- The text of a record below the level of errors. -/
  | record {level : Int} (mild : level < Record.errorLevel) {message : String} (opened : Begins openings message) :
    Note (Record.text ⟨level, message⟩)
  | group (name : String) : Note (Command.mk "group" [] name).line
  | endgroup : Note (Command.mk "endgroup" [] "").line
  | output (name value : String) : Note (Command.mk "set-output" [("name", .text name)] value).line

/-- How notes begin. -/
def noteOpenings : List String := ["::warning", "::debug", "::group", "::endgroup", "::set-output"] ++ openings

theorem Note.begins {text : String} (note : Note text) : Begins noteOpenings text := by
  cases note with
  | record mild opened => exact (Record.begins_text mild opened).mono (by decide)
  | group name => exact (Command.begins_line _ _ _).mono (by decide)
  | endgroup => exact (Command.begins_line _ _ _).mono (by decide)
  | output name value => exact (Command.begins_line _ _ _).mono (by decide)

/-- **No note shows an error or a notice.** -/
theorem Note.ne_line {text : String} (note : Note text) {a : Report.Finding} (told : a.severity ≠ .warning) :
    text ≠ a.command.line := by
  rintro rfl
  have apart : ∀ s : Report.Severity, s ≠ .warning → ∀ opening ∈ noteOpenings, ∀ other ∈ ["::" ++ s.title],
      ¬ opening.toList <+: other.toList ∧ ¬ other.toList <+: opening.toList := by
    intro s told
    cases s with
    | error => decide
    | warning => exact absurd rfl told
    | notice => decide
  exact note.begins.not_begins (apart a.severity told) (Command.begins_line _ _ _)

/-! ### Runners -/

namespace Runner

variable {r s : Runner}

/-- Whether a runner has the variables and the files of another one. -/
def Alike (r s : Runner) : Prop := r.environment = s.environment ∧ r.workspace = s.workspace

theorem Alike.trans {t : Runner} (first : r.Alike s) (second : s.Alike t) : r.Alike t :=
  ⟨first.1.trans second.1, first.2.trans second.2⟩

theorem Alike.outputPath?_eq (alike : r.Alike s) : r.outputPath? = s.outputPath? := by
  rw [outputPath?, outputPath?, alike.1]

theorem alike_issue (r : Runner) (command : Command) : (r.issue command).Alike r := ⟨rfl, rfl⟩

theorem alike_log (r : Runner) (record : Record) : (r.log record).Alike r := by
  unfold log
  split
  · exact ⟨rfl, rfl⟩
  · exact ⟨rfl, rfl⟩

/-- Whether nothing but notes has been written from one runner to another. -/
def Notes (r s : Runner) : Prop := ∃ notes, s.written.toList = r.written.toList ++ notes ∧ ∀ text ∈ notes, Note text

theorem Notes.refl (r : Runner) : r.Notes r := ⟨[], (List.append_nil _).symm, fun _ met => absurd met List.not_mem_nil⟩

theorem Notes.trans {t : Runner} (first : r.Notes s) (second : s.Notes t) : r.Notes t := by
  obtain ⟨earlier, written, each⟩ := first
  obtain ⟨later, written', each'⟩ := second
  refine ⟨earlier ++ later, ?_, fun text met => ?_⟩
  · rw [written', written, List.append_assoc]
  · exact (List.mem_append.mp met).elim (each text) (each' text)

theorem notes_write {text : String} (note : Note text) (r : Runner) : r.Notes (r.write text) :=
  ⟨[text], Array.toList_push, fun _ met => List.mem_singleton.mp met ▸ note⟩

theorem notes_log {level : Int} (mild : level < Record.errorLevel) {message : String} (opened : Begins openings message)
    (r : Runner) : r.Notes (r.log ⟨level, message⟩) := by
  unfold log
  split
  · exact notes_write (.record mild opened) r
  · exact .refl r

end Runner

/-! ### Pieces that only look -/

namespace Work

variable {ε α β : Type}

/-- Whether a piece of a run only looks at its runner. -/
structure Looks (w : Work ε α) : Prop where
  /-- It comes to the same on all runners that are alike. -/
  same : ∀ {r s : Runner}, r.Alike s → (w r).1 = (w s).1
  /-- It keeps the variables and the files. -/
  keeps : ∀ r : Runner, (w r).2.Alike r
  /-- It writes notes only. -/
  notes : ∀ r : Runner, r.Notes (w r).2

theorem looks_pure (a : α) : (pure a : Work ε α).Looks := ⟨fun _ => rfl, fun _ => ⟨rfl, rfl⟩, fun r => .refl r⟩

theorem looks_throw (e : ε) : (throw e : Work ε α).Looks := ⟨fun _ => rfl, fun _ => ⟨rfl, rfl⟩, fun r => .refl r⟩

theorem looks_liftM (x : Except ε α) : (liftM x : Work ε α).Looks :=
  ⟨fun _ => rfl, fun _ => ⟨rfl, rfl⟩, fun r => .refl r⟩

theorem looks_log {level : Int} (mild : level < Record.errorLevel) {message : String}
    (opened : Begins openings message) : (log level message : Work ε Unit).Looks :=
  ⟨fun _ => rfl, fun r => r.alike_log _, fun r => r.notes_log mild opened⟩

theorem looks_debug {message : String} (opened : Begins openings message) : (debug message : Work ε Unit).Looks :=
  looks_log (by decide) opened

/-- A piece that depends on variables and files. -/
theorem looks_get {next : Runner → Work ε β} (each : ∀ r, (next r).Looks)
    (same : ∀ {r s : Runner}, r.Alike s → next r = next s) : (get >>= next : Work ε β).Looks where
  same {r s} alike := ((each r).same alike).trans (congrArg (fun w => (w s).1) (same alike))
  keeps r := (each r).keeps r
  notes r := (each r).notes r

namespace Looks

variable {w : Work ε α} {next : α → Work ε β}

/-- A sequence comes to what its second piece comes to, on the runner that it starts from. -/
theorem outcome_bind (first : w.Looks) (second : ∀ a, (next a).Looks) (r : Runner) :
    ((w >>= next) r).1 = (w r).1 >>= fun a => (next a r).1 := by
  have keeps := first.keeps r
  rcases outcome : w r with ⟨_ | a, r'⟩
  · rw [bind_error outcome]
    rfl
  · rw [bind_ok outcome]
    rw [outcome] at keeps
    exact (second a).same keeps

theorem bind (first : w.Looks) (second : ∀ a, (next a).Looks) : (w >>= next).Looks where
  same {r s} alike := by
    rw [first.outcome_bind second, first.outcome_bind second, first.same alike]
    exact congrArg _ (funext fun a => (second a).same alike)
  keeps r := by
    have keeps := first.keeps r
    rcases outcome : w r with ⟨_ | a, r'⟩
    · rw [outcome] at keeps
      rw [bind_error outcome]
      exact keeps
    · rw [outcome] at keeps
      rw [bind_ok outcome]
      exact ((second a).keeps r').trans keeps
  notes r := by
    have notes := first.notes r
    rcases outcome : w r with ⟨_ | a, r'⟩
    · rw [outcome] at notes
      rw [bind_error outcome]
      exact notes
    · rw [outcome] at notes
      rw [bind_ok outcome]
      exact notes.trans ((second a).notes r')

/-- The pieces of a sequence that has a result. The first one comes to the same where the run began, and it leaves a
runner that is still like that one. -/
theorem exists_of_bind (first : w.Looks) {r start : Runner} (alike : r.Alike start) {b : β}
    (result : ((w >>= next) r).1 = .ok b) :
    ∃ a r', (w start).1 = .ok a ∧ r'.Alike start ∧ (next a r').1 = .ok b := by
  have same := first.same alike
  have keeps := (first.keeps r).trans alike
  rcases outcome : w r with ⟨e | a, r'⟩
  · rw [bind_error outcome] at result
    cases (show Except.error e = Except.ok b from result)
  · rw [bind_ok outcome] at result
    rw [outcome] at same keeps
    exact ⟨a, r', same.symm, keeps, result⟩

/-- A sequence has a result if its pieces have one, the first where the run began and the second on all runners that
are still like that one. -/
theorem ok_bind (first : w.Looks) {r start : Runner} (alike : r.Alike start) {a : α} {b : β}
    (here : (w start).1 = .ok a) (rest : ∀ r' : Runner, r'.Alike start → (next a r').1 = .ok b) :
    ((w >>= next) r).1 = .ok b := by
  have same := (first.same alike).trans here
  have keeps := (first.keeps r).trans alike
  rcases outcome : w r with ⟨e | _, r'⟩
  · rw [outcome] at same
    cases (show Except.error e = Except.ok a from same)
  · rw [outcome] at same keeps
    obtain rfl := Except.ok.inj same
    rw [bind_ok outcome]
    exact rest r' keeps

/-- What a piece leaves behind. -/
theorem leaves (looks : w.Looks) {r r' : Runner} {outcome : Except ε α} (result : w r = (outcome, r')) :
    r'.Alike r ∧ r.Notes r' := by
  have keeps := looks.keeps r
  have notes := looks.notes r
  rw [result] at keeps notes
  exact ⟨keeps, notes⟩

theorem outcome_grouped (looks : w.Looks) (name : String) (r : Runner) : (grouped name w r).1 = (w r).1 :=
  looks.same ⟨rfl, rfl⟩

theorem grouped (looks : w.Looks) (name : String) : (grouped name w).Looks where
  same {r s} alike := by rw [looks.outcome_grouped, looks.outcome_grouped, looks.same alike]
  keeps r := looks.keeps (r.issue ⟨"group", [], name⟩)
  notes r := ((r.notes_write (.group name)).trans (looks.notes _)).trans (Runner.notes_write .endgroup _)

theorem mapError {δ : Type} (looks : w.Looks) (rename : ε → δ) : (mapError rename w).Looks where
  same alike := congrArg (Except.mapError rename) (looks.same alike)
  keeps := looks.keeps
  notes := looks.notes

end Looks

end Work

end XPathAnnotator.Workflow
