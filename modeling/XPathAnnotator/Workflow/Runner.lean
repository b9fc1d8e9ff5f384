/-
**What a run does to its runner.**

`Runner` holds what a run can see and change: the variables of its environment, its files, and the text
written so far. `Work` is a piece of a run, which may end with an error; what was written before stays
written. `Work.grouped` puts what a piece writes into a group, which is closed however the piece ends.
-/

import XPathAnnotator.Path.Workspace
import XPathAnnotator.Workflow.Command

namespace XPathAnnotator.Workflow

open XPathAnnotator.Data

/-- The variables, the files and the output of a run. -/
structure Runner where
  environment : List (String × String)
  workspace : Workspace
  /-- Whether records for finding faults are shown. -/
  showsDebug : Bool
  /-- The line that stands before and after a value in the file of outputs. -/
  delimiter : String
  /-- The texts written so far, each of which ends a line. -/
  written : Array String := #[]

namespace Runner

/-- Writes a text and ends the line. -/
def write (r : Runner) (text : String) : Runner := { r with written := r.written.push text }

/-- Gives a command. -/
def issue (r : Runner) (command : Command) : Runner := r.write command.line

/-- The level from which on records are shown. -/
def shownLevel (r : Runner) : Int := if r.showsDebug then Record.debugLevel else Record.infoLevel

/-- Writes a record, unless it is below the level that is shown. -/
def log (r : Runner) (record : Record) : Runner :=
  if r.shownLevel ≤ record.level then r.write record.text else r

/-- The lines written so far; after the last end of a line there is an empty one. -/
def lines (r : Runner) : List String :=
  Text.pieces '\n' (String.join (r.written.toList.map (· ++ "\n")))

/-- The value of a variable. -/
def valueOf? (r : Runner) (name : String) : Option String := r.environment.lookup name

/-- The file that outputs are added to. -/
def outputPath? (r : Runner) : Option String :=
  (r.environment.lookup "GITHUB_OUTPUT").filter fun path => !path.isEmpty

/-- What the file of outputs holds. -/
def outputText? (r : Runner) : Option String :=
  r.outputPath?.bind fun path =>
    match r.workspace.read path with
    | .ok content => some content
    | .error _ => none

/-- Sets an output: in the file of outputs, or by a command if there is no such file. -/
def setOutput (r : Runner) (name : String) (value : Setting) : Except FileError Runner :=
  let text := Command.valueText value
  match r.outputPath? with
  | none => .ok (r.issue ⟨"set-output", [("name", .text name)], text⟩)
  | some path => do
    let entry := name ++ "<<" ++ r.delimiter ++ "\n" ++ text ++ "\n" ++ r.delimiter ++ "\n"
    return { r with workspace := ← r.workspace.append path entry }

end Runner

/-- A piece of a run. -/
abbrev Work (ε : Type) := ExceptT ε (StateM Runner)

namespace Work

variable {ε α : Type}

/-- Gives a command. -/
def issue (command : Command) : Work ε Unit := modify fun r => r.issue command

/-- Writes a record of a level. -/
def log (level : Int) (message : String) : Work ε Unit := modify fun r => r.log ⟨level, message⟩

/-- Writes a record for finding faults. -/
def debug (message : String) : Work ε Unit := log Record.debugLevel message

/-- Writes a record on what is being done. -/
def info (message : String) : Work ε Unit := log Record.infoLevel message

/-- Writes a warning. -/
def warn (message : String) : Work ε Unit := log Record.warningLevel message

/-- A piece of a run whose lines are put into a group. -/
def grouped (name : String) (body : Work ε α) : Work ε α := fun r =>
  let (result, r) := body (r.issue ⟨"group", [], name⟩)
  (result, r.issue ⟨"endgroup", [], ""⟩)

/-- A piece of a run with its errors renamed. -/
def mapError {δ : Type} (rename : ε → δ) (body : Work ε α) : Work δ α := fun r =>
  let (result, r) := body r
  (result.mapError rename, r)

end Work

end XPathAnnotator.Workflow
