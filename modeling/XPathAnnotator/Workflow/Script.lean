/-
**Scripts of commands.**

A script is a list of steps, each with a name and arguments that are plain data: findings, commands,
outputs, failures, records, and groups around a notice. `perform` makes a step. Arguments at the
end may be left out.
-/

import XPathAnnotator.Report.Finding
import XPathAnnotator.Workflow.Runner

namespace XPathAnnotator.Workflow

open XPathAnnotator.Data XPathAnnotator.Report

/-- Why a step of a script fails. -/
inductive ScriptError where
  | unknownStep
  | file (error : FileError)
  /-- The group was left with an error. -/
  | left (message : String)

/-- The entries of a mapping, none for other plain data. -/
def entriesOf : Setting → List (String × Setting)
  | .mapping entries => entries
  | _ => []

/-- The properties that plain data give to a finding. Unknown ones are passed over. -/
def propertiesOf (given : Setting) : List (Property × Setting) :=
  (entriesOf given).filterMap fun (key, value) => (Property.ofKey? key).map fun p => (p, value)

/-- What a group in a script writes, and the error that it may be left with. -/
def groupBody (failure : Setting) : Work ScriptError Unit := do
  Work.issue ⟨"notice", [], "inside"⟩
  match failure with
  | .text message => throw (.left message)
  | _ => return

/-- The level of a record. -/
def levelOf : Setting → Int
  | .integer level => level
  | _ => 0

/-- A step that always comes to its end. -/
def change (f : Runner → Runner) : Work ScriptError Unit := modify f

/-- Makes a step of a script. -/
def perform (step : String) (arguments : List Setting) : Work ScriptError Unit :=
  let argument (k : Nat) := arguments.getD k .null
  match step with
  | "issue_command" =>
    let message := arguments.getD 2 (.text "")
    Work.issue ⟨(argument 0).toText, entriesOf (argument 1), message.toText⟩
  | "set_output" => do
    set (← liftM (((← get).setOutput (argument 0).toText (argument 1)).mapError ScriptError.file))
  | "set_failed" => Work.issue ⟨"error", [], (argument 0).toText⟩
  | "setup" => change fun r => { r with showsDebug := (argument 0).isGiven }
  | "log" =>
    match Record.fillPlaces? (argument 1).toText (arguments.drop 2) with
    | some message => Work.log (levelOf (argument 0)) message
    | none => return
  | "group" => Work.grouped (argument 0).toText (groupBody (argument 1))
  | step =>
    match Severity.ofTitle? step with
    | some severity =>
      Work.issue (Finding.command ⟨severity, (argument 0).toText, propertiesOf (argument 1)⟩)
    | none => throw .unknownStep

/-- Makes the steps of a script one after the other, and tells how each has ended. -/
def performAll (r : Runner) : List (String × List Setting) → List (Except ScriptError Unit) × Runner
  | [] => ([], r)
  | (step, arguments) :: rest =>
    let (result, r) := perform step arguments r
    let (results, r) := performAll r rest
    (result :: results, r)

end XPathAnnotator.Workflow
