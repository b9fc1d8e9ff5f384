/-
**The program.**

The program is called as a step of a workflow calls it: with options, and with inputs in variables. The
files of the workspace come as one line of JSON on the standard input, an object with their contents under
their paths. What the run writes goes to the standard output; if it has changed the file of outputs, the
path and the new contents go to the standard error as an object of the same form.
-/

import XPathAnnotator.CommandLine

namespace XPathAnnotator.CommandLine

open XPathAnnotator.Data XPathAnnotator.Workflow

/-- The variables that a run looks at. -/
def variableNames : List String :=
  ["INPUT_REPORTS", "INPUT_IGNORE", "INPUT_MAX-ANNOTATIONS", "INPUT_CUSTOM-MATCHERS",
    "INPUT_CONFIGPATH", "GITHUB_OUTPUT", "RUNNER_DEBUG"]

/-- The variables that are set, with their values. -/
def readEnvironment : List String → IO (List (String × String))
  | [] => return []
  | name :: rest => do
    let others ← readEnvironment rest
    match ← IO.getEnv name with
    | some value => return (name, value) :: others
    | none => return others

/-- The files that an object gives by their paths. -/
def filesOf : Option Setting → List (String × String)
  | some (.mapping entries) => entries.map fun (path, content) => (path, Setting.toText content)
  | _ => []

/-- The workspace on the standard input, which is read only if there is something to run. -/
def readWorkspace (args : List String) : IO Workspace := do
  match parse args with
  | .run _ => return .ofFiles (filesOf (Json.parse? (← (← IO.getStdin).getLine)))
  | _ => return .empty

/-- A line that no value is likely to have in it. -/
def makeDelimiter : IO String := do
  let first ← IO.rand 0 999999999
  let second ← IO.rand 0 999999999
  return "ghadelimiter_" ++ toString first ++ "-" ++ toString second

/-- Writes what a run has written, and what it has added to its outputs. -/
def report (outcome : Outcome) (before : Option String) : IO Unit := do
  for text in outcome.runner.written do
    IO.println text
  match outcome.runner.outputPath?, outcome.runner.outputText? with
  | some path, some after =>
    if before ≠ some after then IO.eprintln (Json.compact (.mapping [(path, .text after)]))
  | _, _ => return

end XPathAnnotator.CommandLine

open XPathAnnotator XPathAnnotator.CommandLine in
/-- Does what the command line asks for. -/
def main (args : List String) : IO UInt32 := do
  let environment ← readEnvironment variableNames
  let workspace ← readWorkspace args
  let delimiter ← makeDelimiter
  let start : Workflow.Runner := { environment, workspace, showsDebug := false, delimiter }
  let outcome := perform args environment workspace delimiter
  report outcome start.outputText?
  if outcome.code = 2 then IO.eprintln usageText
  return outcome.code.toUInt32
