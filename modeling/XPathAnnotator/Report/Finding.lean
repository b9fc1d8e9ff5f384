/-
**Findings.**

A finding is what a run shows for an item of a report: how severe it is, a message, and properties
that say where the item belongs. `Finding.command` is the command that shows it, `bySeverity` brings
the severe ones to the front without changing the order of equals.
-/

import XPathAnnotator.Workflow.Command

namespace XPathAnnotator.Report

open XPathAnnotator.Data XPathAnnotator.Workflow

/-- How severe a finding is. -/
inductive Severity where
  | error
  | warning
  | notice
deriving DecidableEq

namespace Severity

/-- All severities, the gravest first. -/
def all : List Severity := [error, warning, notice]

/-- The name of a severity. -/
def title : Severity → String
  | error => "error"
  | warning => "warning"
  | notice => "notice"

/-- The severity of a name. -/
def ofTitle? (title : String) : Option Severity := all.find? fun s => s.title == title

/-- The rank of a severity, less for the graver one. -/
def rank : Severity → Nat
  | error => 0
  | warning => 1
  | notice => 2

end Severity

/-- What a finding may say beside its message. -/
inductive Property where
  | title
  | file
  | startLine
  | endLine
  | startColumn
  | endColumn
deriving DecidableEq

namespace Property

/-- All properties, in the order in which they are written. -/
def all : List Property := [title, file, startLine, endLine, startColumn, endColumn]

/-- The name of a property in settings. -/
def key : Property → String
  | title => "title"
  | file => "file"
  | startLine => "start_line"
  | endLine => "end_line"
  | startColumn => "start_column"
  | endColumn => "end_column"

/-- The name of a property in commands. -/
def commandKey : Property → String
  | title => "title"
  | file => "file"
  | startLine => "line"
  | endLine => "endLine"
  | startColumn => "col"
  | endColumn => "endColumn"

/-- The property of a name in settings. -/
def ofKey? (key : String) : Option Property := all.find? fun p => p.key == key

/-- Whether a property is a number. -/
def isNumber : Property → Bool
  | title | file => false
  | _ => true

end Property

/-- What is shown for an item of a report. -/
structure Finding where
  severity : Severity
  message : String
  properties : List (Property × Setting)

namespace Finding

/-- The properties that are given, by their names in commands and in the order in which they are
written. -/
def commandProperties (properties : List (Property × Setting)) : List (String × Setting) :=
  Property.all.filterMap fun p =>
    match properties.lookup p with
    | some .null | none => none
    | some value => some (p.commandKey, value)

/-- The command that shows a finding. -/
def command (a : Finding) : Command :=
  ⟨a.severity.title, commandProperties a.properties, a.message⟩

/-- Findings with the graver ones first; those of one severity keep their order. -/
def bySeverity (findings : List Finding) : List Finding :=
  findings.mergeSort fun a b => a.severity.rank ≤ b.severity.rank

end Finding

end XPathAnnotator.Report
