/-
**Commands for the runner of a workflow, and records of what a run does.**

A step of a workflow talks to its runner in lines such as `::error file=a.py,line=3::message`. Line ends
and percent signs of the message are escaped, and in the values of properties also the colons and commas
that divide a command, so one command is one line whatever its texts are.

A record has a level and a message. From level 20 on it is shown as it is, from 30 on as a warning and
from 40 on as an error; below it is a record for finding faults. `fillPlaces?` writes values into the
places that a message leaves for them.
-/

import XPathAnnotator.Data.Datum
import XPathAnnotator.Number.Dyadic

namespace XPathAnnotator.Workflow

open XPathAnnotator.Data

/-- A command with its properties in order and its message. A property without a value is not written. -/
structure Command where
  name : String
  properties : List (String × Setting)
  message : String

namespace Command

/-- A character as a message holds it. -/
def escapedInMessage : Char → List Char
  | '%' => ['%', '2', '5']
  | '\r' => ['%', '0', 'D']
  | '\n' => ['%', '0', 'A']
  | c => [c]

/-- A character as the value of a property holds it. -/
def escapedInProperty : Char → List Char
  | ':' => ['%', '3', 'A']
  | ',' => ['%', '2', 'C']
  | c => escapedInMessage c

/-- A text as a message holds it. -/
def escapeMessage (text : String) : String := String.ofList (text.toList.flatMap escapedInMessage)

/-- A text as the value of a property holds it. -/
def escapeProperty (text : String) : String := String.ofList (text.toList.flatMap escapedInProperty)

/-- The text of a value. A number without a fraction is written as an integer. -/
def valueText : Setting → String
  | .number x =>
    match Number.Dyadic.ofFloat? x with
    | some d => if d.isInteger then toString d.truncate else Number.shown x
    | none => Number.shown x
  | value => value.toText

/-- A property as it is written. -/
def propertyText (property : String × Setting) : Option String :=
  match property.2 with
  | .null => none
  | value => some (property.1 ++ "=" ++ escapeProperty (valueText value))

/-- The line of a command. -/
def line (c : Command) : String :=
  let properties := c.properties.filterMap propertyText
  "::" ++ c.name ++ (if properties.isEmpty then "" else " " ++ String.intercalate "," properties) ++
    "::" ++ escapeMessage c.message

end Command

/-! ### Records -/

open XPathAnnotator.Data

/-- A record of a run. -/
structure Record where
  level : Int
  message : String

namespace Record

/-- The level of records for finding faults. -/
def debugLevel : Int := 10

/-- The level of records on what is being done. -/
def infoLevel : Int := 20

/-- The level of warnings. -/
def warningLevel : Int := 30

/-- The level of errors. -/
def errorLevel : Int := 40

/-- What is written for a record. -/
def text (r : Record) : String :=
  if errorLevel ≤ r.level then (Command.mk "error" [] r.message).line
  else if warningLevel ≤ r.level then (Command.mk "warning" [] r.message).line
  else if infoLevel ≤ r.level then r.message
  else (Command.mk "debug" [] r.message).line

/-- The text of a value in a place of a message: as a text, in its form in messages, or as an integer. -/
def placeText? (kind : Char) (value : Setting) : Option String :=
  match kind, value with
  | 's', value => some value.toText
  | 'r', value => some value.shown
  | 'd', .integer n => some (toString n)
  | 'd', .truth b => some (if b then "1" else "0")
  | 'd', .number x => (Number.Dyadic.ofFloat? x).map fun d => toString d.truncate
  | 'i', .integer n => some (toString n)
  | _, _ => none

/-- A message with values written into its places in order, if there is a place for each. -/
def fillFrom? : List Char → List Setting → Option (List Char)
  | [], [] => some []
  | [], _ :: _ => none
  | '%' :: '%' :: rest, values => (fillFrom? rest values).map ('%' :: ·)
  | '%' :: kind :: rest, value :: values => do
    let written ← placeText? kind value
    return written.toList ++ (← fillFrom? rest values)
  | '%' :: _, _ => none
  | c :: rest, values => (fillFrom? rest values).map (c :: ·)

/-- The message that a template and its values give. Without values a template is the message. -/
def fillPlaces? (template : String) (values : List Setting) : Option String :=
  if values.isEmpty then some template else (fillFrom? template.toList values).map String.ofList

end Record

end XPathAnnotator.Workflow
