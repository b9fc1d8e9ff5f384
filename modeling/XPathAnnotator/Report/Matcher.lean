/-
**Matchers.**

A matcher says by expressions which items of a report are shown, how severe they are, and what is shown
for them. `Matcher.ofSetting` reads one from settings, `Matcher.builtIn` are those for reports in the
format of JUnit and of the tools that write it in their own way.
-/

import XPathAnnotator.Report.Finding

namespace XPathAnnotator.Report

open XPathAnnotator.Data

/-- What is done with an item: it is passed over, or shown. -/
inductive ItemLevel where
  | ignored
  | shown (severity : Severity)
deriving DecidableEq

/-- The name of a level. -/
def ItemLevel.title : ItemLevel → String
  | ignored => "ignore"
  | shown severity => severity.title

/-- The level of a name. -/
def ItemLevel.ofTitle? (title : String) : Option ItemLevel :=
  if title = "ignore" then some .ignored else (Severity.ofTitle? title).map .shown

/-- The expressions that take findings from a report. -/
structure Matcher where
  /-- The format of the reports. -/
  format : Option String := some "xml"
  /-- The expression that selects the items. -/
  item : String
  /-- The expression of the message. -/
  message : Option String := some ""
  /-- Levels with the conditions under which items have them; the first condition that holds counts. -/
  levels : List (ItemLevel × String) := []
  title : Option String := none
  file : Option String := none
  startLine : Option String := none
  endLine : Option String := none
  startColumn : Option String := none
  endColumn : Option String := none

/-- Why a matcher cannot be used. -/
inductive MatcherError where
  | notMapping (given : Setting)
  | unknownField (name : String)
  | notText (name : String) (given : Setting)
  | notLevels (given : Setting)
  | missingItem
  | unknownLevel (name : String)
  | unknownMatcher (name : String)
  | unsupportedFormat (name : String) (format : Option String)

/-- The wording of an error of matchers. -/
def MatcherError.message : MatcherError → String
  | notMapping given => "A report matcher must be a mapping, not " ++ given.shown
  | unknownField name => "Unknown report matcher field " ++ Text.quoted name
  | notText name given =>
    "The " ++ Text.quoted name ++ " field of a report matcher must be a string, not " ++ given.shown
  | notLevels given =>
    "The 'level' field of a report matcher must be a mapping from levels to expressions, not " ++
      given.shown
  | missingItem => "Missing 'item' expression in report matcher"
  | unknownLevel name => "Unknown annotation level " ++ Text.quoted name
  | unknownMatcher name => "No matcher found for " ++ name
  | unsupportedFormat name format =>
    "Unsupported matcher format in " ++ name ++ ": " ++ format.getD "None"

namespace Matcher

/-- A field of a matcher in settings. -/
inductive Field where
  | format
  | item
  | message
  | level
  | property (p : Property)
deriving DecidableEq

/-- The names of fields in settings. Those of two words are written in two ways. -/
def fieldNames : List (String × Field) :=
  [("format", .format), ("item", .item), ("message", .message), ("level", .level)] ++
    Property.all.map (fun p => (p.key, .property p)) ++
    [("startLine", .property .startLine), ("endLine", .property .endLine),
      ("startColumn", .property .startColumn), ("endColumn", .property .endColumn)]

/-- The expression of a property. -/
def expressionOf (m : Matcher) : Property → Option String
  | .title => m.title
  | .file => m.file
  | .startLine => m.startLine
  | .endLine => m.endLine
  | .startColumn => m.startColumn
  | .endColumn => m.endColumn

/-- The texts of a mapping, if all its values are texts. -/
def textEntries? : List (String × Setting) → Option (List (String × String))
  | [] => some []
  | (key, .text value) :: rest => (textEntries? rest).map ((key, value) :: ·)
  | _ :: _ => none

/-- The levels that a setting gives with their conditions, by their names. -/
def levelTexts : Setting → Except MatcherError (List (String × String))
  | .null => .ok []
  | .mapping entries =>
    match textEntries? entries with
    | some levels => .ok levels
    | none => .error (.notLevels (.mapping entries))
  | given => .error (.notLevels given)

/-- What the entries of a setting give for a matcher. -/
structure Draft where
  texts : List (Field × Option String) := []
  levels : List (String × String) := []

/-- Takes up an entry of a setting. A field that is given twice has the later value. -/
def Draft.enter (draft : Draft) (name : String) (value : Setting) : Except MatcherError Draft :=
  match fieldNames.lookup name with
  | none => .error (.unknownField name)
  | some .level => (levelTexts value).map fun levels => { draft with levels }
  | some field =>
    match value with
    | .null => .ok { draft with texts := Datum.put field none draft.texts }
    | .text text => .ok { draft with texts := Datum.put field (some text) draft.texts }
    | value => .error (.notText name value)

/-- The levels of names with their conditions. -/
def namedLevels : List (String × String) → Except MatcherError (List (ItemLevel × String))
  | [] => .ok []
  | (name, condition) :: rest =>
    match ItemLevel.ofTitle? name with
    | some level => (namedLevels rest).map ((level, condition) :: ·)
    | none => .error (.unknownLevel name)

/-- The matcher of a draft. It must have an expression for its items. -/
def Draft.toMatcher (draft : Draft) : Except MatcherError Matcher := do
  let text (field : Field) (default : Option String) := (draft.texts.lookup field).getD default
  match text .item none with
  | none | some "" => .error .missingItem
  | some item =>
    return {
      format := text .format (some "xml")
      item
      message := text .message (some "")
      levels := ← namedLevels draft.levels
      title := text (.property .title) none
      file := text (.property .file) none
      startLine := text (.property .startLine) none
      endLine := text (.property .endLine) none
      startColumn := text (.property .startColumn) none
      endColumn := text (.property .endColumn) none }

/-- The matcher that a setting describes. -/
def ofSetting : Setting → Except MatcherError Matcher
  | .mapping entries => do
    let draft ← entries.foldlM (fun (d : Draft) entry => d.enter entry.1 entry.2) {}
    draft.toMatcher
  | given => .error (.notMapping given)

/-- A text that may be missing, as a setting. -/
def optional (text : Option String) : Setting := (text.map Datum.text).getD .null

/-- A matcher as settings describe it. -/
def entries (m : Matcher) : List (String × Setting) :=
  [("format", optional m.format), ("item", .text m.item), ("message", optional m.message),
    ("level", .mapping (m.levels.map fun (level, condition) => (level.title, .text condition)))] ++
    Property.all.map fun p => (p.key, optional (m.expressionOf p))

/-- The form of a matcher in messages. -/
def shown (m : Matcher) : String :=
  "ReportMatcher(format=" ++ (optional m.format).shown ++ ", item=" ++ Text.quoted m.item ++ ")"

/-- Whether two matchers are the same but for the order of their levels. -/
def isSameAs (m n : Matcher) : Bool :=
  m.format = n.format && m.item = n.item && m.message = n.message && m.levels.isPerm n.levels &&
    Property.all.all fun p => m.expressionOf p = n.expressionOf p

/-! ### Matchers for JUnit reports -/

/-- Tests that passed are passed over, and those that were skipped are mentioned. -/
def junitLevels : List (ItemLevel × String) :=
  [(.ignored, "not(failure) and not(skipped) and not(error)"), (.shown .notice, "skipped")]

/-- The matcher for JUnit reports. -/
def junit : Matcher where
  item := "//testcase"
  levels := junitLevels
  message := some (
    "\n            if(error, normalize(concat(error/@message, \" \n \", error/text())),\n" ++
    "                if(skipped, skipped/@message,\n" ++
    "                    normalize(concat(failure/@message, \" \n \", failure/text()))\n" ++
    "                )\n            )")
  title := some "concat(@classname, \" - \", @name)"
  file := some "@file"
  startLine := some "@line"

/-- The matcher for reports of ESLint. -/
def eslint : Matcher where
  item := "//testcase"
  levels := [(.shown .warning, "contains(failure/text(), \"Warning - \")")]
  message := some "failure/@message"
  title := some "replace(@name, 'org\\.eslint\\.', '')"
  file := some "parent::testsuite/@name"
  startLine := some "match(failure, 'line (\\d+)')"
  startColumn := some "match(failure, 'col (\\d+)')"

/-- The matcher for reports of Jest, which writes places at the ends of lines. -/
def jest : Matcher where
  item := "//testcase"
  levels := junitLevels
  message := some (
    "\n            if(error, normalize(concat(error/@message, \" \n \", error/text())),\n" ++
    "                if(skipped, skipped/@message,\n" ++
    "                    normalize(failure/text())\n" ++
    "                )\n            )")
  title := some "@name"
  file := some "@file"
  startLine := some "match(failure, '.*.spec.\\w\x7b2,3\x7d:(\\d+):.*')"
  startColumn := some "match(failure, '.*.spec.\\w\x7b2,3\x7d:\\d+:(\\d+).*')"

/-- The matchers that need not be described. -/
def builtIn : List (String × Matcher) :=
  [("junit", junit), ("junit-eslint", eslint), ("junit-jest", jest)]

/-- The matchers of a run: those that are built in, and those that settings describe, which replace the
ones of their names. -/
def table (custom : List (String × Setting)) : Except MatcherError (List (String × Matcher)) :=
  custom.foldlM (fun matchers (name, setting) => do
    return Datum.put name (← ofSetting setting) matchers) builtIn

end Matcher

end XPathAnnotator.Report
