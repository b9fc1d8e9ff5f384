/-
**The settings of a run.**

A run has four settings: the reports to look for, the files to ignore, the most annotations to show, and
the matchers that are described beside those that are built in. Each is given by a piece of plain data,
which `textsOf`, `countOf` and `entriesOf` check.

Settings come in layers: from the command line, from the inputs of the step, from a file, and the
defaults. A setting is taken from the first layer that gives it; a value that is null, false, zero or
empty does not count as given. `load` reads the inputs of the step and the file with settings, joins them
with what the command line gives, and records what it finds on the way.
-/

import XPathAnnotator.Data.Datum
import XPathAnnotator.Data.Json
import XPathAnnotator.Number.Dyadic
import XPathAnnotator.Text.Case
import XPathAnnotator.Text.Integer
import XPathAnnotator.Workflow.Runner

namespace XPathAnnotator

open XPathAnnotator.Data

/-- Why settings are not accepted. -/
inductive SettingsError where
  | notInteger (given : Setting)
  | negative (given : Setting)
  /-- The number is infinite. -/
  | infinite
  /-- An integer has more digits than can be read. -/
  | tooManyDigits (count : Nat)
  | notTexts (name : String)
  | matchersNotMapping
  | notMapping (path : String)
  | invalidJson
  | invalidYaml (path : String)

/-- The wording of an error of settings. -/
def SettingsError.message : SettingsError → String
  | notInteger given =>
    "Invalid max-annotations value " ++ given.shown ++ ", an integer is required"
  | negative given => "Invalid max-annotations value " ++ given.shown
  | infinite => "cannot convert float infinity to integer"
  | tooManyDigits count =>
    "Exceeds the limit (4300 digits) for integer string conversion: value has " ++ toString count ++
      " digits; use sys.set_int_max_str_digits() to increase the limit"
  | notTexts name => "Setting " ++ Text.quoted name ++ " must be a list of strings"
  | matchersNotMapping => "Setting 'custom_matchers' must be a mapping"
  | notMapping path => "The config file " ++ path ++ " must contain a mapping"
  | invalidJson => "Invalid custom-matchers JSON"
  | invalidYaml path => "Invalid YAML in " ++ path

/-- The settings of a run. -/
structure Settings where
  reports : List String
  ignored : List String
  maxAnnotations : Nat
  customMatchers : List (String × Setting)

namespace Settings

/-- The integer that plain data give, if they give one. A fraction is cut off. -/
def integerOf (given : Setting) : Except SettingsError Int :=
  match given with
  | .integer n => .ok n
  | .truth b => .ok (if b then 1 else 0)
  | .text t =>
    match Text.parseInteger? t with
    | some n => .ok n
    | none => .error (.notInteger given)
  | .number x =>
    match Number.Dyadic.ofFloat? x with
    | some d => .ok d.truncate
    | none => if x.isNaN then .error (.notInteger given) else .error .infinite
  | _ => .error (.notInteger given)

/-- The number of annotations that plain data give. -/
def countOf (given : Setting) : Except SettingsError Nat := do
  let n ← integerOf given
  if n < 0 then throw (.negative given) else return n.toNat

/-- The texts of a list, if all its items are texts. -/
def textItems? : List Setting → Option (List String)
  | [] => some []
  | .text t :: rest => (textItems? rest).map (t :: ·)
  | _ :: _ => none

/-- The texts that plain data give: a text alone, or a list of texts. -/
def textsOf (name : String) (given : Setting) : Except SettingsError (List String) :=
  match given with
  | .text t => .ok [t]
  | .list items =>
    match textItems? items with
    | some texts => .ok texts
    | none => .error (.notTexts name)
  | _ => .error (.notTexts name)

/-- The descriptions of matchers that plain data give. -/
def entriesOf (given : Setting) : Except SettingsError (List (String × Setting)) :=
  match given with
  | .mapping entries => .ok entries
  | _ => .error .matchersNotMapping

/-- A list of texts as plain data. -/
def textList (texts : List String) : Setting := .list (texts.map Datum.text)

/-- The form of settings in messages. -/
def shown (s : Settings) : String :=
  "Config(reports=" ++ (textList s.reports).shown ++ ", ignore=" ++ (textList s.ignored).shown ++
    ", max_annotations=" ++ toString s.maxAnnotations ++ ", custom_matchers=" ++
    Setting.shown (.mapping s.customMatchers) ++ ")"

end Settings

end XPathAnnotator

namespace XPathAnnotator.Settings

open XPathAnnotator.Data XPathAnnotator.Workflow

/-! ### Layers of settings -/

/-- The names of the settings of a run. -/
inductive Key where
  | reports
  | ignored
  | maxAnnotations
  | customMatchers
deriving DecidableEq

namespace Key

/-- All settings of a run. -/
def all : List Key := [reports, ignored, maxAnnotations, customMatchers]

/-- The name of a setting. -/
def title : Key → String
  | reports => "reports"
  | ignored => "ignore"
  | maxAnnotations => "max_annotations"
  | customMatchers => "custom_matchers"

/-- The names of settings in files. Those of two words are written in three ways. -/
def names : List (String × Key) :=
  all.map (fun key => (key.title, key)) ++
    [("maxAnnotations", maxAnnotations), ("max-annotations", maxAnnotations),
      ("customMatchers", customMatchers), ("custom-matchers", customMatchers)]

/-- The value of a setting that no other layer gives. -/
def default : Key → Setting
  | reports => .list [.text "junit|junit/*.xml"]
  | ignored => .list [.text "node_modules/**", .text "dist/**"]
  | maxAnnotations => .integer 50
  | customMatchers => .mapping []

end Key

/-- The settings that one source gives, in its order. -/
abbrev Layer := List (Key × Setting)

/-- A layer as plain data. -/
def Layer.toSetting (layer : Layer) : Setting :=
  .mapping (layer.map fun (key, value) => (key.title, value))

/-- The value that a layer gives for a setting. -/
def Layer.given? (layer : Layer) (key : Key) : Option Setting :=
  (layer.lookup key).filter Datum.isGiven

/-- The value of a setting in the first layer that gives it, or the default. -/
def choose (layers : List Layer) (key : Key) : Setting :=
  (layers.findSome? fun layer => layer.given? key).getD key.default

/-- The settings that layers give together. -/
def ofLayers (layers : List Layer) : Except SettingsError Settings := do
  let customMatchers ← entriesOf (choose layers .customMatchers)
  let reports ← textsOf "reports" (choose layers .reports)
  let ignored ← textsOf "ignore" (choose layers .ignored)
  let maxAnnotations ← countOf (choose layers .maxAnnotations)
  return { reports, ignored, maxAnnotations, customMatchers }

/-! ### Inputs of a step -/

/-- The variable that holds an input. -/
def inputVariable (name : String) : String :=
  "INPUT_" ++ Text.toUpper (name.map fun c => if c = ' ' then '_' else c)

/-- An input of a step without white space at its ends, empty if it is not there. -/
def input (environment : List (String × String)) (name : String) : String :=
  Text.trimSpaces ((environment.lookup (inputVariable name)).getD "")

/-- The lines of an input that are not empty, without white space at their ends. -/
def inputLines (environment : List (String × String)) (name : String) : List String :=
  ((Text.lines (input environment name)).map Text.trimSpaces).filter (· != "")

/-- The descriptions of matchers in an input. -/
def readMatchers (text : String) : Except SettingsError Setting :=
  match Json.parse text with
  | .ok value => .ok value
  | .error .malformed => .error .invalidJson
  | .error (.tooManyDigits count) => .error (.tooManyDigits count)

/-- The settings that the inputs of a step give. -/
def inputLayer (environment : List (String × String)) : Except SettingsError Layer := do
  let count := input environment "max-annotations"
  let matchers := input environment "custom-matchers"
  let maxAnnotations ← if count.isEmpty then pure .null
    else (countOf (.text count)).map fun n => Datum.integer n
  let customMatchers ← if matchers.isEmpty then pure .null else readMatchers matchers
  return [(.reports, textList (inputLines environment "reports")),
    (.ignored, textList (inputLines environment "ignore")),
    (.maxAnnotations, maxAnnotations), (.customMatchers, customMatchers)]

/-! ### Loading the settings of a run -/

/-- What a command line gives: the path of the file with settings, and a layer. -/
structure Overrides where
  configPath : String := ""
  layer : Layer := []

/-- The path of the file with settings if no other is given. -/
def defaultPath : String := ".github/report-annotate.yml"

/-- Enters the settings of a file into a layer. Unknown ones are passed over with a warning. -/
def enterAll (path : String) (layer : Layer) :
    List (String × Setting) → Work SettingsError Layer
  | [] => return layer
  | (name, value) :: rest =>
    match Key.names.lookup name with
    | some key => enterAll path (Datum.put key value layer) rest
    | none => do
      Work.warn ("Unknown setting " ++ Text.quoted name ++ " in " ++ path)
      enterAll path layer rest

/-- The settings that a file gives; a file that is not there gives none. -/
def fileLayer (path : String) : Work SettingsError Layer := do
  match (← get).workspace.read path with
  | .error _ =>
    Work.info ("No config file found at " ++ path ++ ".")
    return []
  | .ok text =>
    Work.info ("Using config file at " ++ path)
    match Json.parseYaml text with
    | .error .malformed => throw (.invalidYaml path)
    | .error (.tooManyDigits count) => throw (.tooManyDigits count)
    | .ok .null => return []
    | .ok (.mapping entries) => enterAll path [] entries
    | .ok _ => throw (.notMapping path)

/-- The path of the file with settings: the first that is given. -/
def pathOf (overrides : Overrides) (environment : List (String × String)) : String :=
  let given := input environment "configPath"
  if overrides.configPath != "" then overrides.configPath
  else if given != "" then given
  else defaultPath

/-- The settings of a run. -/
def load (overrides : Overrides) : Work SettingsError Settings := do
  let environment := (← get).environment
  let inputs ← liftM (inputLayer environment)
  Work.debug ("Parsed inputs: " ++ Data.Json.pretty inputs.toSetting)
  let file ← fileLayer (pathOf overrides environment)
  Work.debug ("Parsed yaml config: " ++ Data.Json.pretty file.toSetting)
  let settings ← liftM (ofLayers [overrides.layer, inputs, file])
  Work.debug ("Final config: " ++ settings.shown)
  return settings

end XPathAnnotator.Settings
