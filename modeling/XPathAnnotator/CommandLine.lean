/-
**The command line.**

Options are written with one dash and a letter or with two dashes and a name, which may be cut short as
long as it stays clear which one is meant. `parse` reads a command line as a whole before anything is
done, `perform` does what it asks for.
-/

import XPathAnnotator.Run.Annotate

namespace XPathAnnotator.CommandLine

open XPathAnnotator XPathAnnotator.Data XPathAnnotator.Workflow

/-- What an option of the command line is for. -/
inductive Switch where
  | help
  | version
  | config
  | reports
  | ignored
  | maxAnnotations
  | customMatchers
  | verbose
deriving DecidableEq

/-- Whether an option has a value. -/
def Switch.takesValue : Switch → Bool
  | .help | .version | .verbose => false
  | _ => true

/-- The options as they are written. -/
def switches : List (String × Switch) :=
  [("-h", .help), ("--help", .help), ("--version", .version), ("-c", .config), ("--config", .config),
    ("-r", .reports), ("--reports", .reports), ("-i", .ignored), ("--ignore", .ignored),
    ("-m", .maxAnnotations), ("--max-annotations", .maxAnnotations),
    ("--custom-matchers", .customMatchers), ("-v", .verbose), ("--verbose", .verbose)]

/-- Why a value of an option is not accepted. -/
inductive ValueError where
  | notInteger (text : String)
  | negative
  | invalidJson
  | notMapping
  /-- An integer has more digits than can be read. -/
  | tooManyDigits (count : Nat)

/-- The wording of an error on a value. -/
def ValueError.message : ValueError → String
  | notInteger text => "invalid integer " ++ Text.quoted text
  | negative => "a non-negative integer is required"
  | invalidJson => "invalid JSON"
  | notMapping => "a JSON object is required"
  | tooManyDigits count => (SettingsError.tooManyDigits count).message

/-- The number that a text is written for. -/
def countOf (text : String) : Except ValueError Nat :=
  match Text.parseInteger? text with
  | none => .error (.notInteger text)
  | some n => if n < 0 then .error .negative else .ok n.toNat

/-- The mapping that a text is written for. -/
def mappingOf (text : String) : Except ValueError Setting :=
  match Json.parse text with
  | .ok (.mapping entries) => .ok (.mapping entries)
  | .ok _ => .error .notMapping
  | .error .malformed => .error .invalidJson
  | .error (.tooManyDigits count) => .error (.tooManyDigits count)

/-! ### Arguments -/

/-- An argument by what it may be: an option, perhaps with a value after an equals sign; the letter of an
option with other characters behind it; something with a dash that is no option; a word; or two dashes,
after which only words come. -/
inductive Argument where
  | option (which : Switch) (value : Option String)
  | letters (which : Switch) (others : List Char)
  | unknown
  | word (text : String)
  | dashes

/-- Whether a text is a negative number. -/
def isNegativeNumber (text : String) : Bool :=
  match text.toList with
  | '-' :: rest =>
    match rest.dropWhile Text.isDigit with
    | [] => !rest.isEmpty
    | '.' :: fraction => !fraction.isEmpty && fraction.all Text.isDigit
    | _ => false
  | _ => false

/-- The options that a text with two dashes may stand for. -/
def namedBy (name : String) : List Switch :=
  (switches.filter fun entry => Text.startsWith entry.1 name).map Prod.snd

/-- What an argument that begins with a dash is if it is no option as it is written: the short form of
one, none if it may be the short form of more than one. -/
def ofShortened (text name : String) (value : Option String) : Option Argument :=
  let otherwise :=
    if isNegativeNumber text || text.toList.contains ' ' then .word text else .unknown
  if Text.startsWith text "--" then
    match namedBy name with
    | [] => some otherwise
    | [which] => some (.option which value)
    | _ => none
  else
    match switches.lookup (String.ofList (text.toList.take 2)) with
    | some which => some (.letters which (text.toList.drop 2))
    | none => some otherwise

/-- What an argument that begins with a dash is, none if more than one option is meant. -/
def ofDashed (text : String) : Option Argument :=
  match switches.lookup text with
  | some which => some (.option which none)
  | none =>
    if text = "-" then some (.word text)
    else match Text.cutAt? '=' text with
      | none => ofShortened text text none
      | some (name, value) =>
        match switches.lookup name with
        | some which => some (.option which (some value))
        | none => ofShortened text name (some value)

/-- The arguments of a command line, none if one of them may be more than one option. -/
def argumentsOf : List String → Option (List Argument)
  | [] => some []
  | text :: rest =>
    if text = "--" then some (.dashes :: rest.map .word)
    else do
      let argument ← if text.toList.head? = some '-' then ofDashed text else some (.word text)
      return argument :: (← argumentsOf rest)

/-! ### Options -/

/-- An option with its value, if it has one. -/
abbrev Given := Switch × Option String

/-- The options that an argument gives, whether something in it is not understood, and the arguments
after it. -/
structure Reading where
  given : List Given
  surplus : Bool
  rest : List Argument

/-- An option without a value in its argument: the value is the next word. -/
def alone (which : Switch) (rest : List Argument) : Option Reading :=
  if which.takesValue then
    match rest with
    | .word value :: rest => some ⟨[(which, some value)], false, rest⟩
    | _ => none
  else some ⟨[(which, none)], false, rest⟩

/-- An option with what stands behind its letter: its value, or the letters of other options. -/
def together (which : Switch) (rest : List Argument) : List Char → Option Reading
  | [] => alone which rest
  | c :: cs =>
    if which.takesValue then
      some ⟨[(which, some (String.ofList (if c = '=' then cs else c :: cs)))], false, rest⟩
    else if c = '=' ∨ c = '-' then none
    else
      match switches.lookup (String.ofList ['-', c]) with
      | none => some ⟨[(which, none)], true, rest⟩
      | some next => (together next rest cs).map fun r => { r with given := (which, none) :: r.given }

/-- What an argument gives with the arguments after it, none if it is refused. -/
def Argument.read? (argument : Argument) (rest : List Argument) : Option Reading :=
  match argument with
  | .option which none => alone which rest
  | .option which (some value) =>
    if which.takesValue then some ⟨[(which, some value)], false, rest⟩ else none
  | .letters which others => together which rest others
  | _ => some ⟨[], true, rest⟩

/-- What a command line asks for. -/
structure Request where
  overrides : Settings.Overrides := {}
  verbose : Bool := false
  /-- Whether there are arguments that are not understood. -/
  surplus : Bool := false

/-- What comes of reading a command line. -/
inductive Parsed where
  | run (request : Request)
  | help
  | version
  | refused

/-- A request with a text added to a list of texts. -/
def Request.addText (request : Request) (key : Settings.Key) (text : String) : Request :=
  let before := match request.overrides.layer.lookup key with
    | some (.list items) => items
    | _ => []
  { request with overrides.layer := Datum.put key (.list (before ++ [.text text])) request.overrides.layer }

/-- A request with a setting. -/
def Request.setting (request : Request) (key : Settings.Key) (value : Setting) : Request :=
  { request with overrides.layer := Datum.put key value request.overrides.layer }

/-- Takes up an option. What is not a run ends the reading. -/
def Request.take (request : Request) : Given → Except Parsed Request
  | (.help, _) => .error .help
  | (.version, _) => .error .version
  | (.verbose, _) => .ok { request with verbose := true }
  | (.config, value) => .ok { request with overrides.configPath := value.getD "" }
  | (.reports, value) => .ok (request.addText .reports (value.getD ""))
  | (.ignored, value) => .ok (request.addText .ignored (value.getD ""))
  | (.maxAnnotations, value) =>
    match countOf (value.getD "") with
    | .ok n => .ok (request.setting .maxAnnotations (.integer n))
    | .error _ => .error .refused
  | (.customMatchers, value) =>
    match mappingOf (value.getD "") with
    | .ok mapping => .ok (request.setting .customMatchers mapping)
    | .error _ => .error .refused

/-- Takes up arguments; `fuel` is at least their number. -/
def Request.takeAll (request : Request) : Nat → List Argument → Except Parsed Request
  | 0, _ => .ok request
  | _, [] => .ok request
  | fuel + 1, argument :: rest =>
    match argument.read? rest with
    | none => .error .refused
    | some reading => do
      let request ← reading.given.foldlM Request.take request
      { request with surplus := request.surplus || reading.surplus }.takeAll fuel reading.rest

/-- What a command line asks for. -/
def parse (args : List String) : Parsed :=
  match argumentsOf args with
  | none => .refused
  | some arguments =>
    match ({} : Request).takeAll arguments.length arguments with
    | .error parsed => parsed
    | .ok request => if request.surplus then .refused else .run request

/-! ### Doing what is asked for -/

/-- The name and the version of the program. -/
def versionText : String := "report-annotate 1.0.0"

/-- How the program is called. -/
def usageText : String :=
  "usage: report-annotate [-h] [--version] [-c PATH] [-r MATCHER|PATTERNS] [-i PATTERN] [-m N]\n" ++
  "                       [--custom-matchers JSON] [-v]"

/-- What comes of a call of the program. -/
structure Outcome where
  code : Nat
  /-- Whether nothing was run. -/
  ended : Bool
  runner : Runner

/-- Does what a command line asks for. -/
def perform (args : List String) (environment : List (String × String)) (workspace : Workspace)
    (delimiter : String) : Outcome :=
  let start (verbose : Bool) : Runner :=
    { environment, workspace, delimiter
      showsDebug := verbose || environment.lookup "RUNNER_DEBUG" == some "1" }
  match parse args with
  | .refused => ⟨2, true, start false⟩
  | .help => ⟨0, true, (start false).write usageText⟩
  | .version => ⟨0, true, (start false).write versionText⟩
  | .run request =>
    match annotate request.overrides (start request.verbose) with
    | (.ok _, r) => ⟨0, false, r⟩
    | (.error _, r) => ⟨1, false, r.log ⟨Record.debugLevel, "Report annotation failed"⟩⟩

end XPathAnnotator.CommandLine
