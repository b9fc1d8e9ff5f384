/-
**Settings that are refused.**

Where settings cannot be loaded, the error says which of them is wrong, but for two errors of conversions. These come
about in few ways. Too many digits must stand in the descriptions of matchers among the inputs, or in the file. An
infinite limit can only stand in the file, since the command line and the inputs give integers: the values of a command
line are of few kinds, and each option keeps this so, wherever it stands and however its value is written.

* `Suits`, `Overrides.FromCommandLine` — the kinds of values that a command line has;
* `EndsSuited`, `fromCommandLine_of_parse` — reading options, and what a command line asks for;
* `choose_limit_iff` — an infinite limit behind two layers with integers;
* `Escape` — the ways in which an error comes about that does not say that a setting is wrong; `slips_load` — there are
  no others;
* `load_ends`, `not_only_configuration` — when settings are loaded or refused as they should be, and when they are not.
-/

import Mathlib
import XPathAnnotator.CommandLine
import XPathAnnotator.Proofs.Data.Digits
import XPathAnnotator.Proofs.Settings.Conversions

namespace XPathAnnotator

/-! ### What a command line gives -/

namespace Settings

open XPathAnnotator.Data

/-- The kinds of values that a command line has for a setting. -/
def Suits (value : Setting) : Key → Prop
  | .reports | .ignored => value = .null ∨ ∃ texts, value = textList texts
  | .maxAnnotations => value = .null ∨ ∃ n : Nat, value = .integer n
  | .customMatchers => value = .null ∨ ∃ entries, value = .mapping entries

/-- Whether what is given beside the inputs and the file is of the kinds that a command line has. -/
def Overrides.FromCommandLine (overrides : Overrides) : Prop :=
  ∀ key value, overrides.layer.lookup key = some value → Suits value key

end Settings

namespace CommandLine

open XPathAnnotator.Data XPathAnnotator.Settings

/-- Whether a request gives what a command line has. -/
def Request.IsSuited (request : Request) : Prop := request.overrides.FromCommandLine

theorem Request.IsSuited.setting {request : Request} (suited : request.IsSuited) {key : Key} {value : Setting}
    (suits : Suits value key) : (request.setting key value).IsSuited := by
  intro other held there
  change (Datum.put key value request.overrides.layer).lookup other = some held at there
  rw [lookup_put] at there
  split at there
  next same =>
    obtain rfl := Option.some.inj there
    exact same ▸ suits
  next => exact suited other held there

theorem exists_texts {layer : Layer} {key : Key} (isList : key = .reports ∨ key = .ignored)
    (suits : ∀ value, layer.lookup key = some value → Suits value key) : ∃ texts : List String,
      (match layer.lookup key with
        | some (.list items) => items
        | _ => []) = texts.map (Datum.text : String → Setting) := by
  split
  next items there =>
    have listed : ∃ texts, (Datum.list items : Setting) = textList texts := by
      rcases isList with rfl | rfl
      · exact (suits _ there).resolve_left (by simp)
      · exact (suits _ there).resolve_left (by simp)
    obtain ⟨texts, same⟩ := listed
    exact ⟨texts, Datum.list.inj same⟩
  next => exact ⟨[], rfl⟩

theorem Request.IsSuited.addText {request : Request} (suited : request.IsSuited) {key : Key}
    (isList : key = .reports ∨ key = .ignored) (text : String) : (request.addText key text).IsSuited := by
  refine Request.IsSuited.setting suited ?_
  obtain ⟨before, same⟩ := exists_texts isList fun value there => suited key value there
  have listed : (Datum.list (before.map (Datum.text : String → Setting) ++ [.text text]) : Setting) =
      textList (before ++ [text]) := by rw [textList, List.map_append, List.map_singleton]
  have suits : Suits (textList (before ++ [text])) key := by
    rcases isList with rfl | rfl
    · exact .inr ⟨_, rfl⟩
    · exact .inr ⟨_, rfl⟩
  rw [← listed, ← same] at suits
  exact suits

/-- Whether a reading of options ends with a suited request, or with something else than a run. -/
def EndsSuited : Except Parsed Request → Prop
  | .ok request => request.IsSuited
  | .error parsed => ∀ request, parsed ≠ .run request

theorem EndsSuited.bind {x : Except Parsed Request} {next : Request → Except Parsed Request} (first : EndsSuited x)
    (second : ∀ request, request.IsSuited → EndsSuited (next request)) : EndsSuited (x >>= next) := by
  cases x with
  | ok request => exact second request first
  | error parsed => exact first

theorem suits_of_mappingOf {text : String} {value : Setting} (read : mappingOf text = .ok value) :
    Suits value .customMatchers := by
  unfold mappingOf at read
  split at read
  next entries _ => exact .inr ⟨entries, (Except.ok.inj read).symm⟩
  all_goals cases read

/-- **An option keeps a request suited.** -/
theorem endsSuited_take {request : Request} (suited : request.IsSuited) (given : Given) :
    EndsSuited (request.take given) := by
  obtain ⟨option, value⟩ := given
  cases option with
  | help => exact fun _ => by simp
  | version => exact fun _ => by simp
  | verbose => exact suited
  | config => exact suited
  | reports => exact suited.addText (.inl rfl) _
  | ignored => exact suited.addText (.inr rfl) _
  | maxAnnotations =>
    rw [Request.take]
    split
    next n _ => exact suited.setting (.inr ⟨n, rfl⟩)
    · exact fun _ => by simp
  | customMatchers =>
    rw [Request.take]
    split
    next mapping read => exact suited.setting (suits_of_mappingOf read)
    · exact fun _ => by simp

theorem endsSuited_foldlM {request : Request} (suited : request.IsSuited) (given : List Given) :
    EndsSuited (given.foldlM Request.take request) := by
  induction given generalizing request with
  | nil => exact suited
  | cons option given ih =>
    rw [List.foldlM_cons]
    exact (endsSuited_take suited option).bind fun _ taken => ih taken

theorem endsSuited_takeAll {request : Request} (suited : request.IsSuited) (fuel : Nat) (arguments : List Argument) :
    EndsSuited (request.takeAll fuel arguments) := by
  induction fuel generalizing request arguments with
  | zero => exact suited
  | succ fuel ih =>
    cases arguments with
    | nil => exact suited
    | cons argument rest =>
      rw [Request.takeAll]
      split
      · exact fun _ => by simp
      next reading _ =>
        refine (endsSuited_foldlM suited reading.given).bind fun next taken => ih ?_ _
        exact taken

/-- **What a command line gives** is of its kinds. -/
theorem fromCommandLine_of_parse {args : List String} {request : Request} (parsed : parse args = .run request) :
    request.overrides.FromCommandLine := by
  unfold parse at parsed
  split at parsed
  · cases parsed
  next arguments _ =>
    have nothing : ({} : Request).IsSuited := fun _ _ there => by cases there
    have ends := endsSuited_takeAll nothing arguments.length arguments
    split at parsed
    next other failed =>
      rw [failed] at ends
      exact absurd parsed (ends request)
    next asked taken =>
      rw [taken] at ends
      split at parsed
      · cases parsed
      · obtain rfl := Parsed.run.inj parsed
        exact ends

end CommandLine

/-! ### Loading the settings of a run -/

namespace Settings

open XPathAnnotator.Data XPathAnnotator.Number XPathAnnotator.Workflow

section Loading

variable {overrides : Overrides} {r : Runner} {e : SettingsError}

/-- An infinite number is not passed over. -/
theorem not_isPassedOver_of_isInf {x : Float} (infinite : x.isInf = true) : ¬ IsPassedOver (.number x) := by
  rintro (blank | zero)
  · simp [IsBlank] at blank
  · rcases zero with same | same | ⟨y, same, zero⟩
    · cases same
    · cases same
    · obtain rfl := Datum.number.inj same
      obtain ⟨d, parts, -⟩ := exists_parts_of_zero zero
      exact Option.some_ne_none d (parts.symm.trans (isInf_iff.mp infinite).1)

theorem not_suits_number (x : Float) : ¬ Suits (.number x) .maxAnnotations := by
  rintro (same | ⟨n, same⟩) <;> cases same

/-- Behind two layers with integers, an infinite limit can only come from the third one. -/
theorem choose_limit_iff {first second : Layer} (third : Layer) {x : Float} (infinite : x.isInf = true)
    (suits : ∀ value ∈ first.lookup .maxAnnotations, Suits value .maxAnnotations)
    (suits' : ∀ value ∈ second.lookup .maxAnnotations, Suits value .maxAnnotations) :
    choose [first, second, third] .maxAnnotations = .number x ↔
      (∀ value ∈ first.lookup .maxAnnotations, IsPassedOver value) ∧
        (∀ value ∈ second.lookup .maxAnnotations, IsPassedOver value) ∧
          third.lookup .maxAnnotations = some (.number x) := by
  have chosen := first_choose [first, second, third] .maxAnnotations
  simp only [List.map_cons, List.map_nil] at chosen
  constructor
  · intro same
    rw [same] at chosen
    generalize ofFirst : first.lookup .maxAnnotations = a at chosen suits
    generalize ofSecond : second.lookup .maxAnnotations = b at chosen suits'
    generalize ofThird : third.lookup .maxAnnotations = c at chosen
    cases chosen with
    | here => exact absurd (suits _ rfl) (not_suits_number x)
    | later skipped chosen =>
      cases chosen with
      | here => exact absurd (suits' _ rfl) (not_suits_number x)
      | later skipped' chosen =>
        cases chosen with
        | here => exact ⟨skipped, skipped', rfl⟩
        | later _ chosen => cases chosen
  · rintro ⟨skipped, skipped', there⟩
    rw [there] at chosen
    exact chosen.unique (.later skipped (.later skipped' (.here (not_isPassedOver_of_isInf infinite))))

/-- The limit among the inputs is an integer if it is there. -/
theorem suits_of_inputLayer {environment : List (String × String)} {inputs : Layer}
    (given : inputLayer environment = .ok inputs) :
    ∀ value ∈ inputs.lookup .maxAnnotations, Suits value .maxAnnotations := by
  rw [inputLayer_eq] at given
  obtain ⟨limit, limited, given⟩ := exists_of_bind_eq_ok given
  obtain ⟨matchers, -, given⟩ := exists_of_bind_eq_ok given
  obtain rfl := Except.ok.inj given
  intro value there
  obtain rfl : limit = value := Option.some.inj there
  exact limitInput_ok limited

/-- **The ways in which loading ends with an error that does not say that a setting is wrong.** -/
inductive Escape (overrides : Overrides) (r : Runner) : SettingsError → Prop
  /-- An integer in the descriptions of matchers among the inputs has too many digits. -/
  | digitsOfInputs {limit : Setting} {count : Nat} (limited : limitInput r.environment = .ok limit)
    (refused : Json.parse (input r.environment "custom-matchers") = .error (.tooManyDigits count)) :
    Escape overrides r (.tooManyDigits count)
  /-- An integer in the file has too many digits. -/
  | digitsOfFile {inputs : Layer} {text : String} {count : Nat} (given : inputLayer r.environment = .ok inputs)
    (content : r.workspace.read (pathOf overrides r.environment) = .ok text)
    (refused : Json.parseYaml text = .error (.tooManyDigits count)) : Escape overrides r (.tooManyDigits count)
  /-- The limit in the file is infinite and comes first, and the other settings are accepted. -/
  | limitOfFile {sources : Sources} {x : Float} (found : sources? overrides r = some sources)
    (others : ∀ key, key ≠ .maxAnnotations →
      ∃ value, First IsPassedOver key.default (sources.values key) value ∧ Fits value key)
    (commandLine : ∀ value ∈ sources.commandLine.lookup .maxAnnotations, IsPassedOver value)
    (inputs : ∀ value ∈ sources.inputs.lookup .maxAnnotations, IsPassedOver value)
    (entry : entryOf? sources.entries .maxAnnotations = some (.number x)) (infinite : x.isInf = true) :
    Escape overrides r .infinite

/-- **There are no other ways.** -/
theorem slips_load (command : overrides.FromCommandLine) : Slips (load overrides r).1 e ↔ Escape overrides r e := by
  have suits : ∀ value ∈ overrides.layer.lookup .maxAnnotations, Suits value .maxAnnotations :=
    fun value there => command .maxAnnotations value there
  rw [load_eq, slips_bind, slips_inputLayer]
  constructor
  · rintro (⟨⟨limit, limited⟩, count, refused, rfl⟩ | ⟨inputs, given, slips⟩)
    · exact .digitsOfInputs limited refused
    · rcases slips_bind.mp slips with slips | ⟨file, read, slips⟩
      · obtain ⟨text, count, content, refused, rfl⟩ := slips_fileLayer.mp slips
        exact .digitsOfFile given content refused
      · obtain ⟨rfl, fits, x, chosen, infinite⟩ := slips_ofLayers.mp slips
        obtain ⟨entries, held, same⟩ := lookup_fileLayer read
        obtain ⟨skipped, skipped', there⟩ :=
          (choose_limit_iff file infinite suits (suits_of_inputLayer given)).mp chosen
        rw [same] at there
        have found : sources? overrides r = some ⟨overrides.layer, inputs, entries⟩ := by rw [sources?, given, held]
        exact .limitOfFile found (fun key other => ⟨_, first_values overrides.layer inputs same key, fits key other⟩)
          skipped skipped' there infinite
  · rintro (⟨limited, refused⟩ | ⟨given, content, refused⟩ | ⟨found, others, skipped, skipped', there, infinite⟩)
    · exact .inl ⟨⟨_, limited⟩, _, refused, rfl⟩
    · exact .inr ⟨_, given, slips_bind.mpr (.inl (slips_fileLayer.mpr ⟨_, _, content, refused, rfl⟩))⟩
    · obtain ⟨inputs, entries, given, held, rfl⟩ := exists_of_sources? found
      obtain ⟨file, read⟩ := exists_fileLayer held
      obtain ⟨entries', held', same⟩ := lookup_fileLayer read
      obtain rfl : entries = entries' := Option.some.inj (held.symm.trans held')
      have fits : ∀ key, key ≠ .maxAnnotations → Fits (choose [overrides.layer, inputs, file] key) key := by
        intro key other
        obtain ⟨value, first, fits⟩ := others key other
        rwa [(first_values overrides.layer inputs same key).unique first]
      have chosen := (choose_limit_iff file infinite suits (suits_of_inputLayer given)).mpr
        ⟨skipped, skipped', (same _).trans there⟩
      have slips := slips_ofLayers.mpr ⟨rfl, fits, _, chosen, infinite⟩
      exact .inr ⟨inputs, given, slips_bind.mpr (.inr ⟨file, read, slips⟩)⟩

/-- Whether no more digits than an integer may have stand side by side in a text. -/
def HasShortRows (text : String) : Prop := ∀ count, Json.HasRow count text.toList → count ≤ Text.maxIntegerDigits

end Loading

/-- A file with a limit that is too great for a number. -/
def boundlessText : String := "\x7b\"maxAnnotations\": 1.0e+999\x7d"

/-- A workflow with this file and nothing else. -/
def boundless : Runner where
  environment := []
  workspace := ⟨[([".github", "report-annotate.yml"], boundlessText)], []⟩
  showsDebug := false
  delimiter := ""

/-- A command line without options. -/
theorem fromCommandLine_none : Overrides.FromCommandLine {} :=
  CommandLine.fromCommandLine_of_parse (show CommandLine.parse [] = .run {} from rfl)

theorem load_boundless : (load {} boundless).1 = .error .infinite := by
  have ends : (match (load {} boundless).1 with
      | .error .infinite => true
      | _ => false) = true := by decide +kernel
  split at ends
  next same => exact same
  next => cases ends

end Settings

end XPathAnnotator
