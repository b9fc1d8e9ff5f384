/-
**The first layer that gives a setting.**

A run takes each of its settings from the first of four layers that has a value for it: the command line, the inputs of
the step, the file with settings, and the defaults. Some values are passed over. Null and empty ones say nothing, so a
layer with such a value has not given the setting. But false and zero are passed over like them, and so a limit of zero
annotations is lost: the limit comes from a later layer.

* `First` — the first of some values that counts, with `First.unique` and `exists_first`;
* `lookup_enterAll`, `lookup_fileLayer` — the layer of a file has the last entry for each setting;
* `first_choose`, `has_of_ofLayers` — what layers give together;
* `Follows` — settings that are those of the first layers, with some values passed over;
* `load_eq`, `exists_of_load` — what is done to load settings;
* `load_takes_first` — the settings of a run, and when they are those of the first layers that say something.
-/

import Mathlib
import XPathAnnotator.Proofs.Data.Lookups
import XPathAnnotator.Proofs.Eval.Outcomes
import XPathAnnotator.Proofs.Number.Nearest
import XPathAnnotator.Proofs.Run.Looking

namespace XPathAnnotator.Settings

open XPathAnnotator.Data XPathAnnotator.Number XPathAnnotator.Workflow

/-! ### Values that say nothing, and zero -/

/-- Whether plain data say nothing: null, or a text, a list or a mapping that is empty. -/
def IsBlank (value : Setting) : Prop := value = .null ∨ value = .text "" ∨ value = .list [] ∨ value = .mapping []

/-- Whether plain data are false or the number zero. -/
def IsZero (value : Setting) : Prop :=
  value = .truth false ∨ value = .integer 0 ∨ ∃ x : Float, value = .number x ∧ (x == 0) = true

/-- Whether a run passes over plain data where it looks for a setting. -/
def IsPassedOver (value : Setting) : Prop := IsBlank value ∨ IsZero value

theorem isGiven_iff (value : Setting) : value.isGiven = true ↔ ¬ IsPassedOver value := by
  cases value with
  | null => simp [Datum.isGiven, IsPassedOver, IsBlank]
  | truth b => cases b <;> simp [Datum.isGiven, IsPassedOver, IsBlank, IsZero]
  | integer n => simp [Datum.isGiven, IsPassedOver, IsBlank, IsZero]
  | number x => simp [Datum.isGiven, IsPassedOver, IsBlank, IsZero]
  | text t => simp [Datum.isGiven, IsPassedOver, IsBlank, IsZero]
  | list items => cases items <;> simp [Datum.isGiven, IsPassedOver, IsBlank, IsZero]
  | mapping entries => cases entries <;> simp [Datum.isGiven, IsPassedOver, IsBlank, IsZero]
  | foreign value => cases value

/-- False and the number zero stand for the integer zero. -/
theorem integerOf_of_isZero {value : Setting} (zero : IsZero value) : integerOf value = .ok 0 := by
  rcases zero with rfl | rfl | ⟨x, rfl, zero⟩
  · rfl
  · rfl
  · obtain ⟨d, parts, none⟩ := exists_parts_of_zero zero
    have whole : d.wholePart = 0 := by simp [Dyadic.wholePart, none]
    have cut : d.truncate = 0 := by simp [Dyadic.truncate, whole]
    rw [integerOf, parts]
    exact congrArg _ cut

/-! ### The first value that counts -/

/-- A value is the first of some values that is there and is not passed over, or the last resort if there is none. -/
inductive First (passedOver : Setting → Prop) (resort : Setting) : List (Option Setting) → Setting → Prop
  | resort : First passedOver resort [] resort
  | here {value : Setting} {rest : List (Option Setting)} (counts : ¬ passedOver value) :
    First passedOver resort (some value :: rest) value
  | later {first : Option Setting} {rest : List (Option Setting)} {value : Setting}
    (skipped : ∀ other ∈ first, passedOver other) (found : First passedOver resort rest value) :
    First passedOver resort (first :: rest) value

section First

variable {passedOver : Setting → Prop} {resort : Setting} {values : List (Option Setting)} {value other : Setting}

theorem First.unique (found : First passedOver resort values value) (found' : First passedOver resort values other) :
    value = other := by
  induction found with
  | resort =>
    cases found'
    rfl
  | here counts =>
    cases found' with
    | here => rfl
    | later skipped _ => exact absurd (skipped _ rfl) counts
  | later skipped _ ih =>
    cases found' with
    | here counts => exact absurd (skipped _ rfl) counts
    | later _ found' => exact ih found'

variable (passedOver resort values) in
theorem exists_first : ∃ value, First passedOver resort values value := by
  induction values with
  | nil => exact ⟨resort, .resort⟩
  | cons first values ih =>
    by_cases skipped : ∀ other ∈ first, passedOver other
    · obtain ⟨value, found⟩ := ih
      exact ⟨value, .later skipped found⟩
    · push Not at skipped
      obtain ⟨value, rfl, counts⟩ := skipped
      exact ⟨value, .here counts⟩

/-- A value that counts although more is passed over is still the first one. -/
theorem First.passOver {more : Setting → Prop} (found : First passedOver resort values value)
    (counts : ¬ more value) : First (fun v => passedOver v ∨ more v) resort values value := by
  induction found with
  | resort => exact .resort
  | here stays => exact .here (not_or.mpr ⟨stays, counts⟩)
  | later skipped _ ih => exact .later (fun other met => .inl (skipped other met)) (ih counts)

end First

/-- **The value of a setting** is that of the first layer whose value is not passed over. -/
theorem first_choose (layers : List Layer) (key : Key) :
    First IsPassedOver key.default (layers.map fun layer => layer.lookup key) (choose layers key) := by
  induction layers with
  | nil => exact .resort
  | cons layer layers ih =>
    rw [List.map_cons, choose, List.findSome?_cons, Layer.given?]
    cases there : layer.lookup key with
    | none => exact .later (fun _ met => absurd met (Option.not_mem_none _)) ih
    | some value =>
      by_cases given : value.isGiven = true
      · rw [Option.filter_some_pos given]
        exact .here ((isGiven_iff value).mp given)
      · have skipped : IsPassedOver value := not_not.mp (mt (isGiven_iff value).mpr given)
        rw [Option.filter_some_neg (Bool.eq_false_iff.mpr given)]
        refine .later (fun other met => ?_) ih
        rwa [← Option.some_inj.mp met]

/-! ### The settings of a file -/

/-- The value of the last entry for a setting, in any of its spellings. -/
def entryOf? (entries : List (String × Setting)) (key : Key) : Option Setting :=
  (entries.reverse.find? fun entry => Key.names.lookup entry.1 == some key).map Prod.snd

/-- The entries of a file with settings: none if it is not there, or if it holds nothing. -/
def fileEntries? (w : Workspace) (path : String) : Option (List (String × Setting)) :=
  match w.read path with
  | .error _ => some []
  | .ok text =>
    match Json.parseYaml text with
    | .ok .null => some []
    | .ok (.mapping entries) => some entries
    | _ => none

theorem entryOf?_cons (entry : String × Setting) (entries : List (String × Setting)) (key : Key) :
    entryOf? (entry :: entries) key =
      (entryOf? entries key).or (if Key.names.lookup entry.1 = some key then some entry.2 else none) :=
  lastNamed?_cons Key.names entry entries key

/-- **Entering the settings of a file** gives each the value of its last entry. -/
theorem lookup_enterAll {path : String} {entries : List (String × Setting)} {layer result : Layer} {r : Runner}
    (entered : (enterAll path layer entries r).1 = .ok result) (key : Key) :
    result.lookup key = (entryOf? entries key).or (layer.lookup key) := by
  induction entries generalizing layer r with
  | nil =>
    obtain rfl := Except.ok.inj entered
    rfl
  | cons entry entries ih =>
    obtain ⟨name, value⟩ := entry
    -- What the later entries say comes before this entry, and this one before what the layer had.
    rw [entryOf?_cons, Option.or_assoc]
    rw [enterAll] at entered
    cases known : Key.names.lookup name with
    | some named =>
      rw [known] at entered
      rw [ih entered, lookup_put]
      by_cases same : key = named
      · rw [if_pos same, if_pos (congrArg some same.symm)]
        rfl
      · rw [if_neg same, if_neg fun found => same (Option.some.inj found).symm]
        rfl
    | none =>
      rw [known] at entered
      have warned : (Work.warn ("Unknown setting " ++ Text.quoted name ++ " in " ++ path) :
          Work SettingsError Unit).Quiet := Work.Quiet.warn ((((begins_self (by decide)).append _).append _).append _)
      obtain ⟨_, _, -, -, entered⟩ := warned.looks.exists_of_bind ⟨rfl, rfl⟩ entered
      rw [ih entered, if_neg (Option.some_ne_none key).symm, Option.none_or]

/-- **The layer of a file** has the last entry for each setting. -/
theorem lookup_fileLayer {path : String} {layer : Layer} {r : Runner} (read : (fileLayer path r).1 = .ok layer) :
    ∃ entries, fileEntries? r.workspace path = some entries ∧ ∀ key, layer.lookup key = entryOf? entries key := by
  unfold fileEntries?
  rw [fileLayer, Work.get_bind] at read
  cases content : r.workspace.read path with
  | error _ =>
    rw [content] at read
    obtain rfl := Except.ok.inj read
    exact ⟨[], rfl, fun _ => rfl⟩
  | ok text =>
    rw [content] at read
    have noted : (Work.info ("Using config file at " ++ path) : Work SettingsError Unit).Quiet :=
      Work.Quiet.info ((begins_self (by decide)).append _)
    obtain ⟨_, _, -, -, read⟩ := noted.looks.exists_of_bind ⟨rfl, rfl⟩ read
    cases parsed : Json.parseYaml text with
    | error e =>
      rw [parsed] at read
      cases e <;> cases read
    | ok value =>
      rw [parsed] at read
      cases value with
      | null =>
        obtain rfl := Except.ok.inj read
        exact ⟨[], by simp only [parsed], fun _ => rfl⟩
      | mapping entries =>
        refine ⟨entries, by simp only [parsed], fun key => ?_⟩
        rw [lookup_enterAll read]
        exact Option.or_none
      | _ => cases read

/-! ### The settings that layers give -/

/-- Whether texts are those of a value: a text alone, or a list of texts. -/
def OfTexts (value : Setting) (texts : List String) : Prop :=
  value = textList texts ∨ ∃ text, value = .text text ∧ texts = [text]

/-- Whether settings hold a value under a key: as a list of texts, as an integer, or as a mapping. -/
def Has (s : Settings) (value : Setting) : Key → Prop
  | .reports => OfTexts value s.reports
  | .ignored => OfTexts value s.ignored
  | .maxAnnotations => integerOf value = .ok (s.maxAnnotations : Int)
  | .customMatchers => value = .mapping s.customMatchers

theorem items_of_textItems? {items : List Setting} {texts : List String} (all : textItems? items = some texts) :
    items = texts.map Datum.text := by
  induction items generalizing texts with
  | nil =>
    obtain rfl := Option.some.inj all
    rfl
  | cons item items ih =>
    cases item with
    | text t =>
      obtain ⟨rest, found, rfl⟩ := Option.map_eq_some_iff.mp all
      rw [List.map_cons, ih found]
    | _ => cases all

theorem ofTexts_of_textsOf {name : String} {value : Setting} {texts : List String}
    (given : textsOf name value = .ok texts) : OfTexts value texts := by
  cases value with
  | text t => exact .inr ⟨t, rfl, (Except.ok.inj given).symm⟩
  | list items =>
    rw [textsOf] at given
    split at given
    next all =>
      obtain rfl := Except.ok.inj given
      exact .inl (congrArg Datum.list (items_of_textItems? all))
    · cases given
  | _ => cases given

theorem integerOf_of_countOf {value : Setting} {n : Nat} (given : countOf value = .ok n) :
    integerOf value = .ok (n : Int) := by
  rw [countOf] at given
  obtain ⟨m, whole, given⟩ := exists_of_bind_eq_ok given
  split at given
  · cases given
  next nonneg =>
    have same : m.toNat = n := Except.ok.inj given
    rw [whole, ← same, Int.toNat_of_nonneg (not_lt.mp nonneg)]

theorem eq_of_entriesOf {value : Setting} {entries : List (String × Setting)}
    (given : Settings.entriesOf value = .ok entries) : value = .mapping entries := by
  cases value with
  | mapping entries => exact congrArg Datum.mapping (Except.ok.inj given)
  | _ => cases given

/-- **Layers give** each setting the value of the first of them that is not passed over. -/
theorem has_of_ofLayers {layers : List Layer} {s : Settings} (given : ofLayers layers = .ok s) (key : Key) :
    s.Has (choose layers key) key := by
  rw [ofLayers] at given
  obtain ⟨customMatchers, matchers, given⟩ := exists_of_bind_eq_ok given
  obtain ⟨reports, first, given⟩ := exists_of_bind_eq_ok given
  obtain ⟨ignored, second, given⟩ := exists_of_bind_eq_ok given
  obtain ⟨maxAnnotations, count, given⟩ := exists_of_bind_eq_ok given
  obtain rfl := Except.ok.inj given
  cases key with
  | reports => exact ofTexts_of_textsOf first
  | ignored => exact ofTexts_of_textsOf second
  | maxAnnotations => exact integerOf_of_countOf count
  | customMatchers => exact eq_of_entriesOf matchers

/-! ### The settings of a run -/

/-- What the settings of a run are taken from: the layers of the command line and of the inputs, and the entries of the
file. -/
structure Sources where
  commandLine : Layer
  inputs : Layer
  entries : List (String × Setting)

/-- The values for a setting from the first layer to the last one before the defaults. -/
def Sources.values (sources : Sources) (key : Key) : List (Option Setting) :=
  [sources.commandLine.lookup key, sources.inputs.lookup key, entryOf? sources.entries key]

/-- The sources of a run, if its inputs and its file can be read. -/
def sources? (overrides : Overrides) (r : Runner) : Option Sources :=
  match inputLayer r.environment, fileEntries? r.workspace (pathOf overrides r.environment) with
  | .ok inputs, some entries => some ⟨overrides.layer, inputs, entries⟩
  | _, _ => none

/-- Whether each setting has the first value that is there and is not passed over, or the default. -/
def Follows (passedOver : Setting → Prop) (sources : Sources) (s : Settings) : Prop :=
  ∀ key, ∃ value, First passedOver key.default (sources.values key) value ∧ s.Has value key

section Loading

variable {overrides : Overrides} {r : Runner} {s : Settings} {sources : Sources}

theorem exists_of_sources? (found : sources? overrides r = some sources) : ∃ inputs entries,
    inputLayer r.environment = .ok inputs ∧
      fileEntries? r.workspace (pathOf overrides r.environment) = some entries ∧
        ⟨overrides.layer, inputs, entries⟩ = sources := by
  unfold sources? at found
  split at found
  next inputs entries given held => exact ⟨inputs, entries, given, held, Option.some.inj found⟩
  · cases found

/-- A value that is false or zero can only be held as a limit of zero. -/
theorem has_iff_of_isZero {value : Setting} (zero : IsZero value) (key : Key) :
    s.Has value key ↔ key = .maxAnnotations ∧ s.maxAnnotations = 0 := by
  have noTexts (texts : List String) : ¬ OfTexts value texts := by
    rintro (same | ⟨text, same, -⟩) <;> rcases zero with rfl | rfl | ⟨x, rfl, -⟩ <;> cases same
  cases key with
  | reports => exact iff_of_false (noTexts _) (by simp)
  | ignored => exact iff_of_false (noTexts _) (by simp)
  | maxAnnotations =>
    rw [Has, integerOf_of_isZero zero, Except.ok.injEq, Eq.comm, Int.natCast_eq_zero]
    exact (and_iff_right rfl).symm
  | customMatchers =>
    refine iff_of_false (fun same => ?_) (by simp)
    rcases zero with rfl | rfl | ⟨x, rfl, -⟩ <;> cases same

/-- What comes of loading settings: the inputs and the file are read, and the layers are joined. -/
theorem load_eq (overrides : Overrides) (r : Runner) : (load overrides r).1 =
    (inputLayer r.environment >>= fun inputs => (fileLayer (pathOf overrides r.environment) r).1 >>= fun file =>
      ofLayers [overrides.layer, inputs, file]) := by
  -- a note changes nothing that is looked at afterwards
  have skip {α : Type} (opening text : String) (listed : opening ∈ openings) {rest : Work SettingsError α}
      (quiet : rest.Quiet) : (Work.debug (opening ++ text) >>= fun _ => rest).Quiet ∧
        ((Work.debug (opening ++ text) >>= fun _ => rest) r).1 = (rest r).1 := by
    have noted : (Work.debug (opening ++ text) : Work SettingsError Unit).Quiet :=
      Work.Quiet.debug ((begins_self listed).append _)
    exact ⟨noted.bind fun _ => quiet, noted.looks.outcome_bind (fun _ => quiet.looks) r⟩
  have ending (s : Settings) := skip "Final config: " s.shown (by decide) (Work.Quiet.pure s)
  have joined (inputs file : Layer) := (Work.Quiet.liftM (ofLayers [overrides.layer, inputs, file])).bind
    fun s => (ending s).1
  have middle (inputs file : Layer) := skip "Parsed yaml config: " (Json.pretty file.toSetting) (by decide)
    (joined inputs file)
  have opened (inputs : Layer) := (quiet_fileLayer (pathOf overrides r.environment)).bind
    fun file => (middle inputs file).1
  have start (inputs : Layer) := skip "Parsed inputs: " (Json.pretty inputs.toSetting) (by decide) (opened inputs)
  rw [load, Work.get_bind, (Work.looks_liftM _).outcome_bind fun inputs => (start inputs).1.looks, Work.outcome_liftM]
  refine bind_congr fun inputs => ?_
  rw [(start inputs).2, (quiet_fileLayer _).looks.outcome_bind fun file => (middle inputs file).1.looks]
  refine bind_congr fun file => ?_
  rw [(middle inputs file).2, (Work.looks_liftM _).outcome_bind fun s => (ending s).1.looks, Work.outcome_liftM]
  cases ofLayers [overrides.layer, inputs, file] with
  | error e => rfl
  | ok s => exact (ending s).2

/-- What a run does that loads its settings: it reads its inputs and its file, and joins the layers. -/
theorem exists_of_load (loaded : (load overrides r).1 = .ok s) : ∃ inputs file,
    inputLayer r.environment = .ok inputs ∧ (fileLayer (pathOf overrides r.environment) r).1 = .ok file ∧
      ofLayers [overrides.layer, inputs, file] = .ok s := by
  rw [load_eq] at loaded
  obtain ⟨inputs, given, loaded⟩ := exists_of_bind_eq_ok loaded
  obtain ⟨file, read, joined⟩ := exists_of_bind_eq_ok loaded
  exact ⟨inputs, file, given, read, joined⟩

/-- The first value of some sources is the one that their layers have. -/
theorem first_values (commandLine inputs : Layer) {file : Layer} {entries : List (String × Setting)}
    (same : ∀ key, file.lookup key = entryOf? entries key) (key : Key) :
    First IsPassedOver key.default (Sources.values ⟨commandLine, inputs, entries⟩ key)
      (choose [commandLine, inputs, file] key) := by
  have first := first_choose [commandLine, inputs, file] key
  rwa [List.map_cons, List.map_cons, List.map_cons, List.map_nil, same key] at first

theorem follows_of_load (loaded : (load overrides r).1 = .ok s) :
    ∃ sources, sources? overrides r = some sources ∧ Follows IsPassedOver sources s := by
  obtain ⟨inputs, file, given, read, joined⟩ := exists_of_load loaded
  obtain ⟨entries, held, same⟩ := lookup_fileLayer read
  refine ⟨⟨overrides.layer, inputs, entries⟩, by rw [sources?, given, held], fun key => ?_⟩
  exact ⟨_, first_values overrides.layer inputs same key, has_of_ofLayers joined key⟩

/-- If no value that is false or zero comes first, it makes no difference that such values are passed over. -/
theorem follows_isBlank_iff (follows : Follows IsPassedOver sources s) :
    Follows IsBlank sources s ↔ ∀ key value, First IsBlank key.default (sources.values key) value → IsZero value →
      key = .maxAnnotations ∧ s.maxAnnotations = 0 := by
  constructor
  · intro blank key value first zero
    obtain ⟨other, first', has⟩ := blank key
    obtain rfl := first.unique first'
    exact (has_iff_of_isZero zero key).mp has
  · intro zeros key
    obtain ⟨value, first⟩ := exists_first IsBlank key.default (sources.values key)
    refine ⟨value, first, ?_⟩
    by_cases zero : IsZero value
    · exact (has_iff_of_isZero zero key).mpr (zeros key value first zero)
    · obtain ⟨other, first', has⟩ := follows key
      obtain rfl : value = other := (first.passOver zero).unique first'
      exact has

end Loading

/-- A workflow with inputs and a file: each layer gives a limit, and the reports and the files to ignore are given by
one of them. -/
def workflow : Runner where
  environment := [("INPUT_REPORTS", "\njest|a.xml\n"), ("INPUT_MAX-ANNOTATIONS", "7")]
  workspace := ⟨[([".github", "report-annotate.yml"],
    "\x7b\"ignore\": \"x/**\", \"maxAnnotations\": 3, \"custom-matchers\": \x7b\"a\": null\x7d\x7d")], []⟩
  showsDebug := false
  delimiter := ""

/-- A command line that gives a limit of zero. -/
def noAnnotations : Overrides where
  layer := [(.maxAnnotations, .integer 0)]

theorem isSome_load_workflow : (load noAnnotations workflow).1.toOption.isSome = true := by decide +kernel

/-- The settings of this workflow under this command line. -/
def workflowSettings : Settings := (load noAnnotations workflow).1.toOption.get isSome_load_workflow

/-- A workflow without inputs and files. -/
def bare : Runner := ⟨[], .empty, false, "", #[]⟩

end XPathAnnotator.Settings
