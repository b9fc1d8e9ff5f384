/-
**Conversions of settings that slip.**

Where settings are not accepted, the error mostly says which of them is wrong. Two errors say something else, and they
come from conversions of numbers: an integer may have more digits than can be read, and a limit may be infinite. A
conversion that ends with one of them slips. The limit of the inputs never does; the descriptions of matchers among
them and the file slip by their digits, and layers that are joined slip by their limit.

* `SettingsError.IsConfiguration` — the errors that say that a setting is wrong;
* `Slips`, `slips_bind` — conversions that end with another error;
* `slips_countOf`, `slips_readMatchers` — values that slip;
* `slips_inputLayer`, `slips_fileLayer`, `slips_ofLayers` — the inputs, the file, and layers that are joined.
-/

import Mathlib
import XPathAnnotator.Proofs.Settings.Precedence

namespace XPathAnnotator

/-- Whether an error says that a setting is wrong. The other ones are left over from conversions of numbers. -/
def SettingsError.IsConfiguration : SettingsError → Prop
  | infinite | tooManyDigits _ => False
  | _ => True

/-- A number is infinite if it has no parts although it is a number. -/
theorem Number.isInf_iff {x : Float} : x.isInf = true ↔ Dyadic.ofFloat? x = none ∧ x.isNaN = false := by
  have finite : x.toModel.unpack.isFinite = (Dyadic.ofFloat? x).isSome := isFinite_eq x
  change x.toModel.unpack.isInf = true ↔ _ ∧ x.toModel.unpack.isNaN = false
  rw [← Option.isNone_iff_eq_none, ← Option.not_isSome, ← finite]
  cases x.toModel.unpack with
  | zero sign => exact iff_of_false Bool.false_ne_true fun both => Bool.false_ne_true both.1
  | finite sign mantissa exponent pos => exact iff_of_false Bool.false_ne_true fun both => Bool.false_ne_true both.1
  | infinity sign => exact iff_of_true rfl ⟨rfl, rfl⟩
  | notANumber => exact iff_of_false Bool.false_ne_true fun both => Bool.false_ne_true both.2.symm

namespace Settings

open XPathAnnotator.Data XPathAnnotator.Number XPathAnnotator.Workflow

/-! ### Conversions that end otherwise -/

section Slips

variable {α β : Type} {e : SettingsError}

/-- Whether a conversion ends with an error that does not say that a setting is wrong. -/
def Slips (x : Except SettingsError α) (e : SettingsError) : Prop := x = .error e ∧ ¬ e.IsConfiguration

theorem not_slips_ok (a : α) : ¬ Slips (.ok a) e := fun slips => by cases slips.1

theorem not_slips_error {other : SettingsError} (configuration : other.IsConfiguration) :
    ¬ Slips (.error other : Except SettingsError α) e := by
  rintro ⟨same, slips⟩
  exact slips (Except.error.inj same ▸ configuration)

theorem slips_error_iff {other : SettingsError} (slip : ¬ other.IsConfiguration) :
    Slips (.error other : Except SettingsError α) e ↔ e = other :=
  ⟨fun slips => (Except.error.inj slips.1).symm, fun same => ⟨congrArg _ same.symm, same ▸ slip⟩⟩

/-- A sequence of conversions slips where the first of them that fails does. -/
theorem slips_bind {x : Except SettingsError α} {next : α → Except SettingsError β} :
    Slips (x >>= next) e ↔ Slips x e ∨ ∃ a, x = .ok a ∧ Slips (next a) e := by
  cases x with
  | error other =>
    change Slips (.error other) e ↔ _
    simp [Slips]
  | ok a =>
    change Slips (next a) e ↔ _
    simp [not_slips_ok]

theorem not_slips_textsOf (name : String) (value : Setting) : ¬ Slips (textsOf name value) e := by
  unfold textsOf
  split
  · exact not_slips_ok _
  · split
    · exact not_slips_ok _
    · exact not_slips_error trivial
  · exact not_slips_error trivial

theorem not_slips_entriesOf (value : Setting) : ¬ Slips (Settings.entriesOf value) e := by
  unfold Settings.entriesOf
  split
  · exact not_slips_ok _
  · exact not_slips_error trivial

theorem not_slips_notInteger (value : Setting) : ¬ Slips (.error (.notInteger value) : Except SettingsError Int) e :=
  not_slips_error trivial

theorem slips_integerOf {value : Setting} :
    Slips (integerOf value) e ↔ e = .infinite ∧ ∃ x : Float, value = .number x ∧ x.isInf = true := by
  have otherwise (noNumber : ∀ x : Float, value ≠ .number x) :
      ¬ (e = .infinite ∧ ∃ x : Float, value = .number x ∧ x.isInf = true) := fun ⟨_, x, same, _⟩ => noNumber x same
  cases value with
  | number x =>
    simp only [Datum.number.injEq, exists_eq_left', isInf_iff, integerOf]
    cases parts : Dyadic.ofFloat? x with
    | some d => exact iff_of_false (not_slips_ok _) (by simp)
    | none =>
      cases x.isNaN with
      | true => exact iff_of_false (not_slips_notInteger _) (by simp)
      | false => exact (slips_error_iff id).trans (by simp)
  | text t =>
    refine iff_of_false ?_ (otherwise (by simp))
    rw [integerOf]
    split
    · exact not_slips_ok _
    · exact not_slips_notInteger _
  | integer n => exact iff_of_false (not_slips_ok n) (otherwise (by simp))
  | truth b => exact iff_of_false (not_slips_ok _) (otherwise (by simp))
  | _ => exact iff_of_false (not_slips_notInteger _) (otherwise (by simp))

/-- **A limit slips** if it is infinite. -/
theorem slips_countOf {value : Setting} :
    Slips (countOf value) e ↔ e = .infinite ∧ ∃ x : Float, value = .number x ∧ x.isInf = true := by
  have later : ∀ n : Int, ¬ Slips (if n < 0 then throw (.negative value) else pure n.toNat) e := by
    intro n
    split
    · exact not_slips_error trivial
    · exact not_slips_ok _
  have settled : ¬ ∃ n, integerOf value = .ok n ∧
      Slips (if n < 0 then throw (.negative value) else pure n.toNat) e := by
    rintro ⟨n, _, slips⟩
    exact later n slips
  rw [countOf, slips_bind, or_iff_left settled, slips_integerOf]

/-- The descriptions of matchers among the inputs slip if an integer in them has too many digits. -/
theorem slips_readMatchers {text : String} :
    Slips (readMatchers text) e ↔
      ∃ count, Json.parse text = .error (.tooManyDigits count) ∧ e = .tooManyDigits count := by
  unfold readMatchers
  cases Json.parse text with
  | ok value => exact iff_of_false (not_slips_ok _) (by simp)
  | error error =>
    cases error with
    | malformed => exact iff_of_false (not_slips_error trivial) (by simp)
    | tooManyDigits count => exact (slips_error_iff id).trans (by simp)

end Slips

/-! ### Layers that slip -/

section Layers

variable {e : SettingsError} {environment : List (String × String)} {path : String} {r : Runner} {layers : List Layer}

/-- The limit among the inputs. -/
def limitInput (environment : List (String × String)) : Except SettingsError Setting :=
  let count := input environment "max-annotations"
  if count.isEmpty then .ok .null else (countOf (.text count)).map fun n => Datum.integer n

/-- The descriptions of matchers among the inputs. -/
def matchersInput (environment : List (String × String)) : Except SettingsError Setting :=
  let matchers := input environment "custom-matchers"
  if matchers.isEmpty then .ok .null else readMatchers matchers

theorem inputLayer_eq (environment : List (String × String)) : inputLayer environment =
    (limitInput environment >>= fun limit => matchersInput environment >>= fun matchers =>
      .ok [(.reports, textList (inputLines environment "reports")),
        (.ignored, textList (inputLines environment "ignore")),
        (.maxAnnotations, limit), (.customMatchers, matchers)]) := by
  unfold inputLayer limitInput matchersInput
  simp only [pure_bind]
  generalize input environment "max-annotations" = count
  generalize input environment "custom-matchers" = matchers
  generalize inputLines environment "reports" = reports
  generalize inputLines environment "ignore" = ignored
  split
  · split
    · rfl
    · rfl
  · refine bind_congr fun limit => ?_
    split
    · rfl
    · rfl

theorem not_slips_limitInput : ¬ Slips (limitInput environment) e := by
  unfold limitInput
  simp only
  split
  · exact not_slips_ok _
  · rintro ⟨failed, slip⟩
    cases read : countOf (.text (input environment "max-annotations")) with
    | ok n =>
      rw [read] at failed
      cases failed
    | error other =>
      rw [read] at failed
      obtain rfl : other = e := Except.error.inj failed
      obtain ⟨-, x, same, -⟩ := slips_countOf.mp ⟨read, slip⟩
      cases same

/-- The limit among the inputs is missing, or an integer. -/
theorem limitInput_ok {value : Setting} (given : limitInput environment = .ok value) :
    value = .null ∨ ∃ n : Nat, value = .integer n := by
  unfold limitInput at given
  simp only at given
  split at given
  · exact .inl (Except.ok.inj given).symm
  · cases read : countOf (.text (input environment "max-annotations")) with
    | ok n =>
      rw [read] at given
      exact .inr ⟨n, (Except.ok.inj given).symm⟩
    | error other =>
      rw [read] at given
      cases given

theorem slips_matchersInput : Slips (matchersInput environment) e ↔
    ∃ count, Json.parse (input environment "custom-matchers") = .error (.tooManyDigits count) ∧
      e = .tooManyDigits count := by
  unfold matchersInput
  simp only
  split
  next none =>
    have empty : Json.parse "" = .error .malformed := by rfl
    rw [String.isEmpty_iff.mp none, empty]
    exact iff_of_false (not_slips_ok _) (by simp)
  next => exact slips_readMatchers

/-- **The inputs slip** if an integer in the descriptions of matchers has too many digits, unless the limit is refused
before they are read. -/
theorem slips_inputLayer : Slips (inputLayer environment) e ↔ (∃ limit, limitInput environment = .ok limit) ∧
    ∃ count, Json.parse (input environment "custom-matchers") = .error (.tooManyDigits count) ∧
      e = .tooManyDigits count := by
  have noEnd (limit : Setting) : ¬ ∃ matchers, matchersInput environment = .ok matchers ∧
      Slips (.ok [(Key.reports, textList (inputLines environment "reports")),
        (.ignored, textList (inputLines environment "ignore")),
        (.maxAnnotations, limit), (.customMatchers, matchers)]) e := fun ⟨_, _, slips⟩ => not_slips_ok _ slips
  rw [inputLayer_eq, slips_bind, or_iff_right not_slips_limitInput]
  simp only [slips_bind, noEnd, or_false, slips_matchersInput, exists_and_right]

/-! ### The file -/

theorem exists_enterAll (path : String) (layer : Layer) (entries : List (String × Setting)) (r : Runner) :
    ∃ file, (enterAll path layer entries r).1 = .ok file := by
  induction entries generalizing layer r with
  | nil => exact ⟨layer, rfl⟩
  | cons entry entries ih =>
    obtain ⟨name, value⟩ := entry
    rw [enterAll]
    cases Key.names.lookup name with
    | some key => exact ih _ r
    | none =>
      obtain ⟨file, entered⟩ := ih layer
        (r.log ⟨Record.warningLevel, "Unknown setting " ++ Text.quoted name ++ " in " ++ path⟩)
      exact ⟨file, entered⟩

/-- **The file slips** if an integer in it has too many digits. -/
theorem slips_fileLayer : Slips (fileLayer path r).1 e ↔ ∃ text count, r.workspace.read path = .ok text ∧
    Json.parseYaml text = .error (.tooManyDigits count) ∧ e = .tooManyDigits count := by
  rw [fileLayer, Work.get_bind]
  cases content : r.workspace.read path with
  | error _ => exact iff_of_false (not_slips_ok _) (by simp)
  | ok text =>
    simp only [Except.ok.injEq, exists_and_left, exists_eq_left']
    have noted : (Work.info ("Using config file at " ++ path) : Work SettingsError Unit).Gives () :=
      Work.gives_log _ _
    obtain ⟨s, first⟩ := noted r
    rw [Work.bind_ok first]
    cases parsed : Json.parseYaml text with
    | error error =>
      cases error with
      | malformed => exact iff_of_false (not_slips_error trivial) (by simp)
      | tooManyDigits count => exact (slips_error_iff id).trans (by simp)
    | ok value =>
      refine iff_of_false ?_ (by simp)
      cases value with
      | null => exact not_slips_ok _
      | mapping entries =>
        obtain ⟨file, entered⟩ := exists_enterAll path [] entries s
        simp only [entered]
        exact not_slips_ok _
      | _ => exact not_slips_error trivial

/-- A file that is read and has a layer has entries; without a layer it has none. -/
theorem exists_fileLayer {entries : List (String × Setting)} (there : fileEntries? r.workspace path = some entries) :
    ∃ file, (fileLayer path r).1 = .ok file := by
  unfold fileEntries? at there
  rw [fileLayer, Work.get_bind]
  cases content : r.workspace.read path with
  | error _ => exact ⟨[], rfl⟩
  | ok text =>
    rw [content] at there
    have noted : (Work.info ("Using config file at " ++ path) : Work SettingsError Unit).Gives () :=
      Work.gives_log _ _
    obtain ⟨s, first⟩ := noted r
    simp only [Work.bind_ok first]
    simp only at there
    split at there
    next read =>
      rw [read]
      exact ⟨[], rfl⟩
    next read =>
      rw [read]
      exact exists_enterAll path [] _ s
    · cases there

/-! ### Layers together -/

/-- Whether settings can hold a value under a key. -/
def Fits (value : Setting) (key : Key) : Prop := ∃ s : Settings, s.Has value key

theorem textsOf_of_ofTexts {name : String} {value : Setting} {texts : List String} (given : OfTexts value texts) :
    textsOf name value = .ok texts := by
  have all : ∀ texts : List String, textItems? (texts.map Datum.text) = some texts := by
    intro texts
    induction texts with
    | nil => rfl
    | cons text texts ih => rw [List.map_cons, textItems?, ih, Option.map_some]
  rcases given with rfl | ⟨text, rfl, rfl⟩
  · rw [textList, textsOf, all]
  · rfl

/-- A setting other than the limit can be held if it is converted. -/
theorem fits_texts_iff {name : String} {value : Setting} :
    (∃ texts, OfTexts value texts) ↔ ∃ texts, textsOf name value = .ok texts :=
  exists_congr fun _ => ⟨textsOf_of_ofTexts, ofTexts_of_textsOf⟩

theorem fits_reports {value : Setting} : Fits value .reports ↔ ∃ texts, OfTexts value texts :=
  ⟨fun ⟨s, has⟩ => ⟨s.reports, has⟩, fun ⟨texts, has⟩ => ⟨⟨texts, [], 0, []⟩, has⟩⟩

theorem fits_ignored {value : Setting} : Fits value .ignored ↔ ∃ texts, OfTexts value texts :=
  ⟨fun ⟨s, has⟩ => ⟨s.ignored, has⟩, fun ⟨texts, has⟩ => ⟨⟨[], texts, 0, []⟩, has⟩⟩

theorem fits_customMatchers {value : Setting} :
    Fits value .customMatchers ↔ ∃ entries, Settings.entriesOf value = .ok entries := by
  constructor
  · rintro ⟨s, has⟩
    obtain rfl : value = .mapping s.customMatchers := has
    exact ⟨s.customMatchers, rfl⟩
  · rintro ⟨entries, given⟩
    exact ⟨⟨[], [], 0, entries⟩, eq_of_entriesOf given⟩

/-- **Layers slip** if the limit is infinite, unless another setting is refused before. -/
theorem slips_ofLayers : Slips (ofLayers layers) e ↔ e = .infinite ∧
    (∀ key, key ≠ .maxAnnotations → Fits (choose layers key) key) ∧
      ∃ x : Float, choose layers .maxAnnotations = .number x ∧ x.isInf = true := by
  have fits : (∀ key, key ≠ .maxAnnotations → Fits (choose layers key) key) ↔
      (∃ entries, Settings.entriesOf (choose layers .customMatchers) = .ok entries) ∧
      (∃ texts, textsOf "reports" (choose layers .reports) = .ok texts) ∧
      ∃ texts, textsOf "ignore" (choose layers .ignored) = .ok texts := by
    rw [← fits_customMatchers, ← fits_texts_iff, ← fits_reports, ← fits_texts_iff, ← fits_ignored]
    constructor
    · exact fun all => ⟨all _ (by decide), all _ (by decide), all _ (by decide)⟩
    · rintro ⟨matchers, reports, ignored⟩ key other
      cases key with
      | reports => exact reports
      | ignored => exact ignored
      | maxAnnotations => exact absurd rfl other
      | customMatchers => exact matchers
  rw [fits, ofLayers]
  simp only [slips_bind, not_slips_entriesOf, not_slips_textsOf, slips_countOf, false_or]
  constructor
  · rintro ⟨entries, matchers, reports, first, ignored, second, ⟨rfl, limit⟩ | ⟨n, -, slips⟩⟩
    · exact ⟨rfl, ⟨⟨entries, matchers⟩, ⟨reports, first⟩, ignored, second⟩, limit⟩
    · exact absurd slips (not_slips_ok _)
  · rintro ⟨rfl, ⟨⟨entries, matchers⟩, ⟨reports, first⟩, ignored, second⟩, limit⟩
    exact ⟨entries, matchers, reports, first, ignored, second, .inl ⟨rfl, limit⟩⟩

end Layers

end Settings

end XPathAnnotator
