/-
**What settings describe.**

A matcher is described by a mapping from the names of fields to values. A field may be left out, it may be null, or it
may have a text; a field that is given twice has the later value. The entries are taken up one after the other, and
the matcher has for each field what the last entry for it says.

* `entryOf?`, `GivesText`, `GivesCondition` — what entries say of a field;
* `enter_level`, `enter_text` — what taking up one entry does;
* `text_enterAll`, `fits_enterAll`, `levels_enterAll` — what has been taken up after all of them;
* `Describes`, `describes_of_ofSetting` — the matcher that entries describe.
-/

import Mathlib
import XPathAnnotator.Proofs.Data.Lookups
import XPathAnnotator.Proofs.Eval.Outcomes
import XPathAnnotator.Report.Matcher

namespace XPathAnnotator.Report.Matcher

open XPathAnnotator.Data

/-! ### Entries -/

/-- The value of the last entry for a field, in either of its spellings. -/
def entryOf? (entries : List (String × Setting)) (field : Field) : Option Setting :=
  lastNamed? fieldNames entries field

/-- A value as a text, if it is one. -/
def textOf? : Setting → Option String
  | .text text => some text
  | _ => none

/-- Whether entries give a text for a field. -/
def GivesText (entries : List (String × Setting)) (field : Field) (source : String) : Prop :=
  entryOf? entries field = some (.text source)

/-- Whether entries give a condition for a level. -/
def GivesCondition (entries : List (String × Setting)) (condition : String) : Prop :=
  ∃ levels name, entryOf? entries .level = some (.mapping levels) ∧ (name, .text condition) ∈ levels

theorem eq_text_of_textOf? {value : Setting} {text : String} (same : textOf? value = some text) :
    value = .text text := by
  cases value with
  | text t => rw [Option.some.inj same]
  | _ => cases same

/-! ### Taking up entries -/

variable {draft result : Draft} {name : String} {value : Setting} {field : Field}
  {entries : List (String × Setting)}

/-- What the entry of the levels changes. -/
theorem enter_level (named : fieldNames.lookup name = some .level) (entered : draft.enter name value = .ok result) :
    levelTexts value = .ok result.levels ∧ result.texts = draft.texts := by
  rw [Draft.enter, named] at entered
  cases read : levelTexts value with
  | error e =>
    rw [read] at entered
    cases entered
  | ok levels =>
    rw [read] at entered
    obtain rfl := Except.ok.inj entered
    exact ⟨rfl, rfl⟩

/-- What the entry of another field changes. -/
theorem enter_text (named : fieldNames.lookup name = some field) (other : field ≠ .level)
    (entered : draft.enter name value = .ok result) :
    (value = .null ∨ ∃ text, value = .text text) ∧ result.levels = draft.levels ∧
      result.texts = Datum.put field (textOf? value) draft.texts := by
  rw [Draft.enter, named] at entered
  cases value with
  | null =>
    cases field with
    | level => exact absurd rfl other
    | _ =>
      obtain rfl := Except.ok.inj entered
      exact ⟨.inl rfl, rfl, rfl⟩
  | text t =>
    cases field with
    | level => exact absurd rfl other
    | _ =>
      obtain rfl := Except.ok.inj entered
      exact ⟨.inr ⟨t, rfl⟩, rfl, rfl⟩
  | _ =>
    cases field with
    | level => exact absurd rfl other
    | _ => cases entered

/-- Only entries for fields are taken up. -/
theorem exists_field_of_enter (entered : draft.enter name value = .ok result) :
    ∃ field, fieldNames.lookup name = some field := by
  cases named : fieldNames.lookup name with
  | none =>
    rw [Draft.enter, named] at entered
    cases entered
  | some field => exact ⟨field, rfl⟩

/-- Entries are taken up one after the other. -/
def Draft.enterAll (draft : Draft) (entries : List (String × Setting)) : Except MatcherError Draft :=
  entries.foldlM (fun (d : Draft) entry => d.enter entry.1 entry.2) draft

theorem exists_of_enterAll_cons {entry : String × Setting}
    (entered : draft.enterAll (entry :: entries) = .ok result) :
    ∃ next, draft.enter entry.1 entry.2 = .ok next ∧ next.enterAll entries = .ok result := by
  rw [Draft.enterAll, List.foldlM_cons] at entered
  exact exists_of_bind_eq_ok entered

theorem entryOf?_cons (entry : String × Setting) (entries : List (String × Setting)) (field : Field) :
    entryOf? (entry :: entries) field =
      (entryOf? entries field).or (if fieldNames.lookup entry.1 = some field then some entry.2 else none) :=
  lastNamed?_cons fieldNames entry entries field

/-- **The texts that have been taken up** are those of the last entries for their fields. -/
theorem text_enterAll (entered : draft.enterAll entries = .ok result) (other : field ≠ .level) :
    result.texts.lookup field = ((entryOf? entries field).map textOf?).or (draft.texts.lookup field) := by
  induction entries generalizing draft with
  | nil =>
    obtain rfl := Except.ok.inj entered
    rfl
  | cons entry entries ih =>
    obtain ⟨next, first, rest⟩ := exists_of_enterAll_cons entered
    obtain ⟨here, named⟩ := exists_field_of_enter first
    rw [ih rest, entryOf?_cons, Option.map_or, Option.or_assoc, named]
    by_cases same : here = field
    · subst same
      obtain ⟨-, -, texts⟩ := enter_text named other first
      rw [texts, lookup_put, if_pos rfl, if_pos rfl]
      rfl
    · rw [if_neg fun found => same (Option.some.inj found)]
      congr 1
      by_cases isLevel : here = .level
      · subst isLevel
        obtain ⟨-, texts⟩ := enter_level named first
        rw [texts]
        rfl
      · obtain ⟨-, -, texts⟩ := enter_text named isLevel first
        rw [texts, lookup_put, if_neg (Ne.symm same)]
        rfl

/-- Their values are null or texts. -/
theorem fits_enterAll (entered : draft.enterAll entries = .ok result) (other : field ≠ .level)
    (given : entryOf? entries field = some value) : value = .null ∨ ∃ text, value = .text text := by
  induction entries generalizing draft with
  | nil => cases given
  | cons entry entries ih =>
    obtain ⟨next, first, rest⟩ := exists_of_enterAll_cons entered
    rw [entryOf?_cons, Option.or_eq_some_iff] at given
    rcases given with later | ⟨-, here⟩
    · exact ih rest later
    · obtain ⟨named, same⟩ := Option.ite_none_right_eq_some.mp here
      rw [← Option.some.inj same]
      exact (enter_text named other first).1

/-- **The levels that have been taken up** are those of the last entry for levels. -/
theorem levels_enterAll (entered : draft.enterAll entries = .ok result) :
    (∃ value, entryOf? entries .level = some value ∧ levelTexts value = .ok result.levels) ∨
      entryOf? entries .level = none ∧ result.levels = draft.levels := by
  induction entries generalizing draft with
  | nil =>
    obtain rfl := Except.ok.inj entered
    exact .inr ⟨rfl, rfl⟩
  | cons entry entries ih =>
    obtain ⟨next, first, rest⟩ := exists_of_enterAll_cons entered
    rw [entryOf?_cons]
    rcases ih rest with ⟨value, later, read⟩ | ⟨noLater, kept⟩
    · exact .inl ⟨value, by rw [later, Option.some_or], read⟩
    · obtain ⟨here, named⟩ := exists_field_of_enter first
      rw [noLater, Option.none_or, named, kept]
      by_cases isLevel : here = .level
      · subst isLevel
        exact .inl ⟨entry.2, if_pos rfl, (enter_level named first).1⟩
      · refine .inr ⟨if_neg fun found => isLevel (Option.some.inj found), ?_⟩
        exact (enter_text named isLevel first).2.1

/-! ### Levels -/

theorem eq_of_textEntries? {given : List (String × Setting)} {levels : List (String × String)}
    (texts : textEntries? given = some levels) : given = levels.map fun level => (level.1, .text level.2) := by
  induction given generalizing levels with
  | nil =>
    obtain rfl := Option.some.inj texts
    rfl
  | cons entry given ih =>
    obtain ⟨name, value⟩ := entry
    cases value with
    | text condition =>
      obtain ⟨rest, later, rfl⟩ := Option.map_eq_some_iff.mp texts
      rw [List.map_cons, ih later]
    | _ => cases texts

/-- A level with its condition comes from an entry. -/
theorem exists_of_levelTexts {levels : List (String × String)} (read : levelTexts value = .ok levels)
    {level : String × String} (met : level ∈ levels) :
    ∃ given, value = .mapping given ∧ (level.1, .text level.2) ∈ given := by
  cases value with
  | null =>
    obtain rfl := Except.ok.inj read
    exact absurd met List.not_mem_nil
  | mapping given =>
    rw [levelTexts] at read
    split at read
    next levels' texts =>
      obtain rfl := Except.ok.inj read
      refine ⟨given, rfl, ?_⟩
      rw [eq_of_textEntries? texts]
      exact List.mem_map_of_mem met
    · cases read
  | _ => cases read

theorem conditions_of_namedLevels {named : List (String × String)} {levels : List (ItemLevel × String)}
    (known : namedLevels named = .ok levels) : levels.map Prod.snd = named.map Prod.snd := by
  induction named generalizing levels with
  | nil =>
    obtain rfl := Except.ok.inj known
    rfl
  | cons entry named ih =>
    obtain ⟨name, condition⟩ := entry
    rw [namedLevels] at known
    split at known
    · cases later : namedLevels named with
      | error e =>
        rw [later] at known
        cases known
      | ok rest =>
        rw [later] at known
        obtain rfl := Except.ok.inj known
        rw [List.map_cons, List.map_cons, ih later]
    · cases known

/-! ### The matcher of a description -/

/-- Whether a matcher is the one that entries describe, as far as its expressions go. -/
structure Describes (entries : List (String × Setting)) (m : Matcher) : Prop where
  item : GivesText entries .item m.item
  /-- The message is a text, null, or the empty text where it is left out. -/
  message : (∃ source, GivesText entries .message source ∧ m.message = some source) ∨
    (entryOf? entries .message = some .null ∧ m.message = none) ∨
    (entryOf? entries .message = none ∧ m.message = some "")
  property : ∀ p source, m.expressionOf p = some source → GivesText entries (.property p) source
  condition : ∀ entry ∈ m.levels, GivesCondition entries entry.2

/-- The text of a field, or what stands for a field that is left out. -/
theorem text_of_enterAll (entered : ({} : Draft).enterAll entries = .ok result) (other : field ≠ .level)
    (default : Option String) :
    (result.texts.lookup field).getD default = (entryOf? entries field).elim default textOf? := by
  rw [text_enterAll entered other]
  cases entryOf? entries field with
  | none => rfl
  | some value => rfl

theorem givesText_of_enterAll (entered : ({} : Draft).enterAll entries = .ok result) (other : field ≠ .level)
    {source : String} (given : (result.texts.lookup field).getD none = some source) :
    GivesText entries field source := by
  rw [text_of_enterAll entered other] at given
  cases there : entryOf? entries field with
  | none =>
    rw [there] at given
    cases given
  | some value =>
    rw [there] at given
    rw [GivesText, there, eq_text_of_textOf? given]

/-- **A matcher that is accepted is the one that its entries describe.** -/
theorem describes_of_ofSetting {m : Matcher} (accepted : ofSetting (.mapping entries) = .ok m) :
    Describes entries m := by
  rw [ofSetting] at accepted
  obtain ⟨draft, entered, accepted⟩ := exists_of_bind_eq_ok accepted
  change ({} : Draft).enterAll entries = .ok draft at entered
  rw [Draft.toMatcher] at accepted
  split at accepted
  · cases accepted
  · cases accepted
  next item _ given =>
    obtain ⟨levels, known, accepted⟩ := exists_of_bind_eq_ok accepted
    obtain rfl := Except.ok.inj accepted
    refine ⟨givesText_of_enterAll entered (by decide) given, ?_, fun p source given => ?_, fun entry met => ?_⟩
    · change (∃ source, _ ∧ (draft.texts.lookup .message).getD (some "") = some source) ∨
        (_ ∧ (draft.texts.lookup .message).getD (some "") = none) ∨
        (_ ∧ (draft.texts.lookup .message).getD (some "") = some "")
      rw [text_of_enterAll entered (by decide)]
      cases there : entryOf? entries .message with
      | none => exact .inr (.inr ⟨rfl, rfl⟩)
      | some value =>
        rcases fits_enterAll entered (by decide) there with rfl | ⟨text, rfl⟩
        · exact .inr (.inl ⟨rfl, rfl⟩)
        · exact .inl ⟨text, there, rfl⟩
    · have taken : (draft.texts.lookup (.property p)).getD none = some source := by
        cases p with
        | _ => exact given
      exact givesText_of_enterAll entered (by simp) taken
    · have listed : entry.2 ∈ draft.levels.map Prod.snd := by
        rw [← conditions_of_namedLevels known]
        exact List.mem_map_of_mem met
      obtain ⟨level, inDraft, same⟩ := List.mem_map.mp listed
      rcases levels_enterAll entered with ⟨value, there, read⟩ | ⟨-, kept⟩
      · obtain ⟨given, rfl, member⟩ := exists_of_levelTexts read inDraft
        exact ⟨given, level.1, there, same ▸ member⟩
      · rw [kept] at inDraft
        exact absurd inDraft List.not_mem_nil

end XPathAnnotator.Report.Matcher
