/-
**Plain data.**

`Datum α` is the kind of value that settings, variables and custom functions are given in: nothing, truth
values, integers of any size, numbers, texts, lists, mappings in the order of their keys, and values of a
type `α` that the domain adds. `Datum.shown` is the form of a datum in messages, `Datum.isGiven` tells
whether a datum counts as given where an empty one is passed over.
-/

import XPathAnnotator.Number.Numeral
import XPathAnnotator.Text.Quoted

namespace XPathAnnotator.Data

open XPathAnnotator

/-- Plain data, with values of the type `α` among them. -/
inductive Datum (α : Type) where
  | null
  | truth (value : Bool)
  | integer (value : Int)
  | number (value : Float)
  | text (value : String)
  | list (items : List (Datum α))
  | mapping (entries : List (String × Datum α))
  | foreign (value : α)

instance {α : Type} : Inhabited (Datum α) := ⟨.null⟩

namespace Datum

variable {α : Type}

/-- The form of a truth value in messages. -/
def shownTruth (value : Bool) : String := if value then "True" else "False"

mutual

/-- The form of a datum in messages. -/
def shown (shownForeign : α → String) : Datum α → String
  | null => "None"
  | truth value => shownTruth value
  | integer value => toString value
  | number value => Number.shown value
  | text value => Text.quoted value
  | list items => "[" ++ String.intercalate ", " (shownItems shownForeign items) ++ "]"
  | mapping entries => "\x7b" ++ String.intercalate ", " (shownEntries shownForeign entries) ++ "\x7d"
  | foreign value => shownForeign value

/-- The forms of the items of a list. -/
def shownItems (shownForeign : α → String) : List (Datum α) → List String
  | [] => []
  | item :: items => shown shownForeign item :: shownItems shownForeign items

/-- The forms of the entries of a mapping. -/
def shownEntries (shownForeign : α → String) : List (String × Datum α) → List String
  | [] => []
  | (key, value) :: entries =>
    (Text.quoted key ++ ": " ++ shown shownForeign value) :: shownEntries shownForeign entries

end

/-- Whether a datum counts as given: it is not null, false, zero or empty. -/
def isGiven : Datum α → Bool
  | null => false
  | truth value => value
  | integer value => value != 0
  | number value => !(value == 0)
  | text value => !value.isEmpty
  | list items => !items.isEmpty
  | mapping entries => !entries.isEmpty
  | foreign _ => true

/-- Enters a value under a key: the value of a key that is already there is replaced in its place. -/
def put {κ β : Type} [DecidableEq κ] (key : κ) (value : β) : List (κ × β) → List (κ × β)
  | [] => [(key, value)]
  | (other, old) :: entries =>
    if other = key then (other, value) :: entries else (other, old) :: put key value entries

/-- The value that a mapping has under a key. -/
def entry? (key : String) : Datum α → Option (Datum α)
  | mapping entries => entries.lookup key
  | _ => none

end Datum

/-- A type without values. -/
abbrev NoValue := Empty

/-- Plain data and nothing else: what settings are written in. -/
abbrev Setting := Datum NoValue

/-- The form of a setting in messages. -/
def Setting.shown (s : Setting) : String := Datum.shown (fun value : NoValue => nomatch value) s

/-- The text that a setting stands for where a text is wanted: a text is itself. -/
def Setting.toText : Setting → String
  | .text value => value
  | s => s.shown

end XPathAnnotator.Data
