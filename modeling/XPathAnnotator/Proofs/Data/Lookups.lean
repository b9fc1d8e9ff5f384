/-
**Tables and their keys.**

A list without its repetitions holds each of its items once, in the order of their first occurrences. A table whose
keys are such a list stays one when a value is entered: in the place of the key, or at the end under a new one.

A table is a list of entries, and what it has under a key is its first entry for the key. If no key has two entries,
the order does not matter, and what is entered, or taken out, changes what is found under this key only.

* `mem_of_lookup`, `lookup_of_mem`, `lookup_reverse` — entries, and what is found of them;
* `lookup_put`, `nodup_put`, `mem_put` — a table with one more entry;
* `lookup_filter_ne` — a table without a key;
* `lastNamed?`, `lastNamed?_cons` — the last of some entries whose keys have several names;
* `eraseDups_concat`, `nodup_eraseDups`, `eraseDups_append_eraseDups`, `eraseDups_eraseDups_append` — lists without
  their repetitions;
* `lookup_map_keys`, `put_map_keys` — reading and filling a table that is told by its keys.
-/

import Mathlib
import XPathAnnotator.Data.Datum

namespace XPathAnnotator

open Data

variable {κ β : Type} [DecidableEq κ] {key other : κ} {value : β} {table : List (κ × β)}

/-- No key of a table has two entries. -/
def HasDistinctKeys (table : List (κ × β)) : Prop := (table.map Prod.fst).Nodup

theorem mem_of_lookup (found : table.lookup key = some value) : (key, value) ∈ table := by
  obtain ⟨before, after, rfl, -⟩ := List.lookup_eq_some_iff.mp found
  exact List.mem_append_right _ List.mem_cons_self

theorem lookup_of_mem (distinct : HasDistinctKeys table) (member : (key, value) ∈ table) :
    table.lookup key = some value := by
  induction table with
  | nil => exact absurd member List.not_mem_nil
  | cons entry table ih =>
    obtain ⟨first, old⟩ := entry
    have apart : first ∉ table.map Prod.fst := (List.nodup_cons.mp distinct).1
    rcases List.mem_cons.mp member with same | inTable
    · obtain ⟨rfl, rfl⟩ := Prod.mk.inj same
      rw [List.lookup_cons, beq_self_eq_true]
    · have differs : key ≠ first := by
        rintro rfl
        exact apart (List.mem_map_of_mem (f := Prod.fst) inTable)
      rw [List.lookup_cons, beq_false_of_ne differs]
      exact ih (List.nodup_cons.mp distinct).2 inTable

theorem lookup_eq_some_iff_mem (distinct : HasDistinctKeys table) :
    table.lookup key = some value ↔ (key, value) ∈ table :=
  ⟨mem_of_lookup, lookup_of_mem distinct⟩

/-- **The order of entries does not matter** where no key has two of them. -/
theorem lookup_reverse (distinct : HasDistinctKeys table) : table.reverse.lookup key = table.lookup key := by
  have backwards : HasDistinctKeys table.reverse := by
    rw [HasDistinctKeys, List.map_reverse, List.nodup_reverse]
    exact distinct
  ext value
  rw [lookup_eq_some_iff_mem distinct, lookup_eq_some_iff_mem backwards, List.mem_reverse]

theorem lookup_put (key : κ) (value : β) (table : List (κ × β)) :
    (Datum.put key value table).lookup other = if other = key then some value else table.lookup other := by
  induction table with
  | nil =>
    by_cases same : other = key
    · simp [Datum.put, same]
    · simp [Datum.put, List.lookup, same, beq_false_of_ne same]
  | cons entry table ih =>
    obtain ⟨first, old⟩ := entry
    rw [Datum.put]
    split
    · rename_i found
      subst found
      by_cases same : other = first
      · simp [same]
      · simp [List.lookup_cons, same, beq_false_of_ne same]
    · rename_i differs
      by_cases first_ : other = first
      · subst first_
        simp [differs]
      · simp [List.lookup_cons, beq_false_of_ne first_, ih]

theorem mem_put {entry : κ × β} (member : entry ∈ Datum.put key value table) :
    entry = (key, value) ∨ entry ∈ table := by
  induction table with
  | nil => exact .inl (List.mem_singleton.mp member)
  | cons first table ih =>
    rw [Datum.put] at member
    split at member
    · rename_i found
      rcases List.mem_cons.mp member with same | member
      · exact .inl (by rw [same, found])
      · exact .inr (List.mem_cons_of_mem _ member)
    · rcases List.mem_cons.mp member with same | member
      · exact .inr (by rw [same]; exact List.mem_cons_self)
      · exact (ih member).imp_right (List.mem_cons_of_mem _)

theorem nodup_put (distinct : HasDistinctKeys table) : HasDistinctKeys (Datum.put key value table) := by
  induction table with
  | nil => exact List.nodup_singleton _
  | cons entry table ih =>
    obtain ⟨first, old⟩ := entry
    have apart : first ∉ table.map Prod.fst := (List.nodup_cons.mp distinct).1
    rw [Datum.put]
    split
    · exact distinct
    · rename_i differs
      refine List.nodup_cons.mpr ⟨fun member => ?_, ih (List.nodup_cons.mp distinct).2⟩
      obtain ⟨entry, inPut, rfl⟩ := List.mem_map.mp member
      rcases mem_put inPut with rfl | inTable
      · exact differs rfl
      · exact apart (List.mem_map_of_mem inTable)

theorem lookup_filter_ne (key : κ) (table : List (κ × β)) :
    (table.filter fun entry => entry.1 != key).lookup other = if other = key then none else table.lookup other := by
  induction table with
  | nil => simp
  | cons entry table ih =>
    obtain ⟨first, old⟩ := entry
    by_cases gone : first = key
    · subst gone
      rw [List.filter_cons_of_neg (by simp), ih, List.lookup_cons]
      by_cases same : other = first
      · simp [same]
      · simp [same, beq_false_of_ne same]
    · rw [List.filter_cons_of_pos (by simp [gone]), List.lookup_cons, List.lookup_cons, ih]
      by_cases same : other = first
      · subst same
        simp [gone]
      · simp [beq_false_of_ne same]

/-- The value of the last entry under a name of a key. -/
def lastNamed? (names : List (String × κ)) (entries : List (String × β)) (key : κ) : Option β :=
  (entries.reverse.find? fun entry => names.lookup entry.1 == some key).map Prod.snd

theorem lastNamed?_cons (names : List (String × κ)) (entry : String × β) (entries : List (String × β)) (key : κ) :
    lastNamed? names (entry :: entries) key =
      (lastNamed? names entries key).or (if names.lookup entry.1 = some key then some entry.2 else none) := by
  rw [lastNamed?, List.reverse_cons, List.find?_append, Option.map_or, lastNamed?]
  congr 1
  by_cases named : names.lookup entry.1 = some key
  · rw [if_pos named, List.find?_singleton, if_pos (beq_iff_eq.mpr named)]
    rfl
  · rw [if_neg named, List.find?_singleton, if_neg (mt beq_iff_eq.mp named)]
    rfl

section FirstOccurrences

variable {α β : Type} [DecidableEq α]

/-! ### Lists without their repetitions -/

theorem eraseDups_concat (items : List α) (a : α) :
    (items ++ [a]).eraseDups = if a ∈ items then items.eraseDups else items.eraseDups ++ [a] := by
  rw [List.eraseDups_append]
  by_cases there : a ∈ items
  · rw [if_pos there]
    simp [List.removeAll, there]
  · rw [if_neg there]
    simp [List.removeAll, there, List.eraseDups_cons]

theorem nodup_eraseDups (items : List α) : items.eraseDups.Nodup := by
  induction items using List.reverseRecOn with
  | nil => exact List.nodup_nil
  | append_singleton items a ih =>
    rw [eraseDups_concat]
    split
    · exact ih
    · rename_i new
      rw [List.nodup_append_comm, List.singleton_append, List.nodup_cons, List.mem_eraseDups]
      exact ⟨new, ih⟩

theorem eraseDups_append_eraseDups (items others : List α) :
    (items ++ others.eraseDups).eraseDups = (items ++ others).eraseDups := by
  induction others using List.reverseRecOn with
  | nil => rfl
  | append_singleton others a ih =>
    rw [eraseDups_concat, ← List.append_assoc, eraseDups_concat]
    by_cases there : a ∈ others
    · rw [if_pos there, if_pos (List.mem_append_right _ there), ih]
    · rw [if_neg there, ← List.append_assoc, eraseDups_concat, ih]
      simp only [List.mem_append, List.mem_eraseDups]

theorem eraseDups_eraseDups_append (items others : List α) :
    (items.eraseDups ++ others).eraseDups = (items ++ others).eraseDups := by
  induction others using List.reverseRecOn with
  | nil => simpa using eraseDups_append_eraseDups [] items
  | append_singleton others a ih =>
    rw [← List.append_assoc, ← List.append_assoc, eraseDups_concat, eraseDups_concat, ih]
    simp only [List.mem_append, List.mem_eraseDups]

/-- Several occurrences of one item at the end count as one. -/
theorem eraseDups_append_constant (items : List α) (a : α) {others : List β} (nonempty : others ≠ []) :
    (items ++ others.map fun _ => a).eraseDups = if a ∈ items then items.eraseDups else items.eraseDups ++ [a] := by
  have once : (others.map fun _ => a).eraseDups = [a] := by
    induction others using List.reverseRecOn with
    | nil => exact absurd rfl nonempty
    | append_singleton others b ih =>
      rw [List.map_append, List.map_singleton, eraseDups_concat]
      by_cases more : others = []
      · subst more
        rfl
      · rw [if_pos, ih more]
        exact List.mem_map.mpr ⟨others.head more, List.head_mem more, rfl⟩
  rw [← eraseDups_append_eraseDups, once, eraseDups_concat]

/-! ### Tables that are told by their keys -/

/-- What a table has under a key. -/
theorem lookup_map_keys (keys : List α) (value : α → β) (key : α) :
    (keys.map fun k => (k, value k)).lookup key = if key ∈ keys then some (value key) else none := by
  induction keys with
  | nil => rfl
  | cons k keys ih =>
    rw [List.map_cons, List.lookup_cons, ih]
    by_cases same : key = k
    · subst same
      rw [beq_self_eq_true, if_pos List.mem_cons_self]
    · simp only [beq_eq_false_iff_ne.mpr same, List.mem_cons, same, false_or]

/-- Entering a value into a table. -/
theorem put_map_keys {keys : List α} (nodup : keys.Nodup) (value : α → β) (key : α) (new : β) :
    Data.Datum.put key new (keys.map fun k => (k, value k)) =
      (if key ∈ keys then keys else keys ++ [key]).map fun k => (k, if k = key then new else value k) := by
  induction keys with
  | nil => simp [Data.Datum.put]
  | cons k keys ih =>
    obtain ⟨fresh, nodup⟩ := List.nodup_cons.mp nodup
    rw [List.map_cons, Data.Datum.put]
    by_cases same : k = key
    · subst same
      rw [if_pos rfl, if_pos List.mem_cons_self, List.map_cons, if_pos rfl]
      refine congrArg _ (List.map_congr_left fun other met => ?_)
      rw [if_neg fun same : other = k => fresh (same ▸ met)]
    · rw [if_neg same, ih nodup]
      have elsewhere : key ∈ k :: keys ↔ key ∈ keys := by simp [Ne.symm same]
      by_cases there : key ∈ keys
      · rw [if_pos there, if_pos (elsewhere.mpr there), List.map_cons, if_neg same]
      · rw [if_neg there, if_neg (mt elsewhere.mp there), List.cons_append, List.map_cons, if_neg same]

end FirstOccurrences

end XPathAnnotator
