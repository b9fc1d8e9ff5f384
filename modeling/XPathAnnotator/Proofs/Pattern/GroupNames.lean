/-
**Where a group has a name.**

Matchers write `(?<name>…)` for a group with a name, and the reader of expressions wants a `P` after the question mark.
Whether `(?<` begins such a group is told by looking back: its parenthesis must not be escaped and must not stand in a
set of characters. The form that is read gets its letters without regard to sets, so `[(?<a>]` becomes another set.

* `isEscapedAfter`, `isInSetAfter` — what stands before decides, read backwards;
* `opensGroup`, `namesGroup` — the places of `(?<` without regard to sets, and those where a group has a name;
* `lettered` — a text with a letter put in at some places;
* `lettered_eq_iff` — two choices of places, one of them smaller, give one text only if they agree on it;
* `spellGroupsIn_eq` — **one pass over the text** finds the places that looking back tells;
* `spellGroups_places` — **the form that is read**, and when it is right;
* `spellGroups_set` — a set that it changes.
-/

import Mathlib
import XPathAnnotator.Pattern.Match
import XPathAnnotator.Pattern.Parser

namespace XPathAnnotator.Pattern

/-! ### Looking back -/

/-- Whether a character is escaped, by those before it, the nearest one first: the backslashes directly before it are
odd in number. -/
def isEscapedAfter (back : List Char) : Bool := (back.takeWhile (· == '\\')).length % 2 == 1

/-- Whether a character stands in a set, by those before it, the nearest one first: the nearest bracket that is not
escaped is an opening one. An opening bracket in a set and a closing one outside of sets change nothing. -/
def isInSetAfter : List Char → Bool
  | [] => false
  | c :: back => if (c == '[' || c == ']') && !isEscapedAfter back then c == '[' else isInSetAfter back

/-- Whether `(?<` that opens a group ends at a place, without regard to sets: the characters before the `<`, the nearest
one first, and those from it on. An equals sign or an exclamation mark behind it makes it a look behind. -/
def opensGroup (back rest : List Char) : Bool :=
  match back, rest with
  | '?' :: '(' :: earlier, '<' :: after =>
    !isEscapedAfter earlier && after.head? != some '=' && after.head? != some '!'
  | _, _ => false

/-- Whether a group with a name is opened at a place. -/
def namesGroup (back rest : List Char) : Bool := opensGroup back rest && !isInSetAfter back

/-- A text with a `P` before the characters at some places, after those that have been passed, the nearest one first. -/
def lettered (isPlace : List Char → List Char → Bool) (back : List Char) : List Char → List Char
  | [] => []
  | c :: rest =>
    if isPlace back (c :: rest) then 'P' :: c :: lettered isPlace (c :: back) rest
    else c :: lettered isPlace (c :: back) rest

section Looking

variable {c d : Char} {back rest after : List Char}

theorem isEscapedAfter_cons (other : c ≠ '\\') : isEscapedAfter (c :: back) = false := by
  rw [isEscapedAfter, List.takeWhile_cons_of_neg (by simpa using other)]
  rfl

theorem isEscapedAfter_backslash : isEscapedAfter ('\\' :: back) = !isEscapedAfter back := by
  rw [isEscapedAfter, isEscapedAfter, List.takeWhile_cons_of_pos (by simp), List.length_cons]
  rcases Nat.mod_two_eq_zero_or_one (back.takeWhile (· == '\\')).length with even | odd
  · simp [even, Nat.add_mod]
  · simp [odd, Nat.add_mod]

theorem opensGroup_of_rest (other : c ≠ '<') : opensGroup back (c :: rest) = false := by
  unfold opensGroup
  split
  next same => exact absurd (List.cons.inj same).1 other
  next => rfl

theorem opensGroup_of_back (other : c ≠ '?') : opensGroup (c :: back) rest = false := by
  unfold opensGroup
  split
  next same => exact absurd (List.cons.inj same).1 other
  next => rfl

theorem opensGroup_of_second (other : c ≠ '(') : opensGroup (d :: c :: back) rest = false := by
  unfold opensGroup
  split
  next same => exact absurd (List.cons.inj (List.cons.inj same).2).1 other
  next => rfl

theorem opensGroup_group : opensGroup ('?' :: '(' :: back) ('<' :: after) =
    (!isEscapedAfter back && after.head? != some '=' && after.head? != some '!') := rfl

theorem opensGroup_of_namesGroup (named : namesGroup back rest = true) : opensGroup back rest = true :=
  (Bool.and_eq_true _ _ ▸ named).1

end Looking

/-! ### Letters -/

section Letters

variable {all some : List Char → List Char → Bool}
  (fewer : ∀ back rest, some back rest = true → all back rest = true)

include fewer

theorem length_lettered_le (back rest : List Char) :
    (lettered some back rest).length ≤ (lettered all back rest).length := by
  induction rest generalizing back with
  | nil => exact le_rfl
  | cons c rest ih =>
    have later := ih (c :: back)
    rw [lettered, lettered]
    by_cases here : some back (c :: rest) = true
    · rw [if_pos here, if_pos (fewer _ _ here)]
      simpa using later
    · rw [if_neg here]
      split <;> simp only [List.length_cons] <;> omega

/-- Two choices of places, one of them smaller, give one text only if they agree on it. -/
theorem lettered_eq_iff (back rest : List Char) :
    lettered all back rest = lettered some back rest ↔
      ∀ front c later, rest = front ++ c :: later → all (front.reverse ++ back) (c :: later) = true →
        some (front.reverse ++ back) (c :: later) = true := by
  induction rest generalizing back with
  | nil =>
    refine iff_of_true rfl fun front c later parts => ?_
    exact absurd (congrArg List.length parts) (by simp)
  | cons c rest ih =>
    have here_and_later : (∀ front d later, c :: rest = front ++ d :: later →
          all (front.reverse ++ back) (d :: later) = true → some (front.reverse ++ back) (d :: later) = true) ↔
        (all back (c :: rest) = true → some back (c :: rest) = true) ∧
          lettered all (c :: back) rest = lettered some (c :: back) rest := by
      rw [ih]
      constructor
      · refine fun agree => ⟨agree [] c rest rfl, fun front d later parts => ?_⟩
        have further := agree (c :: front) d later (by rw [parts, List.cons_append])
        rwa [List.reverse_cons, List.append_assoc] at further
      · rintro ⟨here, further⟩ front d later parts
        cases front with
        | nil =>
          obtain ⟨rfl, rfl⟩ := List.cons.inj parts
          exact here
        | cons first front =>
          obtain ⟨rfl, rfl⟩ := List.cons.inj parts
          rw [List.reverse_cons, List.append_assoc]
          exact further front d later rfl
    rw [here_and_later, lettered, lettered]
    by_cases place : all back (c :: rest) = true
    · by_cases chosen : some back (c :: rest) = true
      · simp [place, chosen]
      · -- With a letter more here there are more letters in the whole.
        rw [if_pos place, if_neg chosen]
        refine iff_of_false (fun same => ?_) fun both => chosen (both.1 place)
        have lengths := congrArg List.length same
        have later := length_lettered_le fewer (c :: back) rest
        simp only [List.length_cons] at lengths
        omega
    · simp [place, mt (fewer _ _) place]

/-- The same for a whole text, with what has been passed read backwards. -/
theorem lettered_eq_iff_forall (none : ∀ back, all back [] = false) (cs : List Char) :
    lettered all [] cs = lettered some [] cs ↔
      ∀ back rest, cs = back.reverse ++ rest → all back rest = true → some back rest = true := by
  rw [lettered_eq_iff fewer]
  constructor
  · intro agree back rest parts place
    cases rest with
    | nil =>
      rw [none] at place
      cases place
    | cons c later =>
      have here := agree back.reverse c later parts
      rw [List.reverse_reverse, List.append_nil] at here
      exact here place
  · intro agree front c later parts
    rw [List.append_nil]
    exact agree front.reverse (c :: later) (by rw [List.reverse_reverse]; exact parts)

end Letters

theorem lettered_nowhere (back rest : List Char) : lettered (fun _ _ => false) back rest = rest := by
  induction rest generalizing back with
  | nil => rfl
  | cons c rest ih => rw [lettered, if_neg (by decide), ih]

/-! ### One pass over the text -/

/-- Whether a pass over a text stands between two groups, where what has been passed is read backwards: no escape is
open that could matter, and no `(?<` has been begun and not been seen. -/
structure Between (back rest : List Char) : Prop where
  notEscaped : isEscapedAfter back = true → rest = [] ∨ ∃ after, rest = '\n' :: after
  notBegun : opensGroup back rest = false
  notHalfBegun : ∀ after, rest = '?' :: after → opensGroup ('?' :: back) after = false

namespace Between

variable {c d : Char} {back rest after : List Char}

/-- The pass starts between groups. -/
theorem start (rest : List Char) : Between [] rest where
  notEscaped escaped := absurd escaped (by decide)
  notBegun := rfl
  notHalfBegun _ _ := rfl

theorem notEscaped_of_mark (between : Between back (c :: rest)) (mark : c ≠ '\n') : isEscapedAfter back = false := by
  by_contra escaped
  rcases between.notEscaped (by simpa using escaped) with none | ⟨_, feed⟩
  · exact absurd none (List.cons_ne_nil _ _)
  · exact mark (List.cons.inj feed).1

/-- A character that begins nothing. -/
theorem plain (between : Between back (c :: rest))
    (noEscape : c = '\\' → rest = [] ∨ ∃ after, rest = '\n' :: after)
    (noGroup : c = '(' → ∀ after, rest = '?' :: '<' :: after → after.head? = some '=' ∨ after.head? = some '!') :
    Between (c :: back) rest where
  notEscaped escaped := by
    by_cases backslash : c = '\\'
    · exact noEscape backslash
    · rw [isEscapedAfter_cons backslash] at escaped
      cases escaped
  notBegun := by
    by_cases mark : c = '?'
    · subst mark
      exact between.notHalfBegun rest rfl
    · exact opensGroup_of_back mark
  notHalfBegun after next := by
    by_cases opening : c = '('
    · subst opening
      unfold opensGroup
      split
      next earlier after same =>
        obtain rfl := (List.cons.inj (List.cons.inj same).2).2
        rcases noGroup rfl after next with behind | behind <;> simp [behind]
      next => rfl
    · exact opensGroup_of_second opening

/-- A backslash with the character that it escapes. -/
theorem escape (between : Between back ('\\' :: d :: after)) : Between (d :: '\\' :: back) after where
  notEscaped escaped := by
    have even := between.notEscaped_of_mark (by decide)
    by_cases backslash : d = '\\'
    · rw [backslash, isEscapedAfter_backslash, isEscapedAfter_backslash, even] at escaped
      cases escaped
    · rw [isEscapedAfter_cons backslash] at escaped
      cases escaped
  notBegun := opensGroup_of_second (by decide)
  notHalfBegun rest next := by
    by_cases opening : d = '('
    · subst opening
      have odd : isEscapedAfter ('\\' :: back) = true := by
        rw [isEscapedAfter_backslash, between.notEscaped_of_mark (by decide)]
        rfl
      unfold opensGroup
      split
      next same =>
        obtain rfl := (List.cons.inj (List.cons.inj same).2).2
        simp [odd]
      next => rfl
    · exact opensGroup_of_second opening

/-- The beginning of a group. -/
theorem group : Between ('<' :: '?' :: '(' :: back) after where
  notEscaped escaped := by
    rw [isEscapedAfter_cons (by decide)] at escaped
    cases escaped
  notBegun := opensGroup_of_back (by decide)
  notHalfBegun _ _ := opensGroup_of_second (by decide)

end Between

/-- **One pass over the text** finds the places that looking back tells. -/
theorem spellGroupsIn_eq {back rest : List Char} (between : Between back rest) :
    spellGroupsIn rest = lettered opensGroup back rest := by
  fun_induction spellGroupsIn rest generalizing back with
  | case1 => rfl
  | case2 after ih =>
    have further := between.plain (fun _ => .inr ⟨after, rfl⟩) (fun same => absurd same (by decide))
    rw [lettered, if_neg (by simp [between.notBegun]), ih further]
  | case3 d after _ ih =>
    have next : opensGroup ('\\' :: back) (d :: after) = false := opensGroup_of_back (by decide)
    rw [lettered, if_neg (by simp [between.notBegun]), lettered, if_neg (by simp [next]), ih between.escape]
  | case4 after behind ih =>
    have further := between.plain (fun same => absurd same (by decide)) fun _ other same => by
      obtain rfl := (List.cons.inj (List.cons.inj same).2).2
      exact behind
    rw [lettered, if_neg (by simp [between.notBegun]), ih further]
  | case5 after ahead ih =>
    obtain ⟨notEqual, notMark⟩ := not_or.mp ahead
    have mark : opensGroup ('(' :: back) ('?' :: '<' :: after) = false := opensGroup_of_rest (by decide)
    have place : opensGroup ('?' :: '(' :: back) ('<' :: after) = true := by
      rw [opensGroup_group, between.notEscaped_of_mark (by decide)]
      simp [notEqual, notMark]
    rw [lettered, if_neg (by simp [between.notBegun]), lettered, if_neg (by simp [mark]), lettered, if_pos place,
      ih Between.group]
  | case6 c rest noEscape noGroup ih =>
    have further := between.plain
      (fun same => by
        cases rest with
        | nil => exact .inl rfl
        | cons d after => exact (noEscape d after same rfl).elim)
      fun same after next => (noGroup after same next).elim
    rw [lettered, if_neg (by simp [between.notBegun]), ih further]

theorem spellGroups_eq (text : String) : spellGroups text = String.ofList (lettered opensGroup [] text.toList) := by
  rw [spellGroups, spellGroupsIn_eq (Between.start _)]

/-! ### The form that is read -/

/-- **The form that is read** has a `P` at each `(?<` that is not escaped and begins no look behind. It is the text with
the letters at the groups that have names exactly if none of these places stands in a set of characters, and it is the
text as it stands exactly if there is no such place. -/
theorem spellGroups_places (text : String) :
    compile text = parse (spellGroups text) ∧
      spellGroups text = String.ofList (lettered opensGroup [] text.toList) ∧
      (spellGroups text = String.ofList (lettered namesGroup [] text.toList) ↔
        ∀ back rest, text.toList = back.reverse ++ rest → opensGroup back rest = true → isInSetAfter back = false) ∧
      (spellGroups text = text ↔
        ∀ back rest, text.toList = back.reverse ++ rest → opensGroup back rest = false) := by
  have none (back : List Char) : opensGroup back [] = false := by
    unfold opensGroup
    split
    next same => cases same
    next => rfl
  have fewer (back rest : List Char) (named : namesGroup back rest = true) : opensGroup back rest = true :=
    opensGroup_of_namesGroup named
  have sparse : spellGroups text = text ↔
      lettered opensGroup [] text.toList = lettered (fun _ _ => false) [] text.toList := by
    rw [spellGroups_eq, lettered_nowhere, ← String.toList_inj, String.toList_ofList]
  refine ⟨rfl, spellGroups_eq text, ?_, ?_⟩
  · rw [spellGroups_eq, String.ofList_inj, lettered_eq_iff_forall fewer none]
    refine forall₃_congr fun back rest _ => forall_congr' fun place => ?_
    simp [namesGroup, place]
  · rw [sparse, lettered_eq_iff_forall (fun _ _ never => absurd never (by decide)) none]
    simp

/-- A set of characters in which a group with a name seems to begin is changed, although it has no group: the set that is
read lists the letter too. -/
theorem spellGroups_set :
    spellGroups "[(?<a>]" = "[(?P<a>]" ∧
      String.ofList (lettered namesGroup [] "[(?<a>]".toList) = "[(?<a>]" ∧
      (compile "[(?<a>]").toOption.map (fun compiled => (compiled.pattern.search compiled.groups "P").isSome) =
        some true := by
  rw [compile, spellGroups_eq]
  decide +kernel

end XPathAnnotator.Pattern
