/-
**Integers with too many digits.**

What is read of a text ends where the rest begins, so every numeral in it is a part of the text. That an integer has
too many digits is therefore said only of texts in which more digits than an integer may have stand side by side.

* `HasRow` — texts in which digits stand side by side;
* `Within` — results of readers that stay within their text; `Within.bind`, `Within.mono` — sequences of readers;
* `within_readText`, `within_readNumeral?`, `within_readAll` — the readers of texts, of numerals and of values;
* `hasRow_of_parse`, `hasRow_of_parseYaml` — texts that are not read for the digits of an integer.
-/

import Mathlib
import XPathAnnotator.Data.Json

namespace XPathAnnotator.Data.Json

/-- Whether some digits stand side by side in a text. -/
def HasRow (count : Nat) (cs : List Char) : Prop :=
  ∃ row, row <:+: cs ∧ row.length = count ∧ ∀ c ∈ row, c.isDigit = true

theorem HasRow.mono {count : Nat} {cs rest : List Char} (row : HasRow count rest) (inside : rest <:+ cs) :
    HasRow count cs := by
  obtain ⟨digits, there, length, all⟩ := row
  exact ⟨digits, there.trans inside.isInfix, length, all⟩

/-! ### Readers that stay within their text -/

section Within

variable {α β : Type} {cs rest : List Char}

/-- Whether a reader stays within its text: what it leaves is the end of the text, and the digits of which there are too
many stand in the text. -/
def Within (cs : List Char) : Except JsonError (α × List Char) → Prop
  | .ok (_, rest) => rest <:+ cs
  | .error (.tooManyDigits count) => Text.maxIntegerDigits < count ∧ HasRow count cs
  | .error .malformed => True

theorem Within.mono {result : Except JsonError (α × List Char)} (within : Within rest result) (inside : rest <:+ cs) :
    Within cs result := by
  match result, within with
  | .ok (_, _), within => exact within.trans inside
  | .error (.tooManyDigits _), ⟨many, row⟩ => exact ⟨many, row.mono inside⟩
  | .error .malformed, _ => trivial

/-- A sequence stays within its text if its pieces do. -/
theorem Within.bind {result : Except JsonError (α × List Char)}
    {next : α × List Char → Except JsonError (β × List Char)}
    (first : Within cs result) (second : ∀ a rest, Within rest (next (a, rest))) : Within cs (result >>= next) := by
  match result, first with
  | .ok (a, rest), inside => exact (second a rest).mono inside
  | .error (.tooManyDigits _), within => exact within
  | .error .malformed, _ => trivial

theorem within_self (a : α) (cs : List Char) : Within cs (.ok (a, cs)) := List.suffix_rfl

theorem suffix_skip (dialect : Dialect) (cs : List Char) : dialect.skip cs <:+ cs := List.dropWhile_suffix _

theorem within_skip (dialect : Dialect) {result : Except JsonError (α × List Char)}
    (within : Within (dialect.skip cs) result) : Within cs result := within.mono (suffix_skip dialect cs)

/-- What stands behind blanks and a mark is the end of a text. -/
theorem suffix_of_skip {dialect : Dialect} {mark : Char} (behind : dialect.skip cs = mark :: rest) : rest <:+ cs :=
  (List.suffix_cons mark rest).trans (behind ▸ suffix_skip dialect cs)

end Within

/-! ### Texts -/

theorem suffix_of_readCode? {cs rest : List Char} {code : Nat} (read : readCode? cs = some (code, rest)) :
    rest <:+ cs := by
  unfold readCode? at read
  split at read
  next a b c d after =>
    split at read
    next =>
      obtain ⟨-, rfl⟩ := Prod.mk.inj (Option.some.inj read)
      exact ⟨[a, b, c, d], rfl⟩
    next => cases read
  next => cases read

theorem suffix_joinPair (code : Nat) (rest : List Char) : (joinPair code rest).2 <:+ rest := by
  unfold joinPair
  split
  · split
    next after =>
      split
      next low after' read =>
        split
        · exact (suffix_of_readCode? read).trans ⟨['\\', 'u'], rfl⟩
        · exact List.suffix_rfl
      next => exact List.suffix_rfl
    next => exact List.suffix_rfl
  · split
    · exact List.suffix_rfl
    · exact List.suffix_rfl

theorem within_readText (read : List Char) (fuel : Nat) (cs : List Char) : Within cs (readText read fuel cs) := by
  fun_induction readText read fuel cs with
  | case1 => trivial
  | case2 => trivial
  | case3 => exact List.suffix_cons _ _
  | case4 => trivial
  | case5 read fuel rest code after found c behind joined ih =>
    have pair := suffix_joinPair code after
    rw [joined] at pair
    exact ih.mono ((pair.trans (suffix_of_readCode? found)).trans ⟨['\\', 'u'], rfl⟩)
  | case6 => trivial
  | case7 read fuel c rest _ _ _ ih => exact ih.mono ⟨['\\', c], rfl⟩
  | case8 => trivial
  | case9 read fuel c rest _ _ _ _ ih => exact ih.mono (List.suffix_cons _ _)

/-! ### Numerals -/

theorem suffix_of_digitsOf {cs digits rest : List Char} (read : digitsOf cs = (digits, rest)) : rest <:+ cs := by
  obtain ⟨-, rfl⟩ := Prod.mk.inj read
  exact List.dropWhile_suffix _

theorem suffix_readFraction (cs : List Char) : (readFraction cs).2 <:+ cs := by
  fun_cases readFraction cs with
  | case1 => exact List.suffix_rfl
  | case2 rest digits after _ read => exact (suffix_of_digitsOf read).trans (List.suffix_cons _ _)
  | case3 => exact List.suffix_rfl

theorem suffix_readExponent (cs : List Char) : (readExponent cs).2.2 <:+ cs := by
  fun_cases readExponent cs with
  | case1 => exact List.suffix_rfl
  | case2 e rest _ sign digits signed exponent after _ read =>
    have unsigned : digits <:+ e :: rest := by
      split at signed
      all_goals obtain ⟨-, rfl⟩ := Prod.mk.inj signed
      · exact ⟨[e, '+'], rfl⟩
      · exact ⟨[e, '-'], rfl⟩
      · exact List.suffix_cons _ _
    exact (suffix_of_digitsOf read).trans unsigned
  | case3 => exact List.suffix_rfl
  | case4 => exact List.suffix_rfl

theorem suffix_unsigned (cs : List Char) : (if cs.head? == some '-' then cs.tail else cs) <:+ cs := by
  split
  · exact List.tail_suffix cs
  · exact List.suffix_rfl

theorem whole_of_taken {cs digits rest : List Char}
    (taken : (match cs with
      | '0' :: rest => (['0'], rest)
      | _ => digitsOf cs) = (digits, rest)) : digits ++ rest = cs ∧ ∀ c ∈ digits, c.isDigit = true := by
  split at taken
  · obtain ⟨rfl, rfl⟩ := Prod.mk.inj taken
    exact ⟨rfl, List.forall_mem_singleton.mpr (by decide)⟩
  · obtain ⟨rfl, rfl⟩ := Prod.mk.inj taken
    exact ⟨List.takeWhile_append_dropWhile, fun c met => List.mem_takeWhile_imp met⟩

/-- The whole digits of a numeral stand in its text, and what is left is the end of the text. -/
theorem within_readNumeral? {cs rest : List Char} {numeral : Numeral} (read : readNumeral? cs = some (numeral, rest)) :
    rest <:+ cs ∧ HasRow numeral.whole.length cs := by
  revert read
  fun_cases readNumeral? cs with
  | case1 => exact fun none => by cases none
  | case2 negative unsigned whole digits after _ taken fraction behind readF sign exponent last readE =>
    intro some
    obtain ⟨rfl, rfl⟩ := Prod.mk.inj (Option.some.inj some)
    have parts : digits ++ after = unsigned ∧ ∀ c ∈ digits, c.isDigit = true := whole_of_taken taken
    have inside : unsigned <:+ cs := suffix_unsigned cs
    refine ⟨?_, digits, ?_, rfl, parts.2⟩
    · have first := suffix_readFraction after
      have second := suffix_readExponent behind
      rw [readF] at first
      rw [readE] at second
      exact ((second.trans first).trans ⟨digits, parts.1⟩).trans inside
    · exact (List.prefix_append digits after).isInfix.trans (parts.1 ▸ inside.isInfix)

/-! ### Values -/

theorem within_wordAt (words : List (String × Setting)) (cs : List Char) : Within cs (wordAt words cs) := by
  induction words with
  | nil => exact trivial
  | cons entry words ih =>
    rw [wordAt]
    split
    · exact List.drop_suffix _ _
    · exact ih

/-- A numeral is refused only if it is an integer with too many digits. -/
theorem within_valueOf (dialect : Dialect) {cs rest : List Char} {numeral : Numeral} (letter : Char)
    (read : readNumeral? cs = some (numeral, rest)) :
    Within cs (dialect.valueOf numeral letter >>= fun value => .ok (value, rest)) := by
  obtain ⟨inside, row⟩ := within_readNumeral? read
  unfold Dialect.valueOf
  split
  · split
    next many => exact ⟨of_decide_eq_true ((Bool.and_eq_true _ _).mp many).2, row⟩
    next => exact inside
  · split
    · exact inside
    · exact inside

/-- **The readers of values, of items and of entries stay within their text.** -/
theorem within_readAll (dialect : Dialect) (fuel : Nat) : (∀ cs, Within cs (readValue dialect fuel cs)) ∧
    (∀ cs, Within cs (readItems dialect fuel cs)) ∧ ∀ read cs, Within cs (readEntries dialect read fuel cs) := by
  induction fuel with
  | zero => exact ⟨fun _ => trivial, fun _ => trivial, fun _ _ => trivial⟩
  | succ fuel ih =>
    obtain ⟨values, items, entries⟩ := ih
    refine ⟨fun cs => ?_, fun cs => ?_, fun read cs => ?_⟩
    · unfold readValue
      split
      next rest =>
        refine Within.mono ?_ (List.suffix_cons _ _)
        exact (within_readText _ _ rest).bind fun text after => within_self _ after
      next rest =>
        split
        next after behind => exact suffix_of_skip behind |>.trans (List.suffix_cons _ _)
        next =>
          refine (within_skip dialect ?_).mono (List.suffix_cons _ _)
          exact (items _).bind fun found after => within_self _ after
      next rest =>
        split
        next after behind => exact suffix_of_skip behind |>.trans (List.suffix_cons _ _)
        next =>
          refine (within_skip dialect ?_).mono (List.suffix_cons _ _)
          exact (entries _ _).bind fun found after => within_self _ after
      next =>
        split
        next numeral rest read => exact within_valueOf dialect _ read
        next => exact within_wordAt _ _
    · unfold readItems
      refine (within_skip dialect (values _)).bind fun item rest => ?_
      dsimp only
      split
      next after behind =>
        refine Within.mono ?_ (suffix_of_skip behind)
        exact (items after).bind fun found last => within_self _ last
      next after behind => exact suffix_of_skip behind
      next => exact trivial
    · unfold readEntries
      split
      next rest behind =>
        refine Within.mono ?_ (suffix_of_skip behind)
        refine (within_readText _ _ rest).bind fun key after => ?_
        dsimp only
        split
        next last mark =>
          refine Within.mono ?_ (suffix_of_skip mark)
          refine (within_skip dialect (values _)).bind fun value tail => ?_
          dsimp only
          split
          next more comma => exact (entries _ more).mono (suffix_of_skip comma)
          next more close => exact suffix_of_skip close
          next => exact trivial
        next => exact trivial
      next => trivial

/-! ### Whole texts -/

theorem hasRow_of_readWith {dialect : Dialect} {text : String} {count : Nat}
    (refused : readWith dialect text = .error (.tooManyDigits count)) :
    Text.maxIntegerDigits < count ∧ HasRow count text.toList := by
  have within := (within_readAll dialect (2 * (dialect.skip text.toList).length + 2)).1 (dialect.skip text.toList)
  unfold readWith at refused
  simp only at refused
  cases read : readValue dialect (2 * (dialect.skip text.toList).length + 2) (dialect.skip text.toList) with
  | error e =>
    rw [read] at refused within
    obtain rfl : e = .tooManyDigits count := Except.error.inj refused
    exact ⟨within.1, within.2.mono (suffix_skip _ _)⟩
  | ok found =>
    rw [read] at refused
    change (if (dialect.skip found.2).isEmpty then Except.ok found.1 else Except.error JsonError.malformed) = _
      at refused
    split at refused
    · cases refused
    · cases refused

/-- **Where an integer has too many digits**, they stand in the text. -/
theorem hasRow_of_parse {text : String} {count : Nat} (refused : parse text = .error (.tooManyDigits count)) :
    Text.maxIntegerDigits < count ∧ HasRow count text.toList := hasRow_of_readWith refused

theorem hasRow_of_parseYaml {text : String} {count : Nat} (refused : parseYaml text = .error (.tooManyDigits count)) :
    Text.maxIntegerDigits < count ∧ HasRow count text.toList := by
  unfold parseYaml at refused
  split at refused
  · cases refused
  · split at refused
    · cases refused
    · cases first : readWith { yaml with countsDigits := false } text with
      | error e =>
        rw [first] at refused
        obtain rfl : e = .tooManyDigits count := Except.error.inj refused
        exact hasRow_of_readWith first
      | ok value =>
        rw [first] at refused
        exact hasRow_of_readWith refused

end XPathAnnotator.Data.Json
