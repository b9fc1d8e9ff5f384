/-
**Numerals.**

A number that is not negative is written as digits with an optional fraction, and reading them back is reading
its shortest decimal: the zeros that take the place of the exponent do not count. So a number whose shortest
decimal reads back is read back from its written form.

* `numeral`, `signed`, `ofText_signed` — digits with a fraction and their sign, and their value;
* `exists_numeral` — how a number is written;
* `ofText_toText` — reading the written form.
-/

import Mathlib
import XPathAnnotator.Number.Numeral
import XPathAnnotator.Proofs.Text.Words

namespace XPathAnnotator.Number

open XPathAnnotator.Text

/-! ### Digits with a fraction -/

theorem code_lt_of_isDigit {c : Char} (digit : c.isDigit = true) : c.toNat < 128 := by
  rw [Char.isDigit_iff_toNat] at digit
  exact Nat.lt_of_le_of_lt digit.2 (by decide)

theorem isDigit_of_isDigit {c : Char} (digit : c.isDigit = true) : Text.isDigit c = true := by
  rw [Text.isDigit, if_pos (code_lt_of_isDigit digit), digit]

theorem isBlank_of_isDigit {c : Char} (digit : c.isDigit = true) : isBlank c = false := by
  rw [Bool.eq_false_iff]
  intro blank
  rw [Char.isDigit_iff_toNat] at digit
  simp only [isBlank, Bool.or_eq_true, beq_iff_eq] at blank
  rcases blank with ((rfl | rfl) | rfl) | rfl <;> exact absurd digit (by decide)

/-- Digits with an optional fraction. -/
def numeral (whole fraction : List Char) : List Char :=
  whole ++ if fraction.isEmpty then [] else '.' :: fraction

/-- A numeral with or without a minus sign. -/
def signed (negative : Bool) (cs : List Char) : List Char := if negative then '-' :: cs else cs

theorem mem_signed {negative : Bool} {cs : List Char} {c : Char} (member : c ∈ signed negative cs) :
    c = '-' ∨ c ∈ cs := by
  cases negative with
  | false => exact .inr member
  | true => exact List.mem_cons.mp member

/-- There is a digit before the point, and there are only digits before and after it. -/
structure Digits (whole fraction : List Char) : Prop where
  nonempty : whole ≠ []
  whole : ∀ c ∈ whole, c.isDigit = true
  fraction : ∀ c ∈ fraction, c.isDigit = true

theorem digitsValue_eq {cs : List Char} (digits : ∀ c ∈ cs, c.isDigit = true) :
    digitsValue cs = Nat.ofDigitChars 10 cs 0 := by
  rw [digitsValue, Nat.ofDigitChars_eq_foldl]
  refine List.foldl_ext _ _ _ fun value c member => ?_
  have value? : digitValue c = c.toNat - 48 := by
    rw [digitValue, if_pos (code_lt_of_isDigit (digits c member)), if_pos (digits c member)]
  rw [value?, Nat.mul_comm]
  rfl

section Digits

variable {whole fraction : List Char}

theorem Digits.mem_numeral (digits : Digits whole fraction) {c : Char} (member : c ∈ numeral whole fraction) :
    c.isDigit = true ∨ c = '.' := by
  unfold numeral at member
  rcases List.mem_append.mp member with inWhole | after
  · exact .inl (digits.whole c inWhole)
  · split at after
    · exact absurd after List.not_mem_nil
    · rcases List.mem_cons.mp after with rfl | inFraction
      · exact .inr rfl
      · exact .inl (digits.fraction c inFraction)

/-- A numeral does not begin with a minus sign. -/
theorem Digits.head?_numeral_ne (digits : Digits whole fraction) : (numeral whole fraction).head? ≠ some '-' := by
  intro minus
  rcases digits.mem_numeral (List.mem_of_mem_head? minus) with digit | point
  · exact absurd digit (by decide)
  · exact absurd point (by decide)

theorem takeWhile_isDigit_append {cs rest : List Char} (digits : ∀ c ∈ cs, c.isDigit = true)
    (apart : ∀ c ∈ rest.head?, Text.isDigit c = false) : (cs ++ rest).takeWhile Text.isDigit = cs :=
  takeWhile_append_apart (fun c member => isDigit_of_isDigit (digits c member)) apart

theorem dropWhile_isDigit_append {cs rest : List Char} (digits : ∀ c ∈ cs, c.isDigit = true)
    (apart : ∀ c ∈ rest.head?, Text.isDigit c = false) : (cs ++ rest).dropWhile Text.isDigit = rest :=
  dropWhile_append_apart (fun c member => isDigit_of_isDigit (digits c member)) apart

theorem head?_fraction (fraction : List Char) :
    ∀ c ∈ (if fraction.isEmpty then [] else '.' :: fraction).head?, Text.isDigit c = false := by
  intro c head
  split at head
  · exact absurd head (by simp)
  · obtain rfl : '.' = c := by simpa using head
    decide

theorem splitNumeral?_whole (some : whole ≠ []) (digits : ∀ c ∈ whole, Text.isDigit c = true) :
    splitNumeral? whole = Option.some (whole, []) := by
  obtain ⟨first, others, rfl⟩ := List.exists_cons_of_ne_nil some
  have taken : (first :: others ++ []).takeWhile Text.isDigit = first :: others :=
    takeWhile_append_apart digits (by simp)
  have dropped : (first :: others ++ []).dropWhile Text.isDigit = [] := dropWhile_append_apart digits (by simp)
  rw [List.append_nil] at taken dropped
  unfold splitNumeral?
  rw [taken, dropped]

theorem splitNumeral?_fraction (some : whole ≠ []) (digits : ∀ c ∈ whole, Text.isDigit c = true)
    (after : ∀ c ∈ fraction, Text.isDigit c = true) :
    splitNumeral? (whole ++ '.' :: fraction) = Option.some (whole, fraction) := by
  obtain ⟨first, others, rfl⟩ := List.exists_cons_of_ne_nil some
  have point : ∀ c ∈ ('.' :: fraction).head?, Text.isDigit c = false := by
    intro c isPoint
    obtain rfl : '.' = c := by simpa using isPoint
    decide
  unfold splitNumeral?
  rw [takeWhile_append_apart digits point, dropWhile_append_apart digits point]
  exact if_pos (List.all_eq_true.mpr after)

theorem splitNumeral?_point (some : fraction ≠ []) (after : ∀ c ∈ fraction, Text.isDigit c = true) :
    splitNumeral? ('.' :: fraction) = Option.some ([], fraction) := by
  have all : (!fraction.isEmpty && fraction.all Text.isDigit) = true := by
    rw [List.isEmpty_eq_false_iff.mpr some, Bool.not_false, Bool.true_and]
    exact List.all_eq_true.mpr after
  unfold splitNumeral?
  rw [List.takeWhile_cons, List.dropWhile_cons, if_neg (by decide), if_neg (by decide)]
  exact if_pos all

theorem Digits.splitNumeral? (digits : Digits whole fraction) :
    splitNumeral? (numeral whole fraction) = some (whole, fraction) := by
  have before : ∀ c ∈ whole, Text.isDigit c = true := fun c member => isDigit_of_isDigit (digits.whole c member)
  cases fraction with
  | nil =>
    rw [numeral, List.isEmpty_nil, if_pos rfl, List.append_nil]
    exact splitNumeral?_whole digits.nonempty before
  | cons c fraction =>
    exact splitNumeral?_fraction digits.nonempty before
      fun d member => isDigit_of_isDigit (digits.fraction d member)

/-- There are no blanks around a numeral. -/
theorem Digits.trimBlanks_signed (digits : Digits whole fraction) (negative : Bool) :
    trimBlanks (String.ofList (signed negative (numeral whole fraction))) =
      String.ofList (signed negative (numeral whole fraction)) := by
  have noBlank : ∀ c ∈ (String.ofList (signed negative (numeral whole fraction))).toList, isBlank c = false := by
    rw [String.toList_ofList]
    intro c member
    rcases mem_signed member with rfl | inNumeral
    · decide
    · rcases digits.mem_numeral inNumeral with digit | rfl
      · exact isBlank_of_isDigit digit
      · decide
  exact trimBy_eq_self_of_forall noBlank

/-- **The value of a numeral with its sign.** -/
theorem ofText_signed (digits : Digits whole fraction) (negative : Bool) :
    ofText (String.ofList (signed negative (numeral whole fraction))) =
      if negative then -ofDigits whole fraction else ofDigits whole fraction := by
  rw [ofText, digits.trimBlanks_signed, String.toList_ofList, ofNumeral]
  cases negative with
  | false =>
    have positive : ((signed false (numeral whole fraction)).head? == some '-') = false :=
      beq_eq_false_iff_ne.mpr digits.head?_numeral_ne
    dsimp only
    rw [positive]
    simp only [signed, Bool.false_eq_true, if_false, digits.splitNumeral?]
  | true =>
    have negative : ((signed true (numeral whole fraction)).head? == some '-') = true := rfl
    dsimp only
    rw [negative]
    simp only [signed, if_true, List.tail_cons, digits.splitNumeral?]

/-- **The value of a numeral.** -/
theorem ofText_numeral (digits : Digits whole fraction) :
    ofText (String.ofList (numeral whole fraction)) = ofDigits whole fraction := ofText_signed digits false

end Digits

/-! ### Written numbers -/

/-- The number that is nearest to a decimal. -/
def Decimal.toFloat (decimal : Decimal) : Float :=
  Float.ofScientific (decimal.digits * 10 ^ decimal.exponent.toNat) true (-decimal.exponent).toNat

/-- A number that is finite, and whose shortest decimal reads back if it is not zero. -/
def ReadsBack (x : Float) : Prop :=
  ∃ d, Dyadic.ofFloat? x = some d ∧ (d.mantissa ≠ 0 → (shortest d).toFloat = x)

theorem isDigit_toDigits {n : Nat} {c : Char} (member : c ∈ Nat.toDigits 10 n) : c.isDigit = true :=
  Nat.isDigit_of_mem_toDigits (by decide) (by decide) member

theorem isDigit_replicate_zero {n : Nat} {c : Char} (member : c ∈ List.replicate n '0') : c.isDigit = true := by
  rw [List.eq_of_mem_replicate member]
  decide

/-- What digits with a fraction denote: the point goes as far to the left as the fraction is long. -/
structure Denotes (whole fraction : List Char) (decimal : Decimal) : Prop where
  value : Nat.ofDigitChars 10 (whole ++ fraction) 0 = decimal.digits * 10 ^ decimal.exponent.toNat
  places : fraction.length = (-decimal.exponent).toNat

/-- **Digits are read as the number nearest to the decimal that they denote.** -/
theorem Digits.ofDigits_eq {whole fraction : List Char} (digits : Digits whole fraction) {decimal : Decimal}
    (denotes : Denotes whole fraction decimal) : ofDigits whole fraction = decimal.toFloat := by
  have all : ∀ c ∈ whole ++ fraction, c.isDigit = true :=
    fun c member => (List.mem_append.mp member).elim (digits.whole c) (digits.fraction c)
  rw [ofDigits, digitsValue_eq all, denotes.value, denotes.places, Decimal.toFloat]

/-- **A decimal written with a point** has digits only, and they denote this decimal. -/
theorem positional_digits (decimal : Decimal) {whole fraction : List Char}
    (written : positional (Nat.toDigits 10 decimal.digits)
      ((Nat.toDigits 10 decimal.digits).length + decimal.exponent) = (whole, fraction)) :
    Digits whole fraction ∧ Denotes whole fraction decimal := by
  have digits : ∀ c ∈ Nat.toDigits 10 decimal.digits, c.isDigit = true := fun c => isDigit_toDigits
  have some : 0 < (Nat.toDigits 10 decimal.digits).length := Nat.length_toDigits_pos
  have value : Nat.ofDigitChars 10 (Nat.toDigits 10 decimal.digits) 0 = decimal.digits :=
    Nat.ofDigitChars_ten_toDigits
  obtain ⟨n, exponent⟩ := decimal
  dsimp only at *
  generalize Nat.toDigits 10 n = cs at *
  unfold positional at written
  split at written
  case isTrue below =>
    obtain ⟨rfl, rfl⟩ := Prod.mk.inj written
    have whole : exponent.toNat = 0 := by omega
    refine ⟨⟨by simp, by simp, fun c member => (List.mem_append.mp member).elim isDigit_replicate_zero (digits c)⟩,
      ?_, ?_⟩
    · dsimp only
      rw [Nat.ofDigitChars_append, Nat.ofDigitChars_append, whole, Nat.pow_zero, Nat.mul_one]
      simpa [Nat.ofDigitChars_cons, Nat.ofDigitChars_replicate_zero] using value
    · rw [List.length_append, List.length_replicate]
      dsimp only
      omega
  case isFalse above =>
    split at written
    case isTrue integral =>
      obtain ⟨rfl, rfl⟩ := Prod.mk.inj written
      have count : ((cs.length : Int) + exponent).toNat - cs.length = exponent.toNat := by omega
      rw [count]
      refine ⟨⟨by simp [List.ne_nil_of_length_pos some],
        fun c member => (List.mem_append.mp member).elim (digits c) isDigit_replicate_zero, by simp⟩, ?_, ?_⟩
      · rw [List.append_nil, Nat.ofDigitChars_append, value, Nat.ofDigitChars_replicate_zero, Nat.mul_comm]
      · rw [List.length_nil]
        dsimp only
        omega
    case isFalse inside =>
      obtain ⟨rfl, rfl⟩ := Prod.mk.inj written
      have whole : exponent.toNat = 0 := by omega
      refine ⟨⟨?_, fun c member => digits c (List.mem_of_mem_take member),
        fun c member => digits c (List.mem_of_mem_drop member)⟩, ?_, ?_⟩
      · refine List.ne_nil_of_length_pos ?_
        rw [List.length_take]
        omega
      · dsimp only
        rw [List.take_append_drop, value, whole, Nat.pow_zero, Nat.mul_one]
      · rw [List.length_drop]
        dsimp only
        omega

/-- The parts of a number, read off its bits: a sign, eleven bits of the exponent and 52 of the mantissa. -/
theorem Dyadic.ofFloat?_eq (x : Float) : ofFloat? x =
    if x.toBits.toNat / 2 ^ 52 % 2 ^ 11 = 2047 then none
    else if x.toBits.toNat / 2 ^ 52 % 2 ^ 11 = 0 then
      some ⟨x.toBits.toNat / 2 ^ 63 == 1, x.toBits.toNat % 2 ^ 52, -1074⟩
    else some ⟨x.toBits.toNat / 2 ^ 63 == 1, 2 ^ 52 + x.toBits.toNat % 2 ^ 52,
      (x.toBits.toNat / 2 ^ 52 % 2 ^ 11 : ℕ) - 1075⟩ := by
  have powers : twoTo 52 = 2 ^ 52 ∧ twoTo 11 = 2 ^ 11 ∧ twoTo 63 = 2 ^ 63 := ⟨rfl, rfl, rfl⟩
  unfold ofFloat?
  simp only [powers, beq_iff_eq]

theorem eq_of_toBits {x y : Float} (same : x.toBits = y.toBits) : x = y := by
  obtain ⟨⟨_, _⟩⟩ := x
  obtain ⟨⟨_, _⟩⟩ := y
  obtain rfl : _ = _ := same
  rfl

/-- Of the numbers that are not negative, one has no size. -/
theorem eq_zero_of_mantissa {x : Float} {d : Dyadic} (parts : Dyadic.ofFloat? x = some d)
    (positive : d.negative = false) (zero : d.mantissa = 0) : x = ofDigits ['0'] [] := by
  have bits : x.toBits = 0 := by
    have size : x.toBits.toNat < 2 ^ 64 := x.toBits.toNat_lt
    have none : x.toBits.toNat = 0 := by
      rw [Dyadic.ofFloat?_eq] at parts
      split at parts
      case isTrue => exact absurd parts (by simp)
      case isFalse =>
        split at parts
        case isTrue field =>
          obtain rfl := Option.some.inj parts
          simp only [beq_eq_false_iff_ne] at positive zero
          omega
        case isFalse =>
          obtain rfl := Option.some.inj parts
          dsimp only at zero
          omega
    exact UInt64.toNat_inj.mp none
  have bitsZero : (ofDigits ['0'] []).toBits = 0 := by decide
  exact eq_of_toBits (bits.trans bitsZero.symm)

/-- The decimal that a finite number is written as. -/
def Dyadic.decimal (d : Dyadic) : Decimal := if d.mantissa = 0 then ⟨0, 0⟩ else shortest d

/-- **How a number is written**: zero, or a point in the digits of the shortest decimal. -/
theorem exists_numeral {x : Float} {d : Dyadic} (parts : Dyadic.ofFloat? x = some d)
    (positive : d.negative = false) : ∃ whole fraction, Digits whole fraction ∧
      toText x = String.ofList (numeral whole fraction) ∧ Denotes whole fraction d.decimal := by
  unfold Dyadic.decimal
  by_cases zero : d.mantissa = 0
  · refine ⟨['0'], [], ⟨by simp, by simp, by simp⟩, ?_, ?_⟩
    · rw [toText, parts]
      simp [zero, numeral]
    · rw [if_pos zero]
      exact ⟨by decide, by decide⟩
  · obtain ⟨digits, denotes⟩ := positional_digits (shortest d) rfl
    refine ⟨_, _, digits, ?_, by rw [if_neg zero]; exact denotes⟩
    have some : (d.mantissa == 0) = false := beq_eq_false_iff_ne.mpr zero
    rw [toText, parts]
    dsimp only
    rw [some, positive]
    rfl

/-- **A number is read back from its written form** if its shortest decimal reads back. -/
theorem ofText_toText {x : Float} (readsBack : ReadsBack x)
    (positive : ∀ d, Dyadic.ofFloat? x = some d → d.negative = false) : ofText (toText x) = x := by
  obtain ⟨d, parts, shortestReads⟩ := readsBack
  obtain ⟨whole, fraction, digits, written, denotes⟩ := exists_numeral parts (positive d parts)
  rw [written, ofText_numeral digits, digits.ofDigits_eq denotes, Dyadic.decimal]
  split
  case isTrue zero =>
    have nothing : Digits ['0'] [] := ⟨by simp, by simp, by simp⟩
    rw [← nothing.ofDigits_eq ⟨by decide, by decide⟩]
    exact (eq_zero_of_mantissa parts (positive d parts) zero).symm
  case isFalse some => exact shortestReads some

end XPathAnnotator.Number
