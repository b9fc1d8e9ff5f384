/-
**Written numbers.**

The written form of a number without sign tells the number. A finite one is written as digits, which tell the
decimal, and the decimal tells the number since it is the shortest one. Of the others there is one infinity and one
that is not a number.

* `legal_of_parts`, `eq_of_parts` — finite numbers and their parts;
* `eq_or_eq_of_no_parts` — the two numbers that are not finite;
* `toText_injective` — **numbers without sign that are written the same are the same**.
-/

import Mathlib
import XPathAnnotator.Proofs.Number.Numerals
import XPathAnnotator.Proofs.Number.Rounding
import XPathAnnotator.Proofs.Number.Signs

namespace XPathAnnotator.Number

open Float.Model

/-! ### Finite numbers -/

section Finite

variable {x y : Float} {d : Dyadic}

/-- **The parts of a number** are those of the format, and tell its bits. -/
theorem exists_bits_of_parts (parts : Dyadic.ofFloat? x = some d) : ∃ sign : Nat,
    x.toBits.toNat = sign * 2 ^ 63 + ((d.exponent + 1074).toNat * 2 ^ 52 + d.mantissa) ∧
      d.negative = (sign == 1) ∧ sign ≤ 1 ∧ d.Canonical ∧ d.exponent ≤ 971 := by
  have bound : x.toBits.toNat < 2 ^ 64 := x.toBits.toNat_lt
  rw [Dyadic.ofFloat?_eq] at parts
  refine ⟨x.toBits.toNat / 2 ^ 63, ?_⟩
  split at parts
  case isTrue => exact absurd parts (by simp)
  case isFalse noMaximum =>
    split at parts
    case isTrue least =>
      obtain rfl := Option.some.inj parts
      dsimp only
      refine ⟨by omega, rfl, by omega, ⟨?_, ?_, .inl rfl⟩, by omega⟩
      all_goals dsimp only
      all_goals omega
    case isFalse more =>
      obtain rfl := Option.some.inj parts
      dsimp only
      refine ⟨by omega, rfl, by omega, ⟨?_, ?_, .inr ?_⟩, by omega⟩
      all_goals dsimp only
      all_goals omega

theorem canonical_of_parts (parts : Dyadic.ofFloat? x = some d) : d.Canonical ∧ d.exponent ≤ 971 := by
  obtain ⟨_, _, _, _, canonical⟩ := exists_bits_of_parts parts
  exact canonical

theorem legal_of_parts (parts : Dyadic.ofFloat? x = some d) (some : d.mantissa ≠ 0) : d.Legal := by
  obtain ⟨⟨below, least, full⟩, greatest⟩ := canonical_of_parts parts
  exact ⟨Nat.pos_of_ne_zero some, below, least, greatest, full⟩

/-- Finite numbers with the same parts are the same. -/
theorem eq_of_parts (parts : Dyadic.ofFloat? x = some d) (parts' : Dyadic.ofFloat? y = some d) : x = y := by
  obtain ⟨sign, bits, negative, bound, _⟩ := exists_bits_of_parts parts
  obtain ⟨sign', bits', negative', bound', _⟩ := exists_bits_of_parts parts'
  obtain rfl : sign = sign' := by
    rw [negative, Bool.beq_eq_decide_eq, Bool.beq_eq_decide_eq, decide_eq_decide] at negative'
    omega
  exact eq_of_toBits (UInt64.toNat_inj.mp (bits.trans bits'.symm))

end Finite

/-! ### Numbers that are not finite -/

theorem maximum_of_no_parts {x : Float} (noParts : Dyadic.ofFloat? x = none) :
    x.toBits.toNat / 2 ^ 52 % 2 ^ 11 = 2047 := by
  rw [Dyadic.ofFloat?_eq] at noParts
  split at noParts
  case isTrue maximum => exact maximum
  case isFalse => split at noParts <;> exact absurd noParts (by simp)

section Infinite

variable {x : Float} (unsigned : Unsigned x) (noParts : Dyadic.ofFloat? x = none)

include unsigned noParts

/-- The bits of a number without sign that is not finite. -/
theorem bits_of_no_parts : x.toBits.toNat = 2047 * 2 ^ 52 + x.toBits.toNat % 2 ^ 52 := by
  have bound := Unsigned.toNat_lt unsigned
  have maximum := maximum_of_no_parts noParts
  omega

/-- **Without sign there are two numbers that are not finite.** -/
theorem eq_or_eq_of_no_parts : x = infinity ∨ x = notANumber := by
  have bits := bits_of_no_parts unsigned noParts
  by_cases zero : x.toBits.toNat % 2 ^ 52 = 0
  · refine .inl (eq_of_toBits (UInt64.toNat_inj.mp ?_))
    have infinite : infinity.toBits.toNat = 2047 * 2 ^ 52 := by decide
    rw [bits, zero, infinite, Nat.add_zero]
  · refine .inr (eq_of_toBits ?_)
    have exponent : @UnpackedFloat.unpackExponent Format.binary64 x.toModel.toBits.toBitVec = -1#_ := by
      apply BitVec.eq_of_toNat_eq
      change (x.toBits.toNat >>> 52) % 2 ^ 11 = 2047
      rw [Nat.shiftRight_eq_div_pow]
      omega
    have mantissa : @UnpackedFloat.unpackMantissa Format.binary64 x.toModel.toBits.toBitVec ≠ 0#_ := by
      intro none
      have same := congrArg BitVec.toNat none
      change (x.toBits.toNat >>> 0) % 2 ^ 52 = 0 at same
      exact zero same
    have packed := x.toModel.valid.eq_packedNaN exponent mantissa
    have canonical : notANumber.toBits.toBitVec = UnpackedFloat.packedNaN Format.binary64 := by decide
    exact UInt64.toBitVec_inj.mp (packed.trans canonical.symm)

end Infinite

/-! ### Written forms -/

theorem toText_infinity : toText infinity = "Infinity" := by decide

theorem toText_notANumber : toText notANumber = "NaN" := by decide

/-- **How a number without sign is written**: as digits, or as one of two words. -/
theorem written_cases {x : Float} (unsigned : Unsigned x) :
    (∃ d whole fraction, Dyadic.ofFloat? x = some d ∧ Digits whole fraction ∧
      toText x = String.ofList (numeral whole fraction) ∧ Denotes whole fraction d.decimal) ∨
      x = infinity ∨ x = notANumber := by
  cases parts : Dyadic.ofFloat? x with
  | none => exact .inr (eq_or_eq_of_no_parts unsigned parts)
  | some d =>
    obtain ⟨whole, fraction, digits, written, denotes⟩ := exists_numeral parts (Unsigned.negative unsigned parts)
    exact .inl ⟨d, whole, fraction, rfl, digits, written, denotes⟩

/-- What digits with a fraction denote, as a rational number. -/
theorem Denotes.value_eq {whole fraction : List Char} {decimal : Decimal} (denotes : Denotes whole fraction decimal) :
    decimal.value = (Nat.ofDigitChars 10 (whole ++ fraction) 0 : ℚ) / 10 ^ fraction.length := by
  rw [Decimal.value_eq, denotes.places, denotes.value]

/-- The digits before the point and those after it can be told. -/
theorem numeral_injective {whole fraction whole' fraction' : List Char} (digits : Digits whole fraction)
    (digits' : Digits whole' fraction') (same : numeral whole fraction = numeral whole' fraction') :
    whole = whole' ∧ fraction = fraction' := by
  obtain ⟨sameWhole, after⟩ := Text.run_injective (fun c member => isDigit_of_isDigit (digits.whole c member))
    (fun c member => isDigit_of_isDigit (digits'.whole c member)) (head?_fraction fraction)
    (head?_fraction fraction') same
  refine ⟨sameWhole, ?_⟩
  cases fraction <;> cases fraction'
  case cons.cons => exact (List.cons.inj after).2
  all_goals first | rfl | exact absurd after (by simp)

/-- A numeral begins with a digit. -/
theorem numeral_ne {whole fraction : List Char} (digits : Digits whole fraction) {c : Char} {rest : List Char}
    (noDigit : c.isDigit = false) : numeral whole fraction ≠ c :: rest := by
  obtain ⟨first, others, rfl⟩ := List.exists_cons_of_ne_nil digits.nonempty
  intro same
  obtain rfl : first = c := (List.cons.inj same).1
  exact absurd (digits.whole first List.mem_cons_self) (by simp [noDigit])

/-- Finite numbers without sign that are written with the same digits are the same. -/
theorem eq_of_denotes {x y : Float} {d d' : Dyadic} (parts : Dyadic.ofFloat? x = some d)
    (parts' : Dyadic.ofFloat? y = some d') (negative : d.negative = false) (negative' : d'.negative = false)
    {whole fraction : List Char} (denotes : Denotes whole fraction d.decimal)
    (denotes' : Denotes whole fraction d'.decimal) : x = y := by
  have same : d.decimal.value = d'.decimal.value := denotes.value_eq.trans denotes'.value_eq.symm
  have zeroValue : (⟨0, 0⟩ : Decimal).value = 0 := by simp [Decimal.value]
  unfold Dyadic.decimal at same
  split at same <;> split at same
  case isTrue.isTrue zero zero' =>
    rw [eq_zero_of_mantissa parts negative zero, eq_zero_of_mantissa parts' negative' zero']
  case isTrue.isFalse zero some =>
    have positive := Dyadic.shortest_pos (legal_of_parts parts' some)
    exact absurd (same.symm.trans zeroValue) positive.ne'
  case isFalse.isTrue some zero =>
    have positive := Dyadic.shortest_pos (legal_of_parts parts some)
    exact absurd (same.trans zeroValue) positive.ne'
  case isFalse.isFalse some some' =>
    obtain ⟨mantissa, exponent⟩ :=
      Dyadic.eq_of_shortest (legal_of_parts parts some) (legal_of_parts parts' some') same
    obtain ⟨_, _, _⟩ := d
    obtain ⟨_, _, _⟩ := d'
    obtain rfl : _ = _ := mantissa
    obtain rfl : _ = _ := exponent
    obtain rfl : _ = _ := negative.trans negative'.symm
    exact eq_of_parts parts parts'

/-- **Numbers without sign that are written the same are the same.** -/
theorem toText_injective {x y : Float} (unsigned : Unsigned x) (unsigned' : Unsigned y) (same : toText x = toText y) :
    x = y := by
  have infinite : (toText infinity).toList = 'I' :: "nfinity".toList := by rw [toText_infinity]; rfl
  have noNumber : (toText notANumber).toList = 'N' :: "aN".toList := by rw [toText_notANumber]; rfl
  replace same := congrArg String.toList same
  rcases written_cases unsigned with ⟨d, whole, fraction, parts, digits, written, denotes⟩ | rfl | rfl <;>
    rcases written_cases unsigned' with ⟨d', whole', fraction', parts', digits', written', denotes'⟩ | rfl | rfl
  case inl.inl =>
    rw [written, written', String.toList_ofList, String.toList_ofList] at same
    obtain ⟨rfl, rfl⟩ := numeral_injective digits digits' same
    exact eq_of_denotes parts parts' (Unsigned.negative unsigned parts) (Unsigned.negative unsigned' parts') denotes
      denotes'
  case inl.inr.inl =>
    rw [written, String.toList_ofList, infinite] at same
    exact absurd same (numeral_ne digits (by decide))
  case inl.inr.inr =>
    rw [written, String.toList_ofList, noNumber] at same
    exact absurd same (numeral_ne digits (by decide))
  case inr.inl.inl =>
    rw [written', String.toList_ofList, infinite] at same
    exact absurd same.symm (numeral_ne digits' (by decide))
  case inr.inr.inl =>
    rw [written', String.toList_ofList, noNumber] at same
    exact absurd same.symm (numeral_ne digits' (by decide))
  case inr.inl.inr.inl | inr.inr.inr.inr => rfl
  case inr.inl.inr.inr | inr.inr.inr.inl =>
    rw [infinite, noNumber] at same
    exact absurd same (by simp)

end XPathAnnotator.Number
