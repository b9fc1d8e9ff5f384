/-
**Exact numerals.**

The written form of a number denotes exactly the decimal that reads back, without zeros that do not count, and it is
read as the number. It is the same decimal as in the form for messages, which has an exponent where the number is far
from one.

* `Plain`, `plain_positional` — digits before and after a point without superfluous zeros, from digits of which the
  first and the last are not zero;
* `last_shortest` — the last digit of the shortest decimal is not zero;
* `Accepted`, `isSome_splitNumeral?_iff` — the texts that are read as numbers;
* `numeralValue?` — the rational number that a numeral with or without exponent denotes;
* `toText_exact` — **the written form of a number** is exact and reversible.
-/

import Mathlib
import XPathAnnotator.Proofs.Number.Nearest

namespace XPathAnnotator.Number

open XPathAnnotator.Text

/-! ### The position of the point -/

/-- The number is below the power of ten for the position of the point, or the search has run out of fuel. -/
theorem lt_zpow_pointPosition {r : Ratio} (positive : 0 < r.denominator) (guess : Int) (fuel : Nat) :
    r.value < 10 ^ pointPosition r guess fuel ∨ pointPosition r guess fuel = guess + fuel := by
  induction fuel generalizing guess with
  | zero => exact .inr (add_zero _).symm
  | succ fuel ih =>
    unfold pointPosition
    split
    case isTrue below =>
      rw [Ratio.lt_iff positive (pos_denominator_scaled (by decide) guess), value_scaled, Nat.cast_one,
        one_mul] at below
      exact .inl below
    case isFalse =>
      rcases ih (guess + 1) with below | last
      · exact .inl below
      · exact .inr (last.trans (by push_cast; ring))

/-- Powers of two below powers of ten, from a fraction that is a little more than the logarithm of two. -/
theorem zpow_two_le_of_fraction {p q : Nat} (below : (10 : ℚ) ^ p ≤ 2 * 2 ^ q) (above : (2 : ℚ) ^ q ≤ 10 ^ p)
    {places bits : Int} (positive : 0 < q) (small : -bits ≤ q) (estimate : p * bits + q ≤ q * places) :
    (2 : ℚ) ^ bits ≤ 10 ^ places := by
  have power : ((2 : ℚ) ^ q) ^ bits ≤ 10 ^ ((p : ℤ) * bits) * 2 ^ q := by
    rw [zpow_mul, zpow_natCast]
    rcases le_or_gt 0 bits with nonnegative | negative
    · obtain ⟨n, rfl⟩ := Int.eq_ofNat_of_zero_le nonnegative
      rw [zpow_natCast, zpow_natCast]
      calc ((2 : ℚ) ^ q) ^ n ≤ (10 ^ p) ^ n := by gcongr
        _ ≤ (10 ^ p) ^ n * 2 ^ q := le_mul_of_one_le_right (by positivity) (one_le_pow₀ (by norm_num))
    · obtain ⟨n, rfl⟩ : ∃ n : ℕ, bits = -(n : ℤ) := ⟨(-bits).toNat, by omega⟩
      have small : n ≤ q := by omega
      rw [zpow_neg, zpow_neg, zpow_natCast, zpow_natCast, ← div_eq_inv_mul, inv_eq_one_div,
        div_le_div_iff₀ (by positivity) (by positivity), one_mul]
      calc ((10 : ℚ) ^ p) ^ n ≤ (2 * 2 ^ q) ^ n := by gcongr
        _ = 2 ^ n * (2 ^ q) ^ n := mul_pow _ _ _
        _ ≤ 2 ^ q * (2 ^ q) ^ n := by
          gcongr
          norm_num
  rw [← pow_le_pow_iff_left₀ (by positivity) (by positivity) positive.ne']
  calc ((2 : ℚ) ^ bits) ^ q = (2 ^ q) ^ bits := by
        rw [← zpow_natCast, ← zpow_natCast, ← zpow_mul, ← zpow_mul, mul_comm]
    _ ≤ 10 ^ ((p : ℤ) * bits) * 2 ^ q := power
    _ ≤ 10 ^ ((p : ℤ) * bits) * 10 ^ q := by
      gcongr
      norm_num
    _ = 10 ^ ((p : ℤ) * bits + q) := by rw [zpow_add₀ (by norm_num), zpow_natCast]
    _ ≤ 10 ^ ((q : ℤ) * places) := zpow_le_zpow_right₀ (by norm_num) estimate
    _ = (10 ^ places) ^ q := by rw [← zpow_natCast, ← zpow_mul, mul_comm]

theorem zpow_two_le {places bits : Int} (small : -2000 ≤ bits) (estimate : 30103 * bits + 100000 ≤ 100000 * places) :
    (2 : ℚ) ^ bits ≤ 10 ^ places := by
  exact zpow_two_le_of_fraction log_two_between.1 log_two_between.2 (by norm_num) (by omega)
    (by exact_mod_cast estimate)

namespace Dyadic

variable {d : Dyadic}

theorem size_lt_zpow (legal : d.Legal) : d.size < 2 ^ ((bitLength d.mantissa : ℤ) + d.exponent) := by
  have length : bitLength d.mantissa = d.mantissa.log2 + 1 := by
    rw [bitLength, if_neg (by simp [legal.positive.ne'])]
  rw [length, zpow_add₀ (by norm_num), zpow_natCast, size]
  gcongr
  exact_mod_cast Nat.lt_log2_self

/-- **A number is below the power of ten** for the position of the point. -/
theorem size_lt_zpow_point (legal : d.Legal) :
    d.size < 10 ^ pointPosition (Ratio.scaled d.mantissa 2 d.exponent)
      ((((bitLength d.mantissa : ℤ) + d.exponent) * 30103).fdiv 100000 - 1) 4 := by
  have value : (Ratio.scaled d.mantissa 2 d.exponent).value = d.size := value_scaled _ 2 _
  rcases lt_zpow_pointPosition (r := Ratio.scaled d.mantissa 2 d.exponent)
    (pos_denominator_scaled (by decide) d.exponent)
    ((((bitLength d.mantissa : ℤ) + d.exponent) * 30103).fdiv 100000 - 1) 4 with below | last
  · rw [value] at below
    exact below
  · have least := legal.least
    rw [last, Int.fdiv_eq_ediv_of_nonneg _ (by norm_num)]
    exact (size_lt_zpow legal).trans_le (zpow_two_le (by omega) (by omega))

end Dyadic

/-! ### The digits of the shortest decimal -/

section Grid

variable {interval : RoundingInterval} {r : Ratio} {exponent : Int}

/-- A hit on a grid has at most a step more than the number. -/
theorem digits_onGrid?_le {hit : Decimal} (found : onGrid? interval r exponent = some hit) :
    (hit.digits : ℚ) ≤ r.value / 10 ^ exponent + 1 := by
  have stepValue : (Ratio.scaled 1 10 exponent).value = 10 ^ exponent := by
    rw [value_scaled, Nat.cast_one, one_mul]
    rfl
  have quotient : ((r.numerator * (Ratio.scaled 1 10 exponent).denominator /
      (r.denominator * (Ratio.scaled 1 10 exponent).numerator) : ℕ) : ℚ) ≤ r.value / 10 ^ exponent := by
    rw [← stepValue, Ratio.value, Ratio.value, div_div_div_eq]
    exact_mod_cast Nat.cast_div_le
  unfold onGrid? at found
  dsimp only at found
  split at found
  case h_1 =>
    obtain rfl := Option.some.inj found
    split
    · push_cast
      linarith
    · linarith
  case h_2 =>
    obtain rfl := Option.some.inj found
    linarith
  case h_3 =>
    obtain rfl := Option.some.inj found
    push_cast
    linarith
  case h_4 => exact absurd found (by simp)

/-- The first hit has at most a step of the finest grid more than the number. -/
theorem digits_firstOnGrid_le {bound : ℚ} (nonnegative : 0 ≤ bound) {fuel : Nat}
    (enough : ∀ j < fuel, r.value / 10 ^ (exponent - j) + 1 ≤ bound) :
    ((firstOnGrid interval r exponent fuel).digits : ℚ) ≤ bound := by
  induction fuel generalizing exponent with
  | zero =>
    rw [firstOnGrid, Nat.cast_zero]
    exact nonnegative
  | succ fuel ih =>
    unfold firstOnGrid
    split
    case h_1 found =>
      have first := enough 0 (Nat.succ_pos fuel)
      rw [Nat.cast_zero, sub_zero] at first
      exact (digits_onGrid?_le found).trans first
    case h_2 =>
      refine ih fun j below => ?_
      have next : exponent - 1 - (j : Int) = exponent - ((j + 1 : Nat) : Int) := by omega
      rw [next]
      exact enough (j + 1) (by omega)

end Grid

/-- Without the zeros at the end, the last digit is not zero. -/
theorem last_dropZeros {d : Decimal} {fuel : Nat} (some : 0 < d.digits) (few : d.digits < 10 ^ fuel) :
    (dropZeros d fuel).digits % 10 ≠ 0 := by
  induction fuel generalizing d with
  | zero => omega
  | succ fuel ih =>
    unfold dropZeros
    split
    case isTrue zero =>
      simp only [Bool.and_eq_true, bne_iff_ne, beq_iff_eq] at zero
      exact ih (by dsimp only; omega) (by dsimp only; rw [pow_succ] at few; omega)
    case isFalse last =>
      simp only [Bool.and_eq_true, bne_iff_ne, beq_iff_eq, not_and] at last
      exact last some.ne'

/-- **The last digit of the shortest decimal** is not zero. -/
theorem last_shortest {d : Dyadic} (legal : d.Legal) : (shortest d).digits % 10 ≠ 0 := by
  have value : (Ratio.scaled d.mantissa 2 d.exponent).value = d.size := value_scaled _ 2 _
  have positive := Dyadic.shortest_pos legal
  have above := Dyadic.size_lt_zpow_point legal
  unfold shortest at positive ⊢
  dsimp only at positive ⊢
  rw [value_dropZeros] at positive
  generalize pointPosition _ _ 4 = point at above positive ⊢
  refine last_dropZeros ?_ ?_
  · rw [Nat.pos_iff_ne_zero]
    intro none
    rw [Decimal.value, none, Nat.cast_zero, zero_mul] at positive
    exact absurd positive (lt_irrefl 0)
  · have few : ((firstOnGrid (RoundingInterval.of d) (Ratio.scaled d.mantissa 2 d.exponent)
        (point - 1) 18).digits : ℚ) ≤ 10 ^ 18 + 1 := by
      refine digits_firstOnGrid_le (by norm_num) fun j below => ?_
      have split : (10 : ℚ) ^ point = 10 ^ (j + 1) * 10 ^ (point - 1 - j) := by
        rw [← zpow_natCast, ← zpow_add₀ (by norm_num)]
        congr 1
        push_cast
        ring
      have size : d.size / 10 ^ (point - 1 - j) ≤ 10 ^ (j + 1) := by
        rw [div_le_iff₀ (by positivity), ← split]
        exact above.le
      have power : (10 : ℚ) ^ (j + 1) ≤ 10 ^ 18 := pow_le_pow_right₀ (by norm_num) (by omega)
      rw [value]
      linarith
    have less : (10 : ℚ) ^ 18 + 1 < 10 ^ 20 := by norm_num
    exact_mod_cast few.trans_lt less

/-! ### Digits without superfluous zeros -/

theorem head?_toDigits_ne {n : Nat} (positive : 0 < n) : (Nat.toDigits 10 n).head? ≠ some '0' := by
  induction n using Nat.strong_induction_on with
  | _ n ih =>
    by_cases single : n < 10
    · rw [Nat.toDigits_of_lt_base single]
      simp [positive.ne']
    · rw [Nat.toDigits_of_base_le (by norm_num) (by omega), List.head?_append_of_ne_nil _ Nat.toDigits_ne_nil]
      exact ih (n / 10) (by omega) (by omega)

theorem getLast?_toDigits_ne {n : Nat} (last : n % 10 ≠ 0) : (Nat.toDigits 10 n).getLast? ≠ some '0' := by
  by_cases single : n < 10
  · rw [Nat.toDigits_of_lt_base single]
    rw [Nat.mod_eq_of_lt single] at last
    simp [last]
  · rw [Nat.toDigits_of_base_le (by norm_num) (by omega), List.getLast?_append_of_ne_nil _ (by simp)]
    simpa using last

/-- Digits before and after a point without superfluous zeros: the first of several digits before the point and the last
one after it are not zero. -/
structure Plain (whole fraction : List Char) : Prop where
  digits : Digits whole fraction
  leading : whole.head? = some '0' → whole = ['0']
  trailing : fraction.getLast? ≠ some '0'

/-- **Moving the point** makes no superfluous zeros. -/
theorem plain_positional {decimal : Decimal} (positive : 0 < decimal.digits) (last : decimal.digits % 10 ≠ 0)
    {whole fraction : List Char} (written : positional (Nat.toDigits 10 decimal.digits)
      ((Nat.toDigits 10 decimal.digits).length + decimal.exponent) = (whole, fraction)) : Plain whole fraction := by
  obtain ⟨digits, _⟩ := positional_digits decimal written
  have headNe := head?_toDigits_ne positive
  have lastNe := getLast?_toDigits_ne last
  have nonempty : Nat.toDigits 10 decimal.digits ≠ [] := Nat.toDigits_ne_nil
  generalize Nat.toDigits 10 decimal.digits = cs at *
  unfold positional at written
  split at written
  case isTrue =>
    obtain ⟨rfl, rfl⟩ := Prod.mk.inj written
    refine ⟨digits, fun _ => rfl, ?_⟩
    rw [List.getLast?_append_of_ne_nil _ nonempty]
    exact lastNe
  case isFalse above =>
    split at written
    case isTrue integral =>
      obtain ⟨rfl, rfl⟩ := Prod.mk.inj written
      refine ⟨digits, fun zero => ?_, by simp⟩
      rw [List.head?_append_of_ne_nil _ nonempty] at zero
      exact absurd zero headNe
    case isFalse inside =>
      obtain ⟨rfl, rfl⟩ := Prod.mk.inj written
      refine ⟨digits, fun zero => ?_, ?_⟩
      · rw [List.head?_take, if_neg (by omega)] at zero
        exact absurd zero headNe
      · rw [List.getLast?_drop, if_neg (by omega)]
        exact lastNe

/-! ### Texts that are read as numbers -/

/-- A numeral without sign: digits, digits with a point and perhaps more digits, or a point with digits. -/
inductive UnsignedNumeral : List Char → Prop
  | whole {whole : List Char} : whole ≠ [] → (∀ c ∈ whole, isDigit c = true) → UnsignedNumeral whole
  | fraction {whole fraction : List Char} : whole ≠ [] → (∀ c ∈ whole, isDigit c = true) →
      (∀ c ∈ fraction, isDigit c = true) → UnsignedNumeral (whole ++ '.' :: fraction)
  | point {fraction : List Char} : fraction ≠ [] → (∀ c ∈ fraction, isDigit c = true) →
      UnsignedNumeral ('.' :: fraction)

/-- **A text that is read as a number**: blanks around an optional minus sign and a numeral. -/
def Accepted (text : String) : Prop :=
  ∃ negative cs, (trimBlanks text).toList = signed negative cs ∧ UnsignedNumeral cs

theorem isSome_splitNumeral?_iff {cs : List Char} : (splitNumeral? cs).isSome = true ↔ UnsignedNumeral cs := by
  constructor
  · intro found
    have digits : ∀ c ∈ cs.takeWhile isDigit, isDigit c = true := fun c member => List.mem_takeWhile_imp member
    have parts := List.takeWhile_append_dropWhile (p := isDigit) (l := cs)
    unfold splitNumeral? at found
    dsimp only at found
    generalize cs.takeWhile isDigit = whole at *
    generalize cs.dropWhile isDigit = rest at *
    subst parts
    split at found
    case h_1 rest =>
      split at found
      case isTrue after =>
        simp only [Bool.and_eq_true, Bool.not_eq_true', List.isEmpty_eq_false_iff, List.all_eq_true] at after
        exact .point after.1 after.2
      case isFalse => exact absurd found (by simp)
    case h_2 =>
      rw [List.append_nil]
      exact .whole (List.cons_ne_nil _ _) digits
    case h_3 rest =>
      split at found
      case isTrue after => exact .fraction (List.cons_ne_nil _ _) digits (List.all_eq_true.mp after)
      case isFalse => exact absurd found (by simp)
    case h_4 => exact absurd found (by simp)
  · intro accepted
    cases accepted with
    | whole some digits => rw [splitNumeral?_whole some digits, Option.isSome_some]
    | fraction some digits after => rw [splitNumeral?_fraction some digits after, Option.isSome_some]
    | point some after => rw [splitNumeral?_point some after, Option.isSome_some]

/-- What is not accepted is read as not a number. -/
theorem ofText_of_not_accepted {text : String} (refused : ¬ Accepted text) : ofText text = notANumber := by
  unfold ofText ofNumeral
  dsimp only
  have sign : (trimBlanks text).toList = signed ((trimBlanks text).toList.head? == some '-')
      (if (trimBlanks text).toList.head? == some '-' then (trimBlanks text).toList.tail
        else (trimBlanks text).toList) := by
    cases minus : (trimBlanks text).toList.head? == some '-' with
    | false => rfl
    | true =>
      obtain ⟨rest, same⟩ := List.head?_eq_some_iff.mp (beq_iff_eq.mp minus)
      rw [same]
      rfl
  split
  case h_1 => rfl
  case h_2 found =>
    exact absurd ⟨_, _, sign, isSome_splitNumeral?_iff.mp (Option.isSome_iff_exists.mpr ⟨_, found⟩)⟩ refused

/-! ### What numerals denote -/

/-- The exponent that a numeral ends with. -/
def exponentValue? : List Char → Option Int
  | [] => some 0
  | 'e' :: '-' :: digits => if !digits.isEmpty && digits.all isDigit then some (-digitsValue digits) else none
  | 'e' :: '+' :: digits => if !digits.isEmpty && digits.all isDigit then some (digitsValue digits) else none
  | _ => none

/-- The rational number that a numeral without sign denotes. -/
def unsignedValue? (cs : List Char) : Option ℚ := do
  let (whole, fraction) ← splitNumeral? (cs.takeWhile (· != 'e'))
  let exponent ← exponentValue? (cs.dropWhile (· != 'e'))
  return digitsValue (whole ++ fraction) * 10 ^ (exponent - fraction.length)

/-- **The rational number that a numeral denotes**, which may have an exponent. -/
def numeralValue? (cs : List Char) : Option ℚ :=
  match cs with
  | '-' :: rest => (unsignedValue? rest).map (-·)
  | _ => unsignedValue? cs

theorem numeralValue?_signed {cs : List Char} (noSign : cs.head? ≠ some '-') (negative : Bool) :
    numeralValue? (signed negative cs) = (unsignedValue? cs).map fun v => if negative then -v else v := by
  cases negative with
  | true => rfl
  | false =>
    have same : numeralValue? cs = unsignedValue? cs := by
      unfold numeralValue?
      split
      · exact absurd rfl noSign
      · rfl
    show numeralValue? cs = (unsignedValue? cs).map id
    rw [same, Option.map_id, id]

section Denote

variable {whole fraction : List Char}

/-- Digits with a fraction denote their value, moved by the exponent. -/
theorem unsignedValue?_append (digits : Digits whole fraction) {tail : List Char}
    (apart : ∀ c ∈ tail.head?, (c != 'e') = false) {exponent : Int} (ends : exponentValue? tail = some exponent) :
    unsignedValue? (numeral whole fraction ++ tail) =
      some ((Nat.ofDigitChars 10 (whole ++ fraction) 0 : ℚ) * 10 ^ (exponent - fraction.length)) := by
  have all : ∀ c ∈ whole ++ fraction, c.isDigit = true :=
    fun c member => (List.mem_append.mp member).elim (digits.whole c) (digits.fraction c)
  have plain : ∀ c ∈ numeral whole fraction, (c != 'e') = true := by
    intro c member
    rw [bne_iff_ne]
    rintro rfl
    rcases digits.mem_numeral member with digit | point
    · exact absurd digit (by decide)
    · exact absurd point (by decide)
  unfold unsignedValue?
  rw [takeWhile_append_apart plain apart, dropWhile_append_apart plain apart, digits.splitNumeral?, ends,
    ← digitsValue_eq all]
  rfl

/-- A numeral with a point denotes the decimal of its digits. -/
theorem unsignedValue?_numeral (digits : Digits whole fraction) {decimal : Decimal}
    (denotes : Denotes whole fraction decimal) : unsignedValue? (numeral whole fraction) = some decimal.value := by
  have value : unsignedValue? (numeral whole fraction ++ []) = _ := unsignedValue?_append digits (by simp) rfl
  rw [List.append_nil] at value
  rw [value, denotes.value_eq, zero_sub, zpow_neg, zpow_natCast, div_eq_mul_inv]

/-- The exponent is read as it is written. -/
theorem exponentValue?_eq (power : Int) :
    exponentValue? (['e', if power < 0 then '-' else '+'] ++ if (Nat.toDigits 10 power.natAbs).length < 2 then
      '0' :: Nat.toDigits 10 power.natAbs else Nat.toDigits 10 power.natAbs) = some power := by
  have read : ∃ first others, (if (Nat.toDigits 10 power.natAbs).length < 2 then '0' :: Nat.toDigits 10 power.natAbs
      else Nat.toDigits 10 power.natAbs) = first :: others ∧ (∀ c ∈ first :: others, c.isDigit = true) ∧
        Nat.ofDigitChars 10 (first :: others) 0 = power.natAbs := by
    have value : Nat.ofDigitChars 10 (Nat.toDigits 10 power.natAbs) 0 = power.natAbs := Nat.ofDigitChars_ten_toDigits
    split
    case isTrue =>
      refine ⟨_, _, rfl, fun c member => ?_, by rw [Nat.ofDigitChars_cons]; exact value⟩
      rcases List.mem_cons.mp member with rfl | inDigits
      · decide
      · exact isDigit_toDigits inDigits
    case isFalse =>
      obtain ⟨first, others, same⟩ := List.exists_cons_of_ne_nil (Nat.toDigits_ne_nil (n := power.natAbs) (b := 10))
      exact ⟨first, others, same, fun c member => isDigit_toDigits (same ▸ member), same ▸ value⟩
  obtain ⟨first, others, same, digits, value⟩ := read
  have all : (!(first :: others).isEmpty && (first :: others).all isDigit) = true := by
    rw [List.isEmpty_cons, Bool.not_false, Bool.true_and]
    exact List.all_eq_true.mpr fun c member => isDigit_of_isDigit (digits c member)
  rw [same]
  rcases lt_or_ge power 0 with below | above
  · rw [if_pos below]
    show (if !(first :: others).isEmpty && (first :: others).all isDigit then
      some (-(digitsValue (first :: others) : ℤ)) else none) = some power
    rw [if_pos all, digitsValue_eq digits, value]
    congr 1
    omega
  · rw [if_neg (not_lt.mpr above)]
    show (if !(first :: others).isEmpty && (first :: others).all isDigit then
      some (digitsValue (first :: others) : ℤ) else none) = some power
    rw [if_pos all, digitsValue_eq digits, value]
    congr 1
    omega

/-- **A numeral with an exponent**: one digit before the point, the others after it, and what denotes the exponent. -/
theorem exists_scientific {cs : List Char} (digits : ∀ c ∈ cs, c.isDigit = true) (positive : 0 < cs.length)
    (point : Int) : ∃ tail, scientific cs point = numeral (cs.take 1) (cs.drop 1) ++ tail ∧
      Digits (cs.take 1) (cs.drop 1) ∧ (∀ c ∈ tail.head?, (c != 'e') = false) ∧
        exponentValue? tail = some (point - 1) := by
  have short : cs.length < 2 ↔ (cs.drop 1).isEmpty = true := by
    rw [List.isEmpty_iff, List.drop_eq_nil_iff]
    omega
  refine ⟨_, ?_, ⟨?_, fun c member => digits c (List.mem_of_mem_take member),
    fun c member => digits c (List.mem_of_mem_drop member)⟩, by simp, exponentValue?_eq (point - 1)⟩
  · unfold scientific numeral
    dsimp only
    rw [List.append_assoc, List.append_assoc, List.append_assoc]
    simp only [short]
  · refine List.ne_nil_of_length_pos ?_
    rw [List.length_take]
    omega

/-- What a numeral with an exponent denotes is the decimal of its digits. -/
theorem numeralValue?_scientific (decimal : Decimal) (negative : Bool) :
    numeralValue? (signed negative (scientific (Nat.toDigits 10 decimal.digits)
      ((Nat.toDigits 10 decimal.digits).length + decimal.exponent))) =
        some (if negative then -decimal.value else decimal.value) := by
  have value : Nat.ofDigitChars 10 (Nat.toDigits 10 decimal.digits) 0 = decimal.digits := Nat.ofDigitChars_ten_toDigits
  have positive : 0 < (Nat.toDigits 10 decimal.digits).length := Nat.length_toDigits_pos
  obtain ⟨tail, written, digits, apart, exponent⟩ := exists_scientific (fun c => isDigit_toDigits) positive
    ((Nat.toDigits 10 decimal.digits).length + decimal.exponent)
  have noSign : (numeral ((Nat.toDigits 10 decimal.digits).take 1) ((Nat.toDigits 10 decimal.digits).drop 1) ++
      tail).head? ≠ some '-' := by
    have nonempty : numeral ((Nat.toDigits 10 decimal.digits).take 1) ((Nat.toDigits 10 decimal.digits).drop 1) ≠ [] :=
      List.append_ne_nil_of_left_ne_nil digits.nonempty _
    rw [List.head?_append_of_ne_nil _ nonempty]
    exact digits.head?_numeral_ne
  rw [written, numeralValue?_signed noSign, unsignedValue?_append digits apart exponent, List.take_append_drop, value,
    List.length_drop, Option.map_some, Decimal.value]
  have places : ((Nat.toDigits 10 decimal.digits).length : ℤ) + decimal.exponent - 1 -
      ((Nat.toDigits 10 decimal.digits).length - 1 : ℕ) = decimal.exponent := by omega
  rw [places]

/-- A numeral with a point denotes the decimal of its digits. -/
theorem numeralValue?_numeral (digits : Digits whole fraction) {decimal : Decimal}
    (denotes : Denotes whole fraction decimal) (negative : Bool) :
    numeralValue? (signed negative (numeral whole fraction)) =
      some (if negative then -decimal.value else decimal.value) := by
  rw [numeralValue?_signed digits.head?_numeral_ne, unsignedValue?_numeral digits denotes, Option.map_some]

/-- A zero after the point of an integer does not count. -/
theorem numeralValue?_padded (digits : Digits whole fraction) {decimal : Decimal}
    (denotes : Denotes whole fraction decimal) (negative : Bool) :
    numeralValue? (signed negative (whole ++ '.' :: if fraction.isEmpty then ['0'] else fraction)) =
      some (if negative then -decimal.value else decimal.value) := by
  cases fraction with
  | cons c fraction => exact numeralValue?_numeral digits denotes negative
  | nil =>
    have padded : Digits whole ['0'] := ⟨digits.nonempty, digits.whole, by simp⟩
    have value : unsignedValue? (numeral whole ['0'] ++ []) = _ := unsignedValue?_append padded (by simp) rfl
    rw [List.append_nil] at value
    show numeralValue? (signed negative (numeral whole ['0'])) = _
    rw [numeralValue?_signed padded.head?_numeral_ne, value, denotes.value_eq, Option.map_some, Nat.ofDigitChars_append,
      List.append_nil, Nat.ofDigitChars_cons]
    have tenth : ((Nat.ofDigitChars 10 [] (10 * Nat.ofDigitChars 10 whole 0 + ('0'.toNat - '0'.toNat)) : ℕ) : ℚ) *
        10 ^ ((0 : ℤ) - (['0'].length : ℕ)) = Nat.ofDigitChars 10 whole 0 / 10 ^ ([] : List Char).length := by
      rw [Nat.ofDigitChars_nil]
      norm_num
      ring
    rw [tenth]

end Denote

/-! ### Written numbers -/

section Written

variable {x : Float} {d : Dyadic}

/-- **How a number that is not zero is written**: a sign, and the shortest decimal with a point in its digits. -/
theorem exists_plain (parts : Dyadic.ofFloat? x = some d) (some : d.mantissa ≠ 0) :
    ∃ whole fraction, Plain whole fraction ∧ Denotes whole fraction (shortest d) ∧
      toText x = String.ofList (signed d.negative (numeral whole fraction)) ∧
      positional (Nat.toDigits 10 (shortest d).digits)
        ((Nat.toDigits 10 (shortest d).digits).length + (shortest d).exponent) = (whole, fraction) := by
  have legal := legal_of_parts parts some
  have last := last_shortest legal
  obtain ⟨whole, fraction, written⟩ : ∃ whole fraction, positional (Nat.toDigits 10 (shortest d).digits)
      ((Nat.toDigits 10 (shortest d).digits).length + (shortest d).exponent) = (whole, fraction) := ⟨_, _, rfl⟩
  obtain ⟨_, denotes⟩ := positional_digits (shortest d) written
  refine ⟨whole, fraction, plain_positional (by omega) last written, denotes, ?_, written⟩
  have nonzero : (d.mantissa == 0) = false := beq_eq_false_iff_ne.mpr some
  unfold toText shortestDigits
  rw [parts]
  dsimp only
  rw [nonzero, written]
  cases d.negative <;> rfl

/-- **What the form for messages denotes** is the shortest decimal. -/
theorem numeralValue?_shown (parts : Dyadic.ofFloat? x = some d) (some : d.mantissa ≠ 0) :
    numeralValue? (shown x).toList = Option.some (if d.negative then -(shortest d).value else (shortest d).value) := by
  obtain ⟨whole, fraction, plain, denotes, _, written⟩ := exists_plain parts some
  have nonzero : (d.mantissa == 0) = false := beq_eq_false_iff_ne.mpr some
  have sign : ∀ cs, (if d.negative then ['-'] else []) ++ cs = signed d.negative cs := by
    intro cs
    cases d.negative <;> rfl
  unfold shown shortestDigits
  rw [parts]
  dsimp only
  rw [nonzero, if_neg Bool.false_ne_true, written]
  split
  · rw [String.toList_ofList, sign]
    exact numeralValue?_scientific (shortest d) d.negative
  · dsimp only
    rw [String.toList_ofList, List.append_assoc, sign]
    exact numeralValue?_padded plain.digits denotes d.negative

theorem accepted_signed {whole fraction : List Char} (digits : Digits whole fraction) (negative : Bool) :
    Accepted (String.ofList (signed negative (numeral whole fraction))) := by
  refine ⟨negative, numeral whole fraction, ?_, isSome_splitNumeral?_iff.mp ?_⟩
  · rw [digits.trimBlanks_signed, String.toList_ofList]
  · rw [digits.splitNumeral?]
    rfl

/-- The written form of a number that is not zero is read as this number. -/
theorem ofText_toText_of_parts (parts : Dyadic.ofFloat? x = some d) (some : d.mantissa ≠ 0) :
    ofText (toText x) = x := by
  obtain ⟨whole, fraction, plain, denotes, text, _⟩ := exists_plain parts some
  rw [text, ofText_signed plain.digits, plain.digits.ofDigits_eq denotes, toFloat_shortest (legal_of_parts parts some)]
  exact signed_packed_of_parts parts

end Written

/-- **The written form of a number** is exact and reversible. A finite number that is not zero is written as a numeral
without superfluous zeros, which denotes the same rational number as the form for messages, is accepted and is read as
the number. Both zeros are written `0`, and what is not finite is read back as not a number. -/
theorem toText_exact (x : Float) :
    if x.isFinite then
      if x == 0 then toText x = "0"
      else
        (∃ negative whole fraction, Plain whole fraction ∧
          toText x = String.ofList (signed negative (numeral whole fraction))) ∧
        (∃ v, numeralValue? (toText x).toList = some v ∧ numeralValue? (shown x).toList = some v) ∧
        Accepted (toText x) ∧ ofText (toText x) = x
    else (ofText (toText x)).isNaN = true := by
  rw [isFinite_eq]
  cases parts : Dyadic.ofFloat? x with
  | none =>
    rw [Option.isSome_none, if_neg Bool.false_ne_true]
    unfold toText
    rw [parts]
    dsimp only
    split
    · decide
    · split <;> decide
  | some d =>
    rw [Option.isSome_some, if_pos rfl, beq_zero_of_parts parts]
    split
    case isTrue zero =>
      unfold toText
      rw [parts]
      dsimp only
      rw [if_pos zero]
    case isFalse nonzero =>
      have some : d.mantissa ≠ 0 := by simpa using nonzero
      obtain ⟨whole, fraction, plain, denotes, text, _⟩ := exists_plain parts some
      refine ⟨⟨d.negative, whole, fraction, plain, text⟩, ⟨_, ?_, numeralValue?_shown parts some⟩, ?_,
        ofText_toText_of_parts parts some⟩
      · rw [text, String.toList_ofList]
        exact numeralValue?_numeral plain.digits denotes d.negative
      · rw [text]
        exact accepted_signed plain.digits d.negative

example : toText 1.5e-7 = "0.00000015" := by decide

example : toText (-1e21) = "-1000000000000000000000" := by decide

end XPathAnnotator.Number
