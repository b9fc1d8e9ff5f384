/-
**The integers among the numbers.**

Integers with few digits are numbers of the format, and so are all numbers with a unit that is not below one. So the
integer below a number is a number of the format too, and it is converted without loss.

* `Dyadic.floor_eq` — the floor on the parts of a number;
* `ofInt_of_value` — **integers that are numbers of the format are exact**;
* `exists_floor`, `floor_of_parts` — so **the floor of a number is exact**.
-/

import Mathlib
import XPathAnnotator.Number.Arithmetic
import XPathAnnotator.Proofs.Number.Sums

namespace XPathAnnotator.Number

open Float.Model

/-! ### The floor of the parts -/

namespace Dyadic

variable {d d' : Dyadic}

/-- The whole part, and what remains. -/
theorem wholePart_spec (d : Dyadic) :
    (d.wholePart : ℚ) ≤ d.size ∧ d.size < d.wholePart + 1 ∧ (d.isInteger = true ↔ d.size = d.wholePart) := by
  unfold wholePart isInteger size
  by_cases above : d.exponent ≥ 0
  · obtain ⟨k, exponent⟩ := Int.eq_ofNat_of_zero_le above
    have same : (d.mantissa : ℚ) * 2 ^ d.exponent = (d.mantissa * twoTo d.exponent.toNat : ℕ) := by
      rw [exponent, zpow_natCast, Int.toNat_natCast]
      unfold twoTo
      push_cast [Nat.pow_eq]
      rfl
    rw [if_pos above, same, decide_eq_true above, Bool.true_or]
    exact ⟨le_rfl, lt_add_one _, by simp⟩
  · obtain ⟨k, exponent⟩ : ∃ k : ℕ, d.exponent = -(k : ℤ) := ⟨(-d.exponent).toNat, by omega⟩
    have amount : (-d.exponent).toNat = k := by omega
    have power : twoTo k = 2 ^ k := rfl
    have unit : (0 : ℚ) < 2 ^ k := by positivity
    have division : (2 : ℚ) ^ k * (d.mantissa / 2 ^ k : ℕ) + (d.mantissa % 2 ^ k : ℕ) = d.mantissa := by
      exact_mod_cast Nat.div_add_mod d.mantissa (2 ^ k)
    have rest : ((d.mantissa % 2 ^ k : ℕ) : ℚ) < 2 ^ k := by exact_mod_cast Nat.mod_lt _ (by positivity)
    have nonnegative : (0 : ℚ) ≤ (d.mantissa % 2 ^ k : ℕ) := by positivity
    rw [if_neg above, decide_eq_false above, Bool.false_or, amount, power, exponent, zpow_neg, zpow_natCast,
      ← div_eq_mul_inv, le_div_iff₀ unit, div_lt_iff₀ unit, div_eq_iff unit.ne', beq_iff_eq]
    refine ⟨by linarith, by linarith, fun none => ?_, fun same => ?_⟩
    · rw [none, Nat.cast_zero] at division
      linarith
    · have none : ((d.mantissa % 2 ^ k : ℕ) : ℚ) = 0 := by linarith
      exact_mod_cast none

/-- **The greatest integer that is not above a number.** -/
theorem floor_eq (d : Dyadic) : d.floor = ⌊d.value⌋ := by
  obtain ⟨atMost, less, whole⟩ := d.wholePart_spec
  symm
  rw [Int.floor_eq_iff]
  unfold floor value
  cases d.negative with
  | false => exact ⟨atMost, less⟩
  | true =>
    rw [if_pos rfl, if_pos rfl]
    by_cases integral : d.isInteger = true
    · rw [if_pos integral, whole.mp integral]
      push_cast
      exact ⟨by linarith, by linarith⟩
    · have more := lt_of_le_of_ne atMost fun same => integral (whole.mpr same.symm)
      rw [if_neg integral]
      push_cast
      exact ⟨by linarith, by linarith⟩

end Dyadic

/-! ### Whole numbers of any size -/

/-- The parts of a natural number are those of the number of the format with its size. -/
theorem ofWhole_eq {n : Nat} (some : 0 < n) (below : n < 2 ^ 53) {d : Dyadic} (canonical : d.Canonical)
    (positive : d.negative = false) (whole : d.size = n) : Dyadic.ofWhole n = d := by
  have size : (Dyadic.ofWhole n).size = d.size := (size_ofWhole some below).trans whole.symm
  exact Dyadic.ext_of_holds positive.symm (canonical_ofWhole some below) canonical
    (holds_size (canonical_ofWhole some below)) (size ▸ holds_size canonical)

/-- A product with one is exact, for a mantissa that has all its digits. -/
theorem mul_one_of_parts {x y : Float} {d one : Dyadic} (parts : Dyadic.ofFloat? x = some d)
    (partsOne : Dyadic.ofFloat? y = some one) (full : 2 ^ 52 ≤ d.mantissa) (sign : one.sign = .positive)
    (size : one.size = 1) (positive : d.negative = false) : x * y = d.packed := by
  have digits : 0 < d.mantissa := by omega
  have least : 0 < one.mantissa := by
    rw [Nat.pos_iff_ne_zero]
    intro none
    rw [Dyadic.size_of_zero none] at size
    exact zero_ne_one size
  have canonical := (canonical_of_parts parts).1
  have offset : Offset .exact (d.size / 2 ^ (d.exponent + one.exponent) - (d.mantissa * one.mantissa : ℕ)) := by
    show d.size / 2 ^ (d.exponent + one.exponent) - ((d.mantissa * one.mantissa : ℕ) : ℚ) = 0
    rw [← mul_one d.size, ← size, Dyadic.size, Dyadic.size, zpow_add₀ (by norm_num)]
    push_cast
    field_simp
    ring
  have fine : Fine (d.mantissa * one.mantissa) (d.exponent + one.exponent) :=
    .inl ((Nat.le_log2 (by positivity)).mpr (full.trans (Nat.le_mul_of_pos_right _ least)))
  have rounded := roundWithAccuracy_eq canonical fine offset (holds_size canonical)
  rw [Dyadic.sign_of_positive positive] at rounded
  show Float.ofModel (.pack (UnpackedFloat.mul Format.binary64 x.toModel.unpack y.toModel.unpack)) = _
  rw [unpack_of_parts parts, unpack_of_parts partsOne, Dyadic.unpacked_of_pos digits, Dyadic.unpacked_of_pos least,
    sign, Dyadic.sign_of_positive positive]
  exact congrArg (fun x => Float.ofModel (.pack x)) rounded

section Whole

variable {d : Dyadic} (legal : d.Legal)

include legal

/-- **A natural number that is a number of the format is exact.** -/
theorem ofNat_of_size (positive : d.negative = false) {n : Nat} (whole : d.size = n) : Float.ofNat n = d.packed := by
  have some : 0 < n := by
    have size := Dyadic.size_pos legal.positive
    rw [whole] at size
    exact_mod_cast size
  have holds := holds_size legal.canonical
  rw [whole, ← div_one (n : ℚ), ← pow_zero (10 : ℚ)] at holds
  show Float.ofScientific n false 0 = _
  unfold Float.ofScientific
  split
  case isTrue small =>
    obtain ⟨one, partsOne, sign, size⟩ := exists_powerOfTen (e := 0) (by norm_num)
    have same := ofWhole_eq some small.1 legal.canonical positive whole
    have parts : Dyadic.ofFloat? n.toUInt64.toFloat = Option.some d := by
      rw [toFloat_ofNat some small.1, same]
      exact Dyadic.ofFloat?_packed legal.canonical legal.greatest
    have full : 2 ^ 52 ≤ (Dyadic.ofWhole n).mantissa :=
      (Nat.le_log2 (by unfold Dyadic.ofWhole; positivity)).mp (log2_ofWhole some small.1).ge
    rw [same] at full
    exact mul_one_of_parts parts partsOne full sign (size.trans (pow_zero 10)) positive
  case isFalse =>
    show Float.ofModel (.pack (UnpackedFloat.ofScientific Format.binary64 n (Int.negOfNat 0))) = _
    rw [unpacked_ofScientific legal positive holds]
    rfl

/-- **An integer that is a number of the format is exact.** -/
theorem ofInt_of_value {n : ℤ} (whole : d.value = n) : Float.ofInt n = d.packed := by
  have size := Dyadic.size_pos legal.positive
  cases n with
  | ofNat n =>
    have positive : d.negative = false := by
      rw [Bool.eq_false_iff]
      intro negative
      rw [Dyadic.value_of_negative negative, Int.ofNat_eq_natCast, Int.cast_natCast] at whole
      linarith [(Nat.cast_nonneg n : (0 : ℚ) ≤ n)]
    rw [Dyadic.value_of_positive positive] at whole
    exact ofNat_of_size legal positive (by exact_mod_cast whole)
  | negSucc n =>
    have negative : d.negative = true := by
      refine Dyadic.negative_of_value_neg ?_
      rw [whole]
      exact_mod_cast Int.negSucc_lt_zero n
    rw [Dyadic.value_of_negative negative, Int.cast_negSucc, neg_inj] at whole
    have unsigned : d.unsigned.Legal := ⟨legal.positive, legal.below, legal.least, legal.greatest, legal.full⟩
    have magnitude : Float.ofNat (n + 1) = d.unsigned.packed := ofNat_of_size unsigned rfl whole
    have negated : d.unsigned.negated = d := by
      obtain ⟨_, _, _⟩ := d
      obtain rfl : _ = true := negative
      rfl
    show -Float.ofNat (n + 1) = d.packed
    rw [magnitude, neg_packed unsigned.canonical unsigned.greatest, negated]

end Whole

namespace Dyadic

variable {d : Dyadic}

/-- A number with a unit that is whole is an integer. -/
theorem exists_int (above : 0 ≤ d.exponent) : ∃ n : ℤ, d.value = n := by
  obtain ⟨k, exponent⟩ := Int.eq_ofNat_of_zero_le above
  have size : d.size = ((d.mantissa * 2 ^ k : ℕ) : ℤ) := by
    rw [size, exponent, zpow_natCast]
    push_cast
    rfl
  unfold value
  split
  · exact ⟨-(d.mantissa * 2 ^ k : ℕ), by rw [size]; push_cast; rfl⟩
  · exact ⟨_, size⟩

end Dyadic

/-- Integers with few digits are numbers of the format. -/
theorem exists_integer {n : ℤ} (few : n.natAbs < 2 ^ 53) :
    ∃ r : Dyadic, r.negative = decide (n < 0) ∧ r.Canonical ∧ r.exponent ≤ 0 ∧ r.value = n := by
  obtain ⟨r, sign, canonical, size, exponent⟩ :=
    Dyadic.exists_canonical (decide (n < 0)) (m := n.natAbs) (e := 0) few (by norm_num)
  refine ⟨r, sign, canonical, exponent, ?_⟩
  rw [zpow_zero, mul_one, Nat.cast_natAbs, Int.cast_abs] at size
  unfold Dyadic.value
  rw [sign, size]
  by_cases less : n < 0
  · rw [decide_eq_true less, if_pos rfl, abs_of_neg (by exact_mod_cast less), neg_neg]
  · rw [decide_eq_false less, if_neg Bool.false_ne_true, abs_of_nonneg (by exact_mod_cast not_lt.mp less)]

/-- The integer below a number is a number of the format. -/
theorem exists_floor {d : Dyadic} (canonical : d.Canonical) (greatest : d.exponent ≤ 971) :
    ∃ r : Dyadic, r.negative = decide (⌊d.value⌋ < 0) ∧ r.Canonical ∧ r.exponent ≤ 971 ∧ r.value = ⌊d.value⌋ := by
  rcases lt_or_ge d.exponent 0 with below | above
  · have size := Dyadic.size_lt canonical (e := -1) (by omega)
    rw [← d.abs_value, abs_lt] at size
    norm_num at size
    have few : ⌊d.value⌋.natAbs < 2 ^ 53 := by
      have low : -2 ^ 52 ≤ ⌊d.value⌋ := Int.le_floor.mpr (by push_cast; linarith)
      have high : ⌊d.value⌋ < 2 ^ 52 := Int.floor_lt.mpr (by push_cast; linarith)
      omega
    obtain ⟨r, sign, canonicalFloor, exponent, whole⟩ := exists_integer few
    exact ⟨r, sign, canonicalFloor, by omega, whole⟩
  · have positive : 0 < d.mantissa := by
      have full := canonical.full
      omega
    obtain ⟨n, whole⟩ := Dyadic.exists_int above
    have floor : ⌊d.value⌋ = n := by rw [whole, Int.floor_intCast]
    refine ⟨d, ?_, canonical, greatest, by rw [floor, whole]⟩
    rw [Dyadic.negative_eq positive, floor, whole]
    simp only [Int.cast_lt_zero]

/-- **The floor of a number is exact.** -/
theorem floor_of_parts {x : Float} {d : Dyadic} (parts : Dyadic.ofFloat? x = some d) :
    ∃ r, Dyadic.ofFloat? (floor x) = some r ∧ r.negative = decide (⌊d.value⌋ < 0) ∧ r.value = ⌊d.value⌋ := by
  obtain ⟨canonical, greatest⟩ := canonical_of_parts parts
  obtain ⟨r, sign, canonicalFloor, greatestFloor, whole⟩ := exists_floor canonical greatest
  refine ⟨r, ?_, sign, whole⟩
  unfold floor
  rw [parts]
  dsimp only
  rw [d.floor_eq]
  by_cases none : r.mantissa = 0
  · have zero : ⌊d.value⌋ = 0 := by exact_mod_cast whole.symm.trans (Dyadic.value_of_zero none)
    rw [zero, decide_eq_false (lt_irrefl 0)] at sign
    rw [zero, Dyadic.eq_of_zero canonicalFloor none, sign]
    rfl
  · have legal : r.Legal := ⟨Nat.pos_of_ne_zero none, canonicalFloor.below, canonicalFloor.least, greatestFloor,
      canonicalFloor.full⟩
    rw [ofInt_of_value legal whole]
    exact Dyadic.ofFloat?_packed canonicalFloor greatestFloor

end XPathAnnotator.Number
