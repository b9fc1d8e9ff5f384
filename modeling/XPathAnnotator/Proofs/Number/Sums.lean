/-
**Sums of numbers.**

A sum is computed exactly and rounded once, so it is the number whose rounding interval has the exact sum. Rounding
keeps the order, and what is a number of the format stays as it is.

* `Dyadic.value` — the rational number of a finite number;
* `compare_unpacked`, `lt_iff_of_parts`, `le_iff_of_parts` — **comparing numbers** is comparing their values;
* `Dyadic.size_le_of_holds`, `Dyadic.le_size_of_holds` — rounding keeps the order;
* `Dyadic.exists_canonical` — few digits are a number of the format;
* `add_spec` — **a sum is rounded correctly**.
-/

import Mathlib
import XPathAnnotator.Proofs.Number.Nearest

namespace XPathAnnotator.Number

open Float.Model
open Float.Model.UnpackedFloat (Sign)

namespace Dyadic

variable {d d' : Dyadic}

/-! ### Values -/

/-- The rational number of a finite number. -/
def value (d : Dyadic) : ℚ := if d.negative then -d.size else d.size

theorem size_nonneg (d : Dyadic) : 0 ≤ d.size := by
  unfold size
  positivity

theorem size_pos (some : 0 < d.mantissa) : 0 < d.size := by
  unfold size
  positivity

theorem size_of_zero (none : d.mantissa = 0) : d.size = 0 := by rw [size, none, Nat.cast_zero, zero_mul]

theorem value_of_zero (none : d.mantissa = 0) : d.value = 0 := by
  rw [value, size_of_zero none, neg_zero, ite_self]

theorem value_of_positive (positive : d.negative = false) : d.value = d.size := by
  rw [value, positive, if_neg Bool.false_ne_true]

theorem value_of_negative (negative : d.negative = true) : d.value = -d.size := by
  rw [value, negative, if_pos rfl]

theorem abs_value (d : Dyadic) : |d.value| = d.size := by
  unfold value
  split
  · rw [abs_neg, abs_of_nonneg d.size_nonneg]
  · exact abs_of_nonneg d.size_nonneg

theorem negative_of_value_neg (below : d.value < 0) : d.negative = true := by
  by_contra positive
  rw [value_of_positive (Bool.not_eq_true _ ▸ positive)] at below
  exact absurd below d.size_nonneg.not_gt

theorem positive_of_value_pos (above : 0 < d.value) : d.negative = false := by
  rw [Bool.eq_false_iff]
  intro negative
  rw [value_of_negative negative] at above
  linarith [d.size_nonneg]

/-- Without digits there is the sign only. -/
theorem eq_of_zero (canonical : d.Canonical) (none : d.mantissa = 0) : d = ⟨d.negative, 0, -1074⟩ := by
  have least : d.exponent = -1074 := by
    have full := canonical.full
    omega
  obtain ⟨_, _, _⟩ := d
  obtain rfl : _ = 0 := none
  obtain rfl : _ = -1074 := least
  rfl

/-- The value of a number with digits tells its sign. -/
theorem negative_eq (positive : 0 < d.mantissa) : d.negative = decide (d.value < 0) := by
  have size := size_pos positive
  unfold value
  cases d.negative
  · exact (decide_eq_false size.not_gt).symm
  · exact (decide_eq_true (neg_neg_of_pos size)).symm

/-! ### Order -/

theorem size_lt (canonical : d.Canonical) {e : Int} (atMost : d.exponent ≤ e) : d.size < 2 ^ 53 * 2 ^ e := by
  have below : (d.mantissa : ℚ) < 2 ^ 53 := by exact_mod_cast canonical.below
  calc d.size < 2 ^ 53 * 2 ^ d.exponent := mul_lt_mul_of_pos_right below (by positivity)
    _ ≤ 2 ^ 53 * 2 ^ e := by
      gcongr
      norm_num

theorem size_lt_high (d : Dyadic) : d.size < (RoundingInterval.of d).high.value := by
  rw [value_high, size_eq]
  have unit := d.quarter_pos
  push_cast
  nlinarith

/-- A number is less than another one by exponent and mantissa if its size is less. -/
theorem before_iff (canonical : d.Canonical) (canonical' : d'.Canonical) : d.Before d' ↔ d.size < d'.size := by
  have ascending : ∀ {d d' : Dyadic}, d.Canonical → d'.Canonical → d.Before d' → d.size < d'.size :=
    fun canonical canonical' before => (size_lt_high _).trans_le
      ((high_le_low canonical canonical' before).trans (holds_size canonical').le.1)
  refine ⟨ascending canonical canonical', fun less => ?_⟩
  rcases lt_trichotomy d.exponent d'.exponent with below | same | above
  · exact .inl below
  · rcases lt_trichotomy d.mantissa d'.mantissa with below | equal | above
    · exact .inr ⟨same, below⟩
    · rw [size, size, same, equal] at less
      exact absurd less (lt_irrefl _)
    · exact absurd (ascending canonical' canonical (.inr ⟨same.symm, above⟩)) less.not_gt
  · exact absurd (ascending canonical' canonical (.inl above)) less.not_gt

/-- **Rounding keeps the order**: what is not below a number of the format is not rounded below it. -/
theorem le_size_of_holds (canonical : d.Canonical) (canonical' : d'.Canonical) {v : ℚ}
    (holds : (RoundingInterval.of d).Holds v) (atLeast : d'.size ≤ v) : d'.size ≤ d.size := by
  by_contra less
  have before := (before_iff canonical canonical').mpr (not_le.mp less)
  have ends : v ≤ d'.size :=
    holds.le.2.trans ((high_le_low canonical canonical' before).trans (holds_size canonical').le.1)
  have same : d'.size = v := le_antisymm atLeast ends
  exact not_holds_of_before canonical canonical' before holds (same ▸ holds_size canonical')

/-- What is not above a number of the format is not rounded above it. -/
theorem size_le_of_holds (canonical : d.Canonical) (canonical' : d'.Canonical) {v : ℚ}
    (holds : (RoundingInterval.of d).Holds v) (atMost : v ≤ d'.size) : d.size ≤ d'.size := by
  by_contra less
  have before := (before_iff canonical' canonical).mpr (not_le.mp less)
  have ends : d'.size ≤ v :=
    (holds_size canonical').le.2.trans ((high_le_low canonical' canonical before).trans holds.le.1)
  have same : d'.size = v := le_antisymm ends atMost
  exact not_holds_of_before canonical' canonical before (same ▸ holds_size canonical') holds

/-- What is rounded from a size of the format has this size. -/
theorem size_eq_of_holds (canonical : d.Canonical) (canonical' : d'.Canonical)
    (holds : (RoundingInterval.of d).Holds d'.size) : d.size = d'.size :=
  le_antisymm (size_le_of_holds canonical canonical' holds le_rfl) (le_size_of_holds canonical canonical' holds le_rfl)

/-- Numbers of the format with the same size have the same mantissa and exponent. -/
theorem eq_of_size (canonical : d.Canonical) (canonical' : d'.Canonical) (same : d.size = d'.size) :
    d.mantissa = d'.mantissa ∧ d.exponent = d'.exponent :=
  eq_of_holds canonical canonical' (holds_size canonical) (same ▸ holds_size canonical')

/-- Numbers of the format with the same value and sign are the same. -/
theorem ext_of_value (canonical : d.Canonical) (canonical' : d'.Canonical)
    (sign : d.negative = d'.negative) (same : d.value = d'.value) : d = d' := by
  have size : d.size = d'.size := by rw [← d.abs_value, same, d'.abs_value]
  exact ext_of_holds sign canonical canonical' (holds_size canonical) (size ▸ holds_size canonical')

/-- **Few digits are a number of the format.** -/
theorem exists_canonical (negative : Bool) {m : Nat} {e : Int} (below : m < 2 ^ 53) (least : -1074 ≤ e) :
    ∃ d : Dyadic, d.negative = negative ∧ d.Canonical ∧ d.size = m * 2 ^ e ∧ d.exponent ≤ e := by
  obtain ⟨k, distance⟩ : ∃ k : ℕ, e = -1074 + k := ⟨(e + 1074).toNat, by omega⟩
  induction k generalizing m e with
  | zero => exact ⟨⟨negative, m, e⟩, rfl, ⟨below, least, .inl (by dsimp only; omega)⟩, rfl, le_rfl⟩
  | succ k ih =>
    by_cases full : 2 ^ 52 ≤ m
    · exact ⟨⟨negative, m, e⟩, rfl, ⟨below, least, .inr full⟩, rfl, le_rfl⟩
    · -- There is room for one more digit, so the exponent can be less by one.
      have shifted : ((m * 2 : ℕ) : ℚ) * 2 ^ (e - 1) = m * 2 ^ e := by
        rw [zpow_sub_one₀ (by norm_num)]
        push_cast
        ring
      obtain ⟨d, sign, canonical, size, atMost⟩ := ih (m := m * 2) (e := e - 1) (by omega) (by omega) (by omega)
      exact ⟨d, sign, canonical, size.trans shifted, by omega⟩

end Dyadic

/-! ### Comparing -/

/-- Comparing exponents first and then mantissas is comparing sizes. -/
theorem compare_parts {d d' : Dyadic} (canonical : d.Canonical) (canonical' : d'.Canonical) :
    (compare d.exponent d'.exponent).then (compare d.mantissa d'.mantissa) = compare d.size d'.size := by
  rcases lt_trichotomy d.size d'.size with less | same | greater
  · rw [compare_lt_iff_lt.mpr less]
    rcases (Dyadic.before_iff canonical canonical').mpr less with below | ⟨equal, below⟩
    · rw [compare_lt_iff_lt.mpr below]
      rfl
    · rw [compare_eq_iff_eq.mpr equal, compare_lt_iff_lt.mpr below]
      rfl
  · obtain ⟨mantissa, exponent⟩ :=
      Dyadic.eq_of_holds canonical canonical' (holds_size canonical) (same ▸ holds_size canonical')
    rw [compare_eq_iff_eq.mpr same, compare_eq_iff_eq.mpr exponent, compare_eq_iff_eq.mpr mantissa]
    rfl
  · rw [compare_gt_iff_gt.mpr greater]
    rcases (Dyadic.before_iff canonical' canonical).mpr greater with below | ⟨equal, below⟩
    · rw [compare_gt_iff_gt.mpr below]
      rfl
    · rw [compare_eq_iff_eq.mpr equal.symm, compare_gt_iff_gt.mpr below]
      rfl

/-- **Comparing numbers** is comparing their values. -/
theorem compare_unpacked {d d' : Dyadic} (canonical : d.Canonical) (canonical' : d'.Canonical) :
    d.unpacked.compare d'.unpacked = some (compare d.value d'.value) := by
  rcases Nat.eq_zero_or_pos d.mantissa with none | positive <;>
    rcases Nat.eq_zero_or_pos d'.mantissa with none' | positive'
  case inl.inl =>
    rw [Dyadic.unpacked_of_zero none, Dyadic.unpacked_of_zero none', Dyadic.value_of_zero none,
      Dyadic.value_of_zero none', compare_eq_iff_eq.mpr rfl]
    rfl
  case inl.inr =>
    have size := Dyadic.size_pos positive'
    rw [Dyadic.unpacked_of_zero none, Dyadic.unpacked_of_pos positive', Dyadic.value_of_zero none]
    unfold Dyadic.sign Dyadic.value
    cases d'.negative
    · exact congrArg some (compare_lt_iff_lt.mpr size).symm
    · exact congrArg some (compare_gt_iff_gt.mpr (neg_neg_of_pos size)).symm
  case inr.inl =>
    have size := Dyadic.size_pos positive
    rw [Dyadic.unpacked_of_zero none', Dyadic.unpacked_of_pos positive, Dyadic.value_of_zero none']
    unfold Dyadic.sign Dyadic.value
    cases d.negative
    · exact congrArg some (compare_gt_iff_gt.mpr size).symm
    · exact congrArg some (compare_lt_iff_lt.mpr (neg_neg_of_pos size)).symm
  case inr.inr =>
    have size := Dyadic.size_pos positive
    have size' := Dyadic.size_pos positive'
    have opposite : -d.size < d'.size ∧ -d'.size < d.size := ⟨by linarith, by linarith⟩
    have parts := compare_parts canonical canonical'
    rw [Dyadic.unpacked_of_pos positive, Dyadic.unpacked_of_pos positive']
    unfold Dyadic.sign Dyadic.value
    cases d.negative <;> cases d'.negative
    · exact congrArg some parts
    · exact congrArg some (compare_gt_iff_gt.mpr opposite.2).symm
    · exact congrArg some (compare_lt_iff_lt.mpr opposite.1).symm
    · have reversed : compare (-d.size) (-d'.size) = compare d'.size d.size := by
        rw [← cmp_eq_compare, ← cmp_eq_compare]
        exact StrictAnti.cmp_map_eq (fun _ _ => neg_lt_neg) _ _
      have swapped : ((compare d.exponent d'.exponent).then (compare d.mantissa d'.mantissa)).swap =
          compare (-d.size) (-d'.size) := by
        rw [parts, reversed]
        exact Std.OrientedOrd.eq_swap.symm
      exact congrArg some swapped

section Order

variable {x y : Float} {d d' : Dyadic} (parts : Dyadic.ofFloat? x = some d) (parts' : Dyadic.ofFloat? y = some d')

include parts parts'

/-- One finite number is less than another one if its value is less. -/
theorem lt_iff_of_parts : x < y ↔ d.value < d'.value := by
  have order := compare_unpacked (canonical_of_parts parts).1 (canonical_of_parts parts').1
  show decide (x.toModel < y.toModel) = true ↔ _
  rw [decide_eq_true_iff]
  show (x.toModel.unpack.compare y.toModel.unpack == some .lt) = true ↔ _
  rw [unpack_of_parts parts, unpack_of_parts parts', order, beq_iff_eq, Option.some_inj, compare_lt_iff_lt]

theorem le_iff_of_parts : x ≤ y ↔ d.value ≤ d'.value := by
  have order := compare_unpacked (canonical_of_parts parts).1 (canonical_of_parts parts').1
  show decide (x.toModel ≤ y.toModel) = true ↔ _
  rw [decide_eq_true_iff]
  show (x.toModel.unpack.compare y.toModel.unpack).any (·.isLE) = true ↔ _
  rw [unpack_of_parts parts, unpack_of_parts parts', order, Option.any_some, Ordering.isLE_iff_ne_gt]
  exact compare_le_iff_le

end Order

/-! ### Sums -/

/-- An integer of any length is rounded to the number whose rounding interval has its size. -/
theorem normalize_spec {z : ℤ} (e : Int) (nonzero : z ≠ 0) :
    ∃ s : Dyadic, s.negative = decide (z < 0) ∧ s.Canonical ∧ (RoundingInterval.of s).Holds (|(z : ℚ)| * 2 ^ e) ∧
      UnpackedFloat.normalize Format.binary64 z e .positive = s.unpacked := by
  have size : |(z : ℚ)| = z.natAbs := by rw [Nat.cast_natAbs, Int.cast_abs]
  obtain ⟨s, sign, canonical, holds, rounded⟩ :=
    round_spec (decide (z < 0)) e (Int.natAbs_pos.mpr nonzero)
  refine ⟨s, sign, canonical, size ▸ holds, ?_⟩
  rw [← rounded]
  unfold UnpackedFloat.normalize Dyadic.sign
  rcases lt_or_gt_of_ne nonzero with less | greater
  · have magnitude : (-z).toNat = z.natAbs := by omega
    rw [compare_lt_iff_lt.mpr less, sign, decide_eq_true less, if_pos rfl, ← magnitude]
  · have magnitude : z.toNat = z.natAbs := by omega
    rw [compare_gt_iff_gt.mpr greater, sign, decide_eq_false greater.not_gt, if_neg Bool.false_ne_true, ← magnitude]

/-- A number as an integer, in units of a power of two that is not above its own. -/
theorem apply_sign (d : Dyadic) {t : Int} (atMost : t ≤ d.exponent) :
    ((d.sign.apply (d.mantissa <<< (d.exponent - t).toNat : ℕ) : ℤ) : ℚ) * 2 ^ t = d.value := by
  obtain ⟨k, distance⟩ : ∃ k : ℕ, d.exponent = t + k := ⟨(d.exponent - t).toNat, by omega⟩
  have amount : (d.exponent - t).toNat = k := by omega
  have size : ((d.mantissa * 2 ^ k : ℕ) : ℚ) * 2 ^ t = d.size := by
    rw [Dyadic.size, distance, zpow_add₀ (by norm_num), zpow_natCast]
    push_cast
    ring
  rw [amount, Nat.shiftLeft_eq]
  unfold Dyadic.sign Dyadic.value
  cases d.negative
  · exact size
  · show ((-((d.mantissa * 2 ^ k : ℕ) : ℤ) : ℤ) : ℚ) * 2 ^ t = -d.size
    rw [← size]
    push_cast
    ring

/-- **A sum is rounded correctly**: it is the number whose rounding interval has the exact sum. -/
theorem add_spec {x y : Float} {d d' : Dyadic} (parts : Dyadic.ofFloat? x = some d)
    (parts' : Dyadic.ofFloat? y = some d') (positive : 0 < d.mantissa) (positive' : 0 < d'.mantissa)
    (nonzero : d.value + d'.value ≠ 0) :
    ∃ s : Dyadic, s.negative = decide (d.value + d'.value < 0) ∧ s.Canonical ∧
      (RoundingInterval.of s).Holds |d.value + d'.value| ∧
      (s.exponent ≤ 971 → Dyadic.ofFloat? (x + y) = some s) := by
  obtain ⟨t, least⟩ : ∃ t, min d.exponent d'.exponent = t := ⟨_, rfl⟩
  obtain ⟨z, whole⟩ : ∃ z : ℤ, d.sign.apply (d.mantissa <<< (d.exponent - t).toNat : ℕ) +
      d'.sign.apply (d'.mantissa <<< (d'.exponent - t).toNat : ℕ) = z := ⟨_, rfl⟩
  have unit : (0 : ℚ) < 2 ^ t := by positivity
  have sum : (z : ℚ) * 2 ^ t = d.value + d'.value := by
    rw [← whole, Int.cast_add, add_mul, apply_sign d (by omega), apply_sign d' (by omega)]
  have below : z < 0 ↔ d.value + d'.value < 0 := by
    rw [← sum, ← zero_mul ((2 : ℚ) ^ t), mul_lt_mul_iff_left₀ unit]
    exact_mod_cast Iff.rfl
  have some : z ≠ 0 := by
    rintro rfl
    exact nonzero (by rw [← sum, Int.cast_zero, zero_mul])
  obtain ⟨s, sign, canonical, holds, rounded⟩ := normalize_spec t some
  rw [← abs_of_pos unit, ← abs_mul, sum] at holds
  refine ⟨s, by simp only [sign, below], canonical, holds, fun greatest => ?_⟩
  have made : x + y = s.packed := by
    show Float.ofModel (.pack (UnpackedFloat.add Format.binary64 x.toModel.unpack y.toModel.unpack)) = _
    rw [unpack_of_parts parts, unpack_of_parts parts', Dyadic.unpacked_of_pos positive,
      Dyadic.unpacked_of_pos positive']
    unfold UnpackedFloat.add UnpackedFloat.decreaseExponent
    dsimp only
    rw [least, whole, rounded]
    rfl
  rw [made]
  exact Dyadic.ofFloat?_packed canonical greatest

end XPathAnnotator.Number
