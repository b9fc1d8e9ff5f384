/-
**Decimals that round to a number.**

The shortest decimal of a number lies in its rounding interval, and the rounding intervals of two numbers have no
decimal in common. So the shortest decimal tells the number.

* `Ratio.value`, `Decimal.value`, `RoundingInterval.Holds` — fractions, decimals and intervals as rational numbers;
* `holds_shortest` — **the shortest decimal is in the rounding interval**: the finest of the grids has a step that is
  smaller than a quarter of the unit in the last place, so it has a hit;
* `eq_of_holds` — **rounding intervals are apart**;
* `eq_of_shortest` — so numbers with the same shortest decimal are the same.
-/

import Mathlib
import XPathAnnotator.Number.Shortest

namespace XPathAnnotator.Number

/-! ### Rational values -/

/-- The rational number of a ratio. -/
def Ratio.value (r : Ratio) : ℚ := r.numerator / r.denominator

/-- The rational number of a decimal. -/
def Decimal.value (d : Decimal) : ℚ := d.digits * 10 ^ d.exponent

/-- The value of a decimal, with a point as far to the left as the exponent is below zero. -/
theorem Decimal.value_eq (decimal : Decimal) : decimal.value =
    ((decimal.digits * 10 ^ decimal.exponent.toNat : ℕ) : ℚ) / 10 ^ (-decimal.exponent).toNat := by
  rw [Decimal.value]
  rcases le_or_gt 0 decimal.exponent with above | below
  · obtain ⟨n, same⟩ := Int.eq_ofNat_of_zero_le above
    rw [same]
    simp
  · obtain ⟨n, same⟩ : ∃ n : ℕ, decimal.exponent = -(n : ℤ) := ⟨(-decimal.exponent).toNat, by omega⟩
    rw [same]
    simp [div_eq_mul_inv]

theorem pos_denominator_scaled {n base : Nat} (positive : 0 < base) (exponent : Int) :
    0 < (Ratio.scaled n base exponent).denominator := by
  unfold Ratio.scaled
  split
  · exact Nat.one_pos
  · exact Nat.pow_pos positive

theorem value_scaled (n base : Nat) (exponent : Int) :
    (Ratio.scaled n base exponent).value = n * (base : ℚ) ^ exponent := by
  unfold Ratio.scaled Ratio.value
  split
  case isTrue above =>
    obtain ⟨k, rfl⟩ := Int.eq_ofNat_of_zero_le above
    push_cast [Nat.pow_eq]
    simp
  case isFalse below =>
    obtain ⟨k, rfl⟩ : ∃ k : Nat, exponent = -(k : Int) := ⟨(-exponent).toNat, by omega⟩
    push_cast [Nat.pow_eq]
    simp [div_eq_mul_inv]

section Compare

variable {a b : Ratio} (positiveA : 0 < a.denominator) (positiveB : 0 < b.denominator)

include positiveA positiveB

theorem Ratio.le_iff : a.le b = true ↔ a.value ≤ b.value := by
  have castA : (0 : ℚ) < a.denominator := by exact_mod_cast positiveA
  have castB : (0 : ℚ) < b.denominator := by exact_mod_cast positiveB
  rw [le, decide_eq_true_iff, value, value, div_le_div_iff₀ castA castB]
  exact_mod_cast Iff.rfl

theorem Ratio.lt_iff : a.lt b = true ↔ a.value < b.value := by
  have castA : (0 : ℚ) < a.denominator := by exact_mod_cast positiveA
  have castB : (0 : ℚ) < b.denominator := by exact_mod_cast positiveB
  rw [lt, decide_eq_true_iff, value, value, div_lt_div_iff₀ castA castB]
  exact_mod_cast Iff.rfl

end Compare

/-! ### Intervals -/

namespace RoundingInterval

/-- The ends of an interval are fractions. -/
structure Proper (interval : RoundingInterval) : Prop where
  low : 0 < interval.low.denominator
  high : 0 < interval.high.denominator

/-- The rational numbers in an interval. -/
def Holds (interval : RoundingInterval) (v : ℚ) : Prop :=
  if interval.closed then interval.low.value ≤ v ∧ v ≤ interval.high.value
  else interval.low.value < v ∧ v < interval.high.value

variable {interval : RoundingInterval} {v : ℚ}

theorem holds_of_between (above : interval.low.value < v) (below : v < interval.high.value) : interval.Holds v := by
  unfold Holds
  split
  · exact ⟨above.le, below.le⟩
  · exact ⟨above, below⟩

theorem Holds.le (holds : interval.Holds v) : interval.low.value ≤ v ∧ v ≤ interval.high.value := by
  unfold Holds at holds
  split at holds
  · exact holds
  · exact ⟨holds.1.le, holds.2.le⟩

theorem Holds.lt (holds : interval.Holds v) (isOpen : interval.closed = false) :
    interval.low.value < v ∧ v < interval.high.value := by
  unfold Holds at holds
  rw [if_neg (by simp [isOpen])] at holds
  exact holds

theorem contains_iff (proper : interval.Proper) {r : Ratio} (positive : 0 < r.denominator) :
    interval.contains r = true ↔ interval.Holds r.value := by
  unfold contains Holds
  split
  · rw [Bool.and_eq_true, Ratio.le_iff proper.low positive, Ratio.le_iff positive proper.high]
  · rw [Bool.and_eq_true, Ratio.lt_iff proper.low positive, Ratio.lt_iff positive proper.high]

/-- A decimal that is tested is in the interval if the test says so. -/
theorem contains_scaled_iff (proper : interval.Proper) (n : Nat) (exponent : Int) :
    interval.contains (Ratio.scaled n 10 exponent) = true ↔ interval.Holds (Decimal.value ⟨n, exponent⟩) := by
  rw [contains_iff proper (pos_denominator_scaled (by decide) exponent), value_scaled]
  exact Iff.rfl

end RoundingInterval

/-! ### Grids -/

section Grid

variable {interval : RoundingInterval} (proper : interval.Proper) {r : Ratio} {exponent : Int}

include proper

/-- A hit on a grid is in the interval. -/
theorem holds_of_onGrid? {hit : Decimal} (found : onGrid? interval r exponent = some hit) :
    interval.Holds hit.value := by
  unfold onGrid? at found
  dsimp only at found
  split at found
  case h_1 insideBelow insideAbove =>
    obtain rfl := Option.some.inj found
    split
    · exact (RoundingInterval.contains_scaled_iff proper _ _).mp insideAbove
    · exact (RoundingInterval.contains_scaled_iff proper _ _).mp insideBelow
  case h_2 insideBelow _ =>
    obtain rfl := Option.some.inj found
    exact (RoundingInterval.contains_scaled_iff proper _ _).mp insideBelow
  case h_3 _ insideAbove =>
    obtain rfl := Option.some.inj found
    exact (RoundingInterval.contains_scaled_iff proper _ _).mp insideAbove
  case h_4 => exact absurd found (by simp)

/-- A grid has a hit if the interval goes down from the number by at least a step. -/
theorem isSome_onGrid? (positive : 0 < r.denominator)
    (wide : ∀ v, v ≤ r.value → r.value < v + 10 ^ exponent → interval.Holds v) :
    (onGrid? interval r exponent).isSome = true := by
  have stepPositive : 0 < (Ratio.scaled 1 10 exponent).denominator := pos_denominator_scaled (by decide) exponent
  have stepValue : (Ratio.scaled 1 10 exponent).value = 10 ^ exponent := by
    rw [value_scaled, Nat.cast_one, one_mul]
    rfl
  unfold onGrid?
  dsimp only
  generalize Ratio.scaled 1 10 exponent = step at *
  have numeratorPositive : 0 < step.numerator := by
    have power : (0 : ℚ) < 10 ^ exponent := by positivity
    rw [← stepValue, Ratio.value] at power
    by_contra zero
    rw [Nat.eq_zero_of_not_pos zero] at power
    simp at power
  have unit : 0 < r.denominator * step.numerator := Nat.mul_pos positive numeratorPositive
  have atMost := Nat.div_mul_le_self (r.numerator * step.denominator) (r.denominator * step.numerator)
  have more := Nat.lt_div_mul_add (a := r.numerator * step.denominator) unit
  generalize r.numerator * step.denominator / (r.denominator * step.numerator) = n at *
  have inside : interval.contains (Ratio.scaled n 10 exponent) = true := by
    rw [RoundingInterval.contains_scaled_iff proper, Decimal.value]
    have castR : (0 : ℚ) < r.denominator := by exact_mod_cast positive
    have castStep : (0 : ℚ) < step.denominator := by exact_mod_cast stepPositive
    apply wide
    · rw [← stepValue, Ratio.value, Ratio.value, mul_div_assoc', div_le_div_iff₀ castStep castR]
      calc (n : ℚ) * step.numerator * r.denominator
          = ((n * (r.denominator * step.numerator) : ℕ) : ℚ) := by push_cast; ring
        _ ≤ ((r.numerator * step.denominator : ℕ) : ℚ) := by exact_mod_cast atMost
        _ = r.numerator * step.denominator := by push_cast; rfl
    · rw [← stepValue, Ratio.value, Ratio.value, mul_div_assoc', ← add_div, div_lt_div_iff₀ castR castStep]
      calc (r.numerator : ℚ) * step.denominator
          = ((r.numerator * step.denominator : ℕ) : ℚ) := by push_cast; rfl
        _ < ((n * (r.denominator * step.numerator) + r.denominator * step.numerator : ℕ) : ℚ) := by
          exact_mod_cast more
        _ = (n * step.numerator + step.numerator) * r.denominator := by push_cast; ring
  rw [inside]
  split <;> simp_all

/-- **The first hit** is in the interval if one of the grids has a hit. -/
theorem holds_firstOnGrid {fuel : Nat} (hit : ∃ j < fuel, (onGrid? interval r (exponent - j)).isSome = true) :
    interval.Holds (firstOnGrid interval r exponent fuel).value := by
  induction fuel generalizing exponent with
  | zero =>
    obtain ⟨j, below, _⟩ := hit
    omega
  | succ fuel ih =>
    unfold firstOnGrid
    split
    case h_1 found => exact holds_of_onGrid? proper found
    case h_2 missed =>
      obtain ⟨j, below, found⟩ := hit
      cases j with
      | zero => simp [missed] at found
      | succ j =>
        have next : exponent - 1 - (j : Int) = exponent - ((j + 1 : Nat) : Int) := by omega
        exact ih ⟨j, by omega, by rw [next]; exact found⟩

end Grid

/-- Zeros at the end of the digits do not count. -/
theorem value_dropZeros (d : Decimal) (fuel : Nat) : (dropZeros d fuel).value = d.value := by
  induction fuel generalizing d with
  | zero => rfl
  | succ fuel ih =>
    unfold dropZeros
    split
    case isTrue zero =>
      have whole : d.digits / 10 * 10 = d.digits := by
        simp only [Bool.and_eq_true, bne_iff_ne, beq_iff_eq] at zero
        omega
      rw [ih, Decimal.value, Decimal.value, zpow_add₀ (by norm_num), zpow_one]
      calc ((d.digits / 10 : ℕ) : ℚ) * (10 ^ d.exponent * 10)
          = ((d.digits / 10 * 10 : ℕ) : ℚ) * 10 ^ d.exponent := by push_cast; ring
        _ = d.digits * 10 ^ d.exponent := by rw [whole]
    case isFalse => rfl

/-! ### The position of the point -/

/-- The position of the point is the guess, or the first digit before it does not count for nothing. -/
theorem pointPosition_spec {r : Ratio} (positive : 0 < r.denominator) (guess : Int) (fuel : Nat) :
    pointPosition r guess fuel = guess ∨ (10 : ℚ) ^ (pointPosition r guess fuel - 1) ≤ r.value := by
  induction fuel generalizing guess with
  | zero => exact .inl rfl
  | succ fuel ih =>
    unfold pointPosition
    split
    case isTrue => exact .inl rfl
    case isFalse notBelow =>
      rw [Ratio.lt_iff positive (pos_denominator_scaled (by decide) guess), value_scaled, Nat.cast_one, one_mul,
        not_lt] at notBelow
      rcases ih (guess + 1) with same | atLeast
      · rw [same, add_sub_cancel_right]
        exact .inr notBelow
      · exact .inr atLeast

/-- Powers of ten below powers of two, from a fraction that is a little more than the logarithm of two. -/
theorem zpow_ten_le_of_fraction {p q : Nat} (below : (10 : ℚ) ^ p ≤ 2 * 2 ^ q) (above : (2 : ℚ) ^ q ≤ 10 ^ p)
    {places bits : Int} (positive : 0 < q) (small : bits ≤ q) (estimate : q * (places + 2) ≤ p * bits) :
    (10 : ℚ) ^ places ≤ 2 ^ (bits - 1) := by
  have power : (10 : ℚ) ^ ((p : ℤ) * bits) ≤ (2 ^ q) ^ (bits - 1) * 100 ^ q := by
    rw [zpow_mul, zpow_natCast]
    have two : (0 : ℚ) < 2 ^ q := by positivity
    rcases le_or_gt 0 bits with nonnegative | negative
    · obtain ⟨n, rfl⟩ := Int.eq_ofNat_of_zero_le nonnegative
      have small : n ≤ q := by exact_mod_cast small
      rw [zpow_sub_one₀ two.ne', zpow_natCast, zpow_natCast]
      calc ((10 : ℚ) ^ p) ^ n ≤ (2 * 2 ^ q) ^ n := by gcongr
        _ = (2 ^ q) ^ n * (2 ^ q)⁻¹ * (2 ^ n * 2 ^ q) := by
          rw [mul_pow]
          field_simp
        _ ≤ (2 ^ q) ^ n * (2 ^ q)⁻¹ * (2 ^ q * 2 ^ q) := by
          gcongr
          norm_num
        _ = (2 ^ q) ^ n * (2 ^ q)⁻¹ * 4 ^ q := by
          rw [← mul_pow]
          norm_num
        _ ≤ (2 ^ q) ^ n * (2 ^ q)⁻¹ * 100 ^ q := by
          gcongr
          norm_num
    · obtain ⟨n, rfl⟩ : ∃ n : ℕ, bits = -(n : ℤ) := ⟨(-bits).toNat, by omega⟩
      rw [zpow_sub_one₀ two.ne', zpow_neg, zpow_neg, zpow_natCast, zpow_natCast]
      calc (((10 : ℚ) ^ p) ^ n)⁻¹ ≤ ((2 ^ q) ^ n)⁻¹ := by gcongr
        _ = ((2 ^ q) ^ n)⁻¹ * (2 ^ q)⁻¹ * 2 ^ q := by field_simp
        _ ≤ ((2 ^ q) ^ n)⁻¹ * (2 ^ q)⁻¹ * 100 ^ q := by
          gcongr
          norm_num
  rw [← pow_le_pow_iff_left₀ (by positivity) (by positivity) positive.ne']
  calc ((10 : ℚ) ^ places) ^ q = 10 ^ ((q : ℤ) * (places + 2)) * (100 ^ q)⁻¹ := by
        have hundred : (100 : ℚ) ^ q = (10 ^ (2 : ℤ)) ^ (q : ℤ) := by norm_num
        rw [hundred, ← zpow_natCast, ← zpow_mul, ← zpow_mul, ← zpow_neg, ← zpow_add₀ (by norm_num)]
        ring_nf
    _ ≤ 10 ^ ((p : ℤ) * bits) * (100 ^ q)⁻¹ := by
      gcongr
      norm_num
    _ ≤ (2 ^ q) ^ (bits - 1) * 100 ^ q * (100 ^ q)⁻¹ := by gcongr
    _ = (2 ^ (bits - 1)) ^ q := by
      rw [mul_inv_cancel_right₀ (by positivity), ← zpow_natCast, ← zpow_natCast, ← zpow_mul, ← zpow_mul, mul_comm]

/-- The logarithm of two is a little less than 0.30103. -/
theorem log_two_between : (10 : ℚ) ^ 30103 ≤ 2 * 2 ^ 100000 ∧ (2 : ℚ) ^ 100000 ≤ 10 ^ 30103 := by
  have below : 10 ^ 30103 ≤ 2 * 2 ^ 100000 := by decide +kernel
  have above : 2 ^ 100000 ≤ 10 ^ 30103 := by decide +kernel
  exact ⟨by exact_mod_cast below, by exact_mod_cast above⟩

theorem zpow_ten_le {places bits : Int} (small : bits ≤ 2000) (estimate : 100000 * (places + 2) ≤ 30103 * bits) :
    (10 : ℚ) ^ places ≤ 2 ^ (bits - 1) := by
  exact zpow_ten_le_of_fraction log_two_between.1 log_two_between.2 (by norm_num) (by omega)
    (by exact_mod_cast estimate)

/-! ### Intervals of numbers -/

namespace Dyadic

/-- The size of a number. -/
def size (d : Dyadic) : ℚ := d.mantissa * 2 ^ d.exponent

/-- A number of the format that is not zero: its mantissa has all its digits, or the exponent is the least one. -/
structure Legal (d : Dyadic) : Prop where
  positive : 0 < d.mantissa
  below : d.mantissa < 2 ^ 53
  least : -1074 ≤ d.exponent
  greatest : d.exponent ≤ 971
  full : d.exponent = -1074 ∨ 2 ^ 52 ≤ d.mantissa

/-- Parts of the format, for an exponent that is not bounded and with zero: there is one size for each of them. -/
structure Canonical (d : Dyadic) : Prop where
  below : d.mantissa < 2 ^ 53
  least : -1074 ≤ d.exponent
  full : d.exponent = -1074 ∨ 2 ^ 52 ≤ d.mantissa

theorem Legal.canonical {d : Dyadic} (legal : d.Legal) : d.Canonical := ⟨legal.below, legal.least, legal.full⟩

/-- A fourth of the unit in the last place. -/
def quarter (d : Dyadic) : ℚ := 2 ^ (d.exponent - 2)

/-- The quarters from zero to the lower end of the rounding interval. -/
def lowQuarters (d : Dyadic) : Nat :=
  4 * d.mantissa - if d.mantissa == twoTo 52 && d.exponent > -1074 then 1 else 2

variable {d d' : Dyadic}

theorem quarter_pos (d : Dyadic) : 0 < d.quarter := by
  unfold quarter
  positivity

theorem value_low (d : Dyadic) : (RoundingInterval.of d).low.value = d.lowQuarters * d.quarter := value_scaled _ 2 _

theorem value_high (d : Dyadic) :
    (RoundingInterval.of d).high.value = ((4 * d.mantissa + 2 : ℕ) : ℚ) * d.quarter := value_scaled _ 2 _

theorem closed_of (d : Dyadic) : (RoundingInterval.of d).closed = (d.mantissa % 2 == 0) := rfl

theorem proper_of (d : Dyadic) : (RoundingInterval.of d).Proper :=
  ⟨pos_denominator_scaled (by decide) _, pos_denominator_scaled (by decide) _⟩

theorem size_eq (d : Dyadic) : d.size = ((4 * d.mantissa : ℕ) : ℚ) * d.quarter := by
  rw [size, quarter, zpow_sub₀ (by norm_num)]
  push_cast
  ring

theorem lowQuarters_pos (legal : d.Legal) : 0 < d.lowQuarters := by
  have positive := legal.positive
  unfold lowQuarters
  split <;> omega

/-- The interval goes down from a number by at least a quarter of the unit in the last place. -/
theorem holds_of_near (legal : d.Legal) {v : ℚ} (below : v ≤ d.size) (near : d.size < v + d.quarter) :
    (RoundingInterval.of d).Holds v := by
  have unit := d.quarter_pos
  have positive := legal.positive
  have low : d.lowQuarters + 1 ≤ 4 * d.mantissa := by
    unfold lowQuarters
    split <;> omega
  rw [size_eq] at below near
  refine RoundingInterval.holds_of_between ?_ ?_
  · rw [value_low]
    have lowSize : ((d.lowQuarters + 1 : ℕ) : ℚ) * d.quarter ≤ ((4 * d.mantissa : ℕ) : ℚ) * d.quarter := by gcongr
    push_cast at lowSize near
    linarith
  · rw [value_high]
    push_cast at below ⊢
    linarith

/-! ### Intervals apart -/

/-- A number that is less than another one, by exponent and mantissa. -/
def Before (d d' : Dyadic) : Prop :=
  d.exponent < d'.exponent ∨ d.exponent = d'.exponent ∧ d.mantissa < d'.mantissa

/-- **The interval of a number ends before that of a greater one begins**, except for a common end, and that is not
in both of them. -/
theorem quarters_le (canonical : d.Canonical) (canonical' : d'.Canonical) (before : d.Before d') :
    ∃ k : ℕ, d'.quarter = 2 ^ k * d.quarter ∧ 4 * d.mantissa + 2 ≤ d'.lowQuarters * 2 ^ k ∧
      (4 * d.mantissa + 2 = d'.lowQuarters * 2 ^ k → d.mantissa % 2 = 1 ∨ d'.mantissa % 2 = 1) := by
  obtain ⟨k, difference⟩ : ∃ k : ℕ, d'.exponent = d.exponent + k :=
    ⟨(d'.exponent - d.exponent).toNat, by rcases before with less | ⟨same, _⟩ <;> omega⟩
  refine ⟨k, ?_, ?_⟩
  · rw [quarter, quarter, difference, add_sub_right_comm, zpow_add₀ (by norm_num), zpow_natCast, mul_comm]
  have power : twoTo 52 = 2 ^ 52 := rfl
  have bound := canonical.below
  have full := canonical'.full
  have least := canonical.least
  unfold lowQuarters
  rw [power]
  cases k with
  | zero =>
    obtain less : d.mantissa < d'.mantissa := by
      rcases before with less | ⟨_, less⟩
      · omega
      · exact less
    simp only [Bool.and_eq_true, beq_iff_eq, decide_eq_true_eq]
    split <;> omega
  | succ k =>
    have twice : 2 ^ (k + 1) = 2 * 2 ^ k := by ring
    have one : 1 ≤ 2 ^ k := Nat.one_le_two_pow
    generalize low : 4 * d'.mantissa - _ = n
    have many : n * 2 ≤ n * 2 ^ (k + 1) := Nat.mul_le_mul_left n (by omega)
    simp only [Bool.and_eq_true, beq_iff_eq, decide_eq_true_eq] at low
    split at low <;> omega

/-- The interval of a number ends where that of a greater one begins, or before. -/
theorem high_le_low (canonical : d.Canonical) (canonical' : d'.Canonical) (before : d.Before d') :
    (RoundingInterval.of d).high.value ≤ (RoundingInterval.of d').low.value := by
  have unit := d.quarter_pos
  obtain ⟨k, units, apart, _⟩ := quarters_le canonical canonical' before
  rw [value_high, value_low, units, ← mul_assoc]
  gcongr
  exact_mod_cast apart

/-- No decimal rounds to two numbers of which one is less. -/
theorem not_holds_of_before (canonical : d.Canonical) (canonical' : d'.Canonical) (before : d.Before d') {v : ℚ}
    (holds : (RoundingInterval.of d).Holds v) : ¬ (RoundingInterval.of d').Holds v := by
  intro holds'
  have unit := d.quarter_pos
  obtain ⟨k, units, _, odd⟩ := quarters_le canonical canonical' before
  have ends := high_le_low canonical canonical' before
  have same : (RoundingInterval.of d).high.value = (RoundingInterval.of d').low.value :=
    le_antisymm ends (holds'.le.1.trans holds.le.2)
  have touch : 4 * d.mantissa + 2 = d'.lowQuarters * 2 ^ k := by
    rw [value_high, value_low, units, ← mul_assoc] at same
    exact_mod_cast mul_right_cancel₀ unit.ne' same
  rcases odd touch with isOdd | isOdd
  · have inside := holds.lt (by rw [closed_of, isOdd]; rfl)
    exact absurd (inside.2.trans_le (ends.trans holds'.le.1)) (lt_irrefl v)
  · have inside := holds'.lt (by rw [closed_of, isOdd]; rfl)
    exact absurd ((inside.1.trans_le holds.le.2).trans_le ends) (lt_irrefl _)

/-- **Rounding intervals are apart**: a decimal rounds to one number. -/
theorem eq_of_holds (canonical : d.Canonical) (canonical' : d'.Canonical) {v : ℚ}
    (holds : (RoundingInterval.of d).Holds v) (holds' : (RoundingInterval.of d').Holds v) :
    d.mantissa = d'.mantissa ∧ d.exponent = d'.exponent := by
  by_contra different
  rcases lt_trichotomy d.exponent d'.exponent with less | same | greater
  · exact not_holds_of_before canonical canonical' (.inl less) holds holds'
  · rcases lt_trichotomy d.mantissa d'.mantissa with less | equal | greater
    · exact not_holds_of_before canonical canonical' (.inr ⟨same, less⟩) holds holds'
    · exact different ⟨equal, same⟩
    · exact not_holds_of_before canonical' canonical (.inr ⟨same.symm, greater⟩) holds' holds
  · exact not_holds_of_before canonical' canonical (.inl greater) holds' holds

/-- Numbers of the same sign to which a decimal rounds are the same. -/
theorem ext_of_holds (sign : d.negative = d'.negative) (canonical : d.Canonical) (canonical' : d'.Canonical) {v : ℚ}
    (holds : (RoundingInterval.of d).Holds v) (holds' : (RoundingInterval.of d').Holds v) : d = d' := by
  obtain ⟨mantissa, exponent⟩ := eq_of_holds canonical canonical' holds holds'
  obtain ⟨_, _, _⟩ := d
  obtain ⟨_, _, _⟩ := d'
  subst sign mantissa exponent
  rfl

/-! ### The shortest decimal -/

/-- The binary digits of the mantissa tell the size of a number. -/
theorem zpow_bitLength_le (positive : 0 < d.mantissa) :
    (2 : ℚ) ^ ((bitLength d.mantissa : ℤ) + d.exponent - 1) ≤ d.size := by
  have length : bitLength d.mantissa = d.mantissa.log2 + 1 := by
    rw [bitLength, if_neg (by simp [positive.ne'])]
  have exponent : (bitLength d.mantissa : ℤ) + d.exponent - 1 = d.mantissa.log2 + d.exponent := by
    rw [length]
    push_cast
    ring
  rw [exponent, zpow_add₀ (by norm_num), zpow_natCast, size]
  gcongr
  exact_mod_cast Nat.log2_self_le positive.ne'

theorem bitLength_le (legal : d.Legal) : bitLength d.mantissa ≤ 53 := by
  rw [bitLength, if_neg (by simp [legal.positive.ne'])]
  exact (Nat.log2_lt legal.positive.ne').mpr legal.below

/-- The first digit of a number is not before the position of the point. -/
theorem zpow_point_le (legal : d.Legal) (fuel : Nat) :
    (10 : ℚ) ^ (pointPosition (Ratio.scaled d.mantissa 2 d.exponent)
      ((((bitLength d.mantissa : ℤ) + d.exponent) * 30103).fdiv 100000 - 1) fuel - 1) ≤ d.size := by
  have value : (Ratio.scaled d.mantissa 2 d.exponent).value = d.size := value_scaled _ 2 _
  rcases pointPosition_spec (r := Ratio.scaled d.mantissa 2 d.exponent)
    (pos_denominator_scaled (by decide) d.exponent)
    ((((bitLength d.mantissa : ℤ) + d.exponent) * 30103).fdiv 100000 - 1) fuel with guessed | atLeast
  · have length := bitLength_le legal
    have greatest := legal.greatest
    rw [guessed, Int.fdiv_eq_ediv_of_nonneg _ (by norm_num)]
    exact (zpow_ten_le (by omega) (by omega)).trans (zpow_bitLength_le legal.positive)
  · rw [value] at atLeast
    exact atLeast

/-- **The shortest decimal is in the rounding interval.** -/
theorem holds_shortest (legal : d.Legal) : (RoundingInterval.of d).Holds (shortest d).value := by
  have value : (Ratio.scaled d.mantissa 2 d.exponent).value = d.size := value_scaled _ 2 _
  have first := zpow_point_le legal 4
  unfold shortest
  dsimp only
  rw [value_dropZeros]
  generalize pointPosition _ _ 4 = point at first ⊢
  refine holds_firstOnGrid d.proper_of ⟨17, by norm_num, ?_⟩
  refine isSome_onGrid? d.proper_of (pos_denominator_scaled (by decide) _) fun v below near => ?_
  rw [value] at below near
  -- The mantissa has at most 53 binary digits, and 2 ^ 55 is less than 10 ^ 17.
  have step : (10 : ℚ) ^ (point - 1 - (17 : ℕ)) ≤ d.quarter := by
    have bound : (d.mantissa : ℚ) ≤ 2 ^ 53 := by exact_mod_cast legal.below.le
    have unit : d.quarter = 2 ^ d.exponent / 2 ^ (2 : ℤ) := zpow_sub₀ (by norm_num) _ _
    rw [unit, zpow_sub₀ (by norm_num) (point - 1), zpow_natCast, div_le_div_iff₀ (by norm_num) (by norm_num)]
    calc (10 : ℚ) ^ (point - 1) * 2 ^ (2 : ℤ) ≤ d.size * 2 ^ (2 : ℤ) := by gcongr
      _ ≤ 2 ^ 53 * 2 ^ d.exponent * 2 ^ (2 : ℤ) := by
        unfold size
        gcongr
      _ = 2 ^ d.exponent * 2 ^ 55 := by ring
      _ ≤ 2 ^ d.exponent * 10 ^ 17 := by
        gcongr
        norm_num
  exact holds_of_near legal below (near.trans_le (by linarith))

/-- **Numbers with the same shortest decimal are the same.** -/
theorem eq_of_shortest (legal : d.Legal) (legal' : d'.Legal) (same : (shortest d).value = (shortest d').value) :
    d.mantissa = d'.mantissa ∧ d.exponent = d'.exponent :=
  eq_of_holds legal.canonical legal'.canonical (holds_shortest legal) (same ▸ holds_shortest legal')

/-- The shortest decimal of a number that is not zero is not zero. -/
theorem shortest_pos (legal : d.Legal) : 0 < (shortest d).value := by
  have above := (holds_shortest legal).le.1
  rw [value_low] at above
  exact (mul_pos (by exact_mod_cast lowQuarters_pos legal) d.quarter_pos).trans_le above

end Dyadic

end XPathAnnotator.Number
