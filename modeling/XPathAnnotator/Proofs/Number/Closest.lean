/-
**The closest integer.**

Rounding adds one half and takes the floor. The floor is exact, and the sum is exact too for most numbers. Where it is
not, it stays between the same integers, except for the greatest number below one half and for the odd integers from
where the numbers are one apart: their sum is a tie, and goes up to an even mantissa.

* `Slips`, `slips_iff` — the numbers whose rounding goes up by one too many;
* `RoundsTo` — the integer that a number is rounded to;
* `holds_of_close` — one half does not count where numbers are one apart or more;
* `floor_of_fraction`, `exists_difference` — with a fraction, one half more stays between the same integers;
* `roundsTo_of_sum` — so the floor of the sum is that of the exact one, or the next integer;
* `round_of_parts` — **the integer closest to a number**, of two the greater, and what becomes of the others.
-/

import Mathlib
import XPathAnnotator.Proofs.Number.Floor

namespace XPathAnnotator.Number

open Float.Model

/-! ### One half more -/

/-- The numbers whose rounding goes up by one too many: the greatest one below one half, and the odd integers where
numbers are one apart. -/
def Slips (v : ℚ) : Prop :=
  v = 1 / 2 - 1 / 2 ^ 54 ∨ ∃ n : ℤ, v = n ∧ n % 2 = 1 ∧ 2 ^ 52 < n.natAbs ∧ n.natAbs < 2 ^ 53

/-- The integer that a number is rounded to: the greatest one that is not above the number and one half, or the next
one if the number slips. -/
structure RoundsTo (v : ℚ) (n : ℤ) : Prop where
  closest : ¬ Slips v → n = ⌊v + 1 / 2⌋
  next : Slips v → n = ⌊v + 1 / 2⌋ + 1

theorem floor_int_add_half (n : ℤ) : ⌊(n : ℚ) + 1 / 2⌋ = n := by
  rw [Int.floor_intCast_add]
  norm_num

theorem not_slips_of_inside {v : ℚ} (atLeast : -1 / 2 ≤ v) (below : v < 0) : ¬ Slips v := by
  rintro (rfl | ⟨n, rfl, _, low, _⟩)
  · norm_num at below
  · have least : ((-1 : ℤ) : ℚ) < n := by
      push_cast
      linarith
    have above : -1 < n := by exact_mod_cast least
    have negative : n < 0 := by exact_mod_cast below
    omega

/-- **The sign of the integer** is that of the number, unless the number is rounded to a negative zero. -/
theorem RoundsTo.neg_iff {v : ℚ} {n : ℤ} (rounds : RoundsTo v n) (outside : v < -1 / 2 ∨ 0 < v) : n < 0 ↔ v < 0 := by
  rcases outside with below | above
  · refine iff_of_true ?_ (by linarith)
    by_cases slip : Slips v
    · have floor := rounds.next slip
      rcases slip with rfl | ⟨m, rfl, _, low, _⟩
      · norm_num at below
      · have negative : ((m : ℤ) : ℚ) < (0 : ℤ) := by
          push_cast
          linarith
        rw [floor_int_add_half] at floor
        have less : m < 0 := by exact_mod_cast negative
        omega
    · rw [rounds.closest slip, Int.floor_lt]
      push_cast
      linarith
  · refine iff_of_false ?_ above.not_gt
    have nonnegative : 0 ≤ ⌊v + 1 / 2⌋ := Int.floor_nonneg.mpr (by linarith)
    by_cases slip : Slips v
    · have floor := rounds.next slip
      omega
    · have floor := rounds.closest slip
      omega

namespace Dyadic

variable {d d' s : Dyadic}

/-- **One half does not count** where numbers are one apart or more, unless the mantissa is odd. -/
theorem holds_of_close (canonical : d.Canonical) (whole : 0 ≤ d.exponent) {v : ℚ} (close : |v - d.size| ≤ 1 / 2)
    (even : d.exponent = 0 → d.mantissa % 2 = 0 ∧ (d.mantissa = 2 ^ 52 → d.size ≤ v)) :
    (RoundingInterval.of d).Holds v := by
  have full : 2 ^ 52 ≤ d.mantissa := by
    have full := canonical.full
    omega
  have fullSize : (2 : ℚ) ^ 52 ≤ d.mantissa := by exact_mod_cast full
  have unit : (0 : ℚ) < 2 ^ d.exponent := by positivity
  have quotient : d.size / 2 ^ d.exponent = d.mantissa := mul_div_cancel_right₀ _ unit.ne'
  have atLeast : (d.mantissa : ℚ) ≤ d.size := by
    unfold size
    exact le_mul_of_one_le_right (by positivity) (one_le_zpow₀ (by norm_num) whole)
  obtain ⟨low, high⟩ := abs_le.mp close
  have nonnegative : 0 ≤ v := by linarith
  rcases eq_or_lt_of_le whole with one | more
  · obtain ⟨evenMantissa, least⟩ := even one.symm
    have size : d.size = d.mantissa := by rw [Dyadic.size, ← one, zpow_zero, mul_one]
    have units : v / 2 ^ d.exponent = v := by rw [← one, zpow_zero, div_one]
    refine holds_of_nearest nonnegative ?_ (.inr ?_)
    · rw [units]
      exact ⟨by linarith, by linarith, by omega⟩
    · rw [units]
      by_cases power : d.mantissa = 2 ^ 52
      · linarith [least power]
      · have next : ((2 ^ 52 + 1 : ℕ) : ℚ) ≤ d.mantissa := by exact_mod_cast (by omega : 2 ^ 52 + 1 ≤ d.mantissa)
        push_cast at next
        linarith
  · have two : (2 : ℚ) ≤ 2 ^ d.exponent := by
      calc (2 : ℚ) = 2 ^ (1 : ℤ) := (zpow_one _).symm
        _ ≤ 2 ^ d.exponent := zpow_le_zpow_right₀ (by norm_num) (by omega)
    have closer : |v / 2 ^ d.exponent - d.mantissa| ≤ 1 / 4 := by
      rw [← quotient, ← sub_div, abs_div, abs_of_pos unit, div_le_iff₀ unit]
      linarith
    obtain ⟨low, high⟩ := abs_le.mp closer
    exact holds_of_nearest nonnegative ⟨by linarith, by linarith, fun _ => ⟨by linarith, by linarith⟩⟩
      (.inr (by linarith))

/-- One half in units of a number with a fraction. -/
theorem exists_half (fraction : d.exponent < 0) :
    ∃ k : ℕ, d.exponent = -(k + 1 : ℤ) ∧ ((2 ^ k : ℕ) : ℚ) * 2 ^ d.exponent = 1 / 2 := by
  obtain ⟨k, unit⟩ : ∃ k : ℕ, d.exponent = -(k + 1 : ℤ) := ⟨(-d.exponent - 1).toNat, by omega⟩
  have exponent : (k : ℤ) + -(k + 1) = -1 := by ring
  refine ⟨k, unit, ?_⟩
  rw [unit, Nat.cast_pow, Nat.cast_ofNat, ← zpow_natCast, ← zpow_add₀ (by norm_num), exponent]
  norm_num

section Fraction

variable (canonical : d.Canonical)

include canonical

/-- Below one half, one half more does not reach one, except for the greatest number. -/
theorem exists_below_one (small : d.exponent < -53) (apart : d.size ≠ 1 / 2 - 1 / 2 ^ 54) :
    ∃ c : Dyadic, c.Canonical ∧ d.size + 1 / 2 ≤ c.size ∧ c.size < 1 := by
  obtain ⟨c, _, canonicalBelow, size, _⟩ :=
    exists_canonical false (m := 2 ^ 53 - 1) (e := -53) (by norm_num) (by norm_num)
  norm_num at size
  refine ⟨c, canonicalBelow, ?_, by rw [size]; norm_num⟩
  rw [size]
  rcases lt_or_ge d.exponent (-54) with smaller | last
  · have quarter := size_lt canonical (e := -55) (by omega)
    norm_num at quarter ⊢
    linarith
  · have exponent : d.exponent = -54 := by omega
    have notLast : d.mantissa ≠ 2 ^ 53 - 1 := by
      intro same
      rw [Dyadic.size, same, exponent] at apart
      norm_num at apart
    have bound := canonical.below
    have mantissa : (d.mantissa : ℚ) + 2 ≤ 2 ^ 53 := by exact_mod_cast (by omega : d.mantissa + 2 ≤ 2 ^ 53)
    rw [Dyadic.size, exponent]
    norm_num
    linarith

/-- With one digit more the sum has just passed an integer, so the next one is far. -/
theorem exists_carried {k : ℕ} (unit : d.exponent = -(k + 1 : ℤ)) (fine : k ≤ 52)
    (half : ((2 ^ k : ℕ) : ℚ) * 2 ^ d.exponent = 1 / 2) (carry : 2 ^ 53 ≤ d.mantissa + 2 ^ k) {n : ℕ}
    (below : ((d.mantissa + 2 ^ k : ℕ) : ℚ) * 2 ^ d.exponent < n + 1) :
    ∃ c : Dyadic, c.Canonical ∧ ((d.mantissa + 2 ^ k : ℕ) : ℚ) * 2 ^ d.exponent ≤ c.size ∧ c.size < n + 1 := by
  have bound := canonical.below
  have power : 2 ^ k ≤ 2 ^ 52 := Nat.pow_le_pow_right (by norm_num) fine
  obtain ⟨h, twice⟩ : ∃ h, h = (d.mantissa + 2 ^ k + 1) / 2 := ⟨_, rfl⟩
  obtain ⟨c, _, canonicalSum, size, _⟩ :=
    exists_canonical false (m := h) (e := d.exponent + 1) (by omega) (by linarith [canonical.least])
  have units : c.size = ((2 * h : ℕ) : ℚ) * 2 ^ d.exponent := by
    rw [size, zpow_add_one₀ (by norm_num)]
    push_cast
    ring
  have passed : ((2 ^ 53 : ℕ) : ℚ) * 2 ^ d.exponent = (2 ^ (52 - k) : ℕ) := by
    have exponent : ((52 - k : ℕ) : ℤ) = (53 : ℕ) + d.exponent := by omega
    rw [Nat.cast_pow, Nat.cast_pow, Nat.cast_ofNat, ← zpow_natCast 2 (52 - k), exponent, zpow_add₀ (by norm_num),
      zpow_natCast]
  have reached : ((2 ^ 53 : ℕ) : ℚ) * 2 ^ d.exponent ≤ ((d.mantissa + 2 ^ k : ℕ) : ℚ) * 2 ^ d.exponent := by gcongr
  have integer : ((2 ^ (52 - k) : ℕ) : ℚ) ≤ n := by
    have less : ((2 ^ (52 - k) : ℕ) : ℚ) < n + 1 := by linarith
    exact_mod_cast Nat.lt_succ_iff.mp (by exact_mod_cast less)
  have low : ((d.mantissa + 2 ^ k : ℕ) : ℚ) * 2 ^ d.exponent ≤ c.size := by
    rw [units]
    gcongr
    omega
  have high : c.size ≤ ((2 ^ 53 + 2 ^ k : ℕ) : ℚ) * 2 ^ d.exponent := by
    rw [units]
    gcongr
    omega
  rw [Nat.cast_add, add_mul, half, passed] at high
  exact ⟨c, canonicalSum, low, by linarith⟩

variable (fraction : d.exponent < 0)

include fraction

/-- With a fraction, one half more does not reach the next integer, and a number of the format is in between. -/
theorem exists_between (apart : d.size ≠ 1 / 2 - 1 / 2 ^ 54) {n : ℕ} (below : d.size + 1 / 2 < n + 1) :
    ∃ c : Dyadic, c.Canonical ∧ d.size + 1 / 2 ≤ c.size ∧ c.size < n + 1 := by
  rcases lt_or_ge d.exponent (-53) with small | fine
  · obtain ⟨c, canonicalBelow, above, less⟩ := exists_below_one canonical small apart
    exact ⟨c, canonicalBelow, above, less.trans_le (le_add_of_nonneg_left (Nat.cast_nonneg n))⟩
  · obtain ⟨k, unit, half⟩ := exists_half fraction
    have sum : d.size + 1 / 2 = ((d.mantissa + 2 ^ k : ℕ) : ℚ) * 2 ^ d.exponent := by
      rw [Nat.cast_add, add_mul, half, Dyadic.size]
    rw [sum] at below ⊢
    rcases lt_or_ge (d.mantissa + 2 ^ k) (2 ^ 53) with exact | carry
    · obtain ⟨c, _, canonicalSum, size, _⟩ := exists_canonical false exact canonical.least
      exact ⟨c, canonicalSum, size.ge, size ▸ below⟩
    · exact exists_carried canonical unit (by omega) half carry below

/-- **With a fraction, the sum stays between the same integers.** -/
theorem floor_of_fraction (canonicalSum : s.Canonical) (holds : (RoundingInterval.of s).Holds (d.size + 1 / 2))
    (apart : d.size ≠ 1 / 2 - 1 / 2 ^ 54) : ⌊s.size⌋ = ⌊d.size + 1 / 2⌋ := by
  have nonnegative : 0 ≤ d.size + 1 / 2 := by linarith [d.size_nonneg]
  obtain ⟨n, floor⟩ := Int.eq_ofNat_of_zero_le (Int.floor_nonneg.mpr nonnegative)
  obtain ⟨atLeast, below⟩ := Int.floor_eq_iff.mp floor
  rw [Int.cast_natCast] at atLeast below
  have size := size_lt canonical (e := -1) (by omega)
  have few : n < 2 ^ 53 := by
    have less : (n : ℚ) < 2 ^ 53 := by
      norm_num at size
      linarith
    exact_mod_cast less
  obtain ⟨low, _, canonicalLow, sizeLow, _⟩ := exists_canonical false (e := 0) few (by norm_num)
  rw [zpow_zero, mul_one] at sizeLow
  obtain ⟨high, canonicalHigh, aboveSum, belowNext⟩ := exists_between canonical fraction apart below
  have lower := le_size_of_holds canonicalSum canonicalLow holds (sizeLow ▸ atLeast)
  have upper := size_le_of_holds canonicalSum canonicalHigh holds aboveSum
  rw [floor, Int.floor_eq_iff, Int.cast_natCast]
  exact ⟨sizeLow ▸ lower, upper.trans_lt belowNext⟩

/-- With a fraction, one half less is exact. -/
theorem exists_difference (more : 1 / 2 < d.size) : ∃ c : Dyadic, c.Canonical ∧ c.size = d.size - 1 / 2 := by
  have fine : -53 ≤ d.exponent := by
    by_contra small
    have half := size_lt canonical (e := -54) (by omega)
    norm_num at half
    linarith
  obtain ⟨k, _, half⟩ := exists_half fraction
  have enough : 2 ^ k ≤ d.mantissa := by
    have unit : (0 : ℚ) < 2 ^ d.exponent := by positivity
    rw [← half, Dyadic.size, mul_lt_mul_iff_left₀ unit] at more
    exact_mod_cast more.le
  obtain ⟨c, _, canonicalDifference, size, _⟩ :=
    exists_canonical false ((Nat.sub_le d.mantissa (2 ^ k)).trans_lt canonical.below) canonical.least
  refine ⟨c, canonicalDifference, ?_⟩
  rw [size, Nat.cast_sub enough, sub_mul, half, Dyadic.size]

end Fraction

/-- **The parts of the numbers that slip.** -/
theorem slips_iff (canonical : d.Canonical) : Slips d.value ↔
    d.negative = false ∧ d.mantissa = 2 ^ 53 - 1 ∧ d.exponent = -54 ∨ d.exponent = 0 ∧ d.mantissa % 2 = 1 := by
  constructor
  · rintro (last | ⟨n, whole, odd, low, high⟩)
    · have canonicalLast : (⟨false, 2 ^ 53 - 1, -54⟩ : Dyadic).Canonical :=
        ⟨by norm_num, by norm_num, .inr (by norm_num)⟩
      have size : d.size = (⟨false, 2 ^ 53 - 1, -54⟩ : Dyadic).size := by
        rw [← d.abs_value, last]
        norm_num [Dyadic.size]
      have positive : d.negative = false := positive_of_value_pos (by rw [last]; norm_num)
      exact .inl ⟨positive, eq_of_size canonical canonicalLast size⟩
    · have canonicalOdd : (⟨false, n.natAbs, 0⟩ : Dyadic).Canonical :=
        ⟨by dsimp only; omega, by norm_num, .inr (by dsimp only; omega)⟩
      have size : d.size = (⟨false, n.natAbs, 0⟩ : Dyadic).size := by
        rw [← d.abs_value, whole, Dyadic.size, zpow_zero, mul_one, Nat.cast_natAbs, Int.cast_abs]
      obtain ⟨mantissa, exponent⟩ := eq_of_size canonical canonicalOdd size
      dsimp only at mantissa exponent
      exact .inr ⟨exponent, by omega⟩
  · rintro (⟨positive, mantissa, exponent⟩ | ⟨exponent, odd⟩)
    · rw [value_of_positive positive, Dyadic.size, mantissa, exponent]
      exact .inl (by norm_num)
    · obtain ⟨below, _, full⟩ := canonical
      obtain ⟨n, whole⟩ := exists_int (d := d) exponent.ge
      have size : n.natAbs = d.mantissa := by
        have abs := d.abs_value
        rw [whole, Dyadic.size, exponent, zpow_zero, mul_one, ← Int.cast_abs, ← Nat.cast_natAbs] at abs
        exact_mod_cast abs
      exact .inr ⟨n, whole, by omega, by omega, by omega⟩

/-- Next to an odd integer where numbers are one apart, there are even ones. -/
theorem exists_next (canonical : d.Canonical) (one : d.exponent = 0) (odd : d.mantissa % 2 = 1) :
    ∃ c : Dyadic, c.Canonical ∧ 0 ≤ c.exponent ∧ c.size = d.size + 1 ∧
      (c.exponent = 0 → c.mantissa % 2 = 0 ∧ c.mantissa ≠ 2 ^ 52) := by
  obtain ⟨below, _, full⟩ := canonical
  have size : d.size = d.mantissa := by rw [Dyadic.size, one, zpow_zero, mul_one]
  by_cases last : d.mantissa = 2 ^ 53 - 1
  · refine ⟨⟨false, 2 ^ 52, 1⟩, ⟨by norm_num, by norm_num, .inr le_rfl⟩, by norm_num, ?_, by norm_num⟩
    rw [size, last]
    norm_num [Dyadic.size]
  · refine ⟨⟨false, d.mantissa + 1, 0⟩, ⟨by dsimp only; omega, by norm_num, .inr (by dsimp only; omega)⟩, le_rfl, ?_,
      fun _ => by dsimp only; omega⟩
    rw [size, Dyadic.size, zpow_zero, mul_one, Nat.cast_succ]

theorem exists_previous (canonical : d.Canonical) (one : d.exponent = 0) (odd : d.mantissa % 2 = 1) :
    ∃ c : Dyadic, c.Canonical ∧ c.exponent = 0 ∧ c.size = d.size - 1 ∧ c.mantissa % 2 = 0 := by
  obtain ⟨below, _, full⟩ := canonical
  have size : d.size = d.mantissa := by rw [Dyadic.size, one, zpow_zero, mul_one]
  refine ⟨⟨false, d.mantissa - 1, 0⟩, ⟨by dsimp only; omega, by norm_num, .inr (by dsimp only; omega)⟩, rfl, ?_,
    by dsimp only; omega⟩
  rw [size, Dyadic.size, zpow_zero, mul_one, Nat.cast_pred (by omega)]

section Sum

variable (canonical : d.Canonical) (canonicalSum : s.Canonical)

include canonical canonicalSum

/-- Where numbers are one apart or more and the mantissa is not odd, one half does not count. -/
theorem size_of_close {v : ℚ} (holds : (RoundingInterval.of s).Holds v) (whole : 0 ≤ d.exponent)
    (close : |v - d.size| ≤ 1 / 2)
    (even : d.exponent = 0 → d.mantissa % 2 = 0 ∧ (d.mantissa = 2 ^ 52 → d.size ≤ v)) : s.size = d.size := by
  obtain ⟨mantissa, exponent⟩ := eq_of_holds canonicalSum canonical holds (holds_of_close canonical whole close even)
  rw [Dyadic.size, mantissa, exponent, Dyadic.size]

omit canonical in
/-- The greatest number below one half goes up to one. -/
theorem size_of_last (mantissa : d.mantissa = 2 ^ 53 - 1) (exponent : d.exponent = -54)
    (holds : (RoundingInterval.of s).Holds (d.size + 1 / 2)) : s.size = 1 := by
  have units : (d.size + 1 / 2) / 2 ^ (-53 : ℤ) = 2 ^ 53 - 1 / 2 := by
    rw [Dyadic.size, mantissa, exponent]
    norm_num
  have carried : (RoundingInterval.of ⟨false, 2 ^ 52, -53 + 1⟩).Holds (d.size + 1 / 2) := by
    refine holds_of_carry (by linarith [d.size_nonneg]) ?_ (by rw [units]; norm_num)
    rw [units]
    exact ⟨by norm_num, by norm_num, by norm_num⟩
  obtain ⟨same, unit⟩ :=
    eq_of_holds canonicalSum ⟨by norm_num, by norm_num, .inr le_rfl⟩ holds carried
  rw [Dyadic.size, same, unit]
  norm_num

/-- **One half more**, for a number that is not negative. -/
theorem roundsTo_of_more (positive : d.negative = false) (holds : (RoundingInterval.of s).Holds (d.size + 1 / 2)) :
    RoundsTo d.value ⌊s.size⌋ := by
  have slips := slips_iff canonical
  have value := value_of_positive positive
  rw [value] at slips ⊢
  rcases lt_or_ge d.exponent 0 with fraction | whole
  · refine ⟨fun noSlip => ?_, fun slip => ?_⟩
    · exact floor_of_fraction canonical fraction canonicalSum holds fun last => noSlip (.inl last)
    · rcases slips.mp slip with ⟨_, mantissa, exponent⟩ | ⟨exponent, _⟩
      · rw [size_of_last canonicalSum mantissa exponent holds, Dyadic.size, mantissa, exponent]
        norm_num
      · omega
  · obtain ⟨n, integer⟩ := exists_int whole
    rw [value] at integer
    have sum : ⌊d.size + 1 / 2⌋ = n := by rw [integer, floor_int_add_half]
    refine ⟨fun noSlip => ?_, fun slip => ?_⟩
    · have even : d.exponent = 0 → d.mantissa % 2 = 0 ∧ (d.mantissa = 2 ^ 52 → d.size ≤ d.size + 1 / 2) := by
        refine fun one => ⟨?_, fun _ => by linarith⟩
        rw [slips] at noSlip
        omega
      rw [size_of_close canonical canonicalSum holds whole (by norm_num) even, sum, integer, Int.floor_intCast]
    · obtain ⟨one, odd⟩ : d.exponent = 0 ∧ d.mantissa % 2 = 1 := by
        rw [slips] at slip
        omega
      obtain ⟨c, canonicalNext, wholeNext, next, even⟩ := exists_next canonical one odd
      have close : |d.size + 1 / 2 - c.size| ≤ 1 / 2 := by
        rw [next]
        norm_num
      have size := size_of_close canonicalNext canonicalSum holds wholeNext close
        fun one => ⟨(even one).1, fun power => absurd power (even one).2⟩
      rw [size, next, sum, integer]
      exact_mod_cast Int.floor_intCast (n + 1)

/-- **One half less**, for a number below minus one half. -/
theorem roundsTo_of_less (negative : d.negative = true) (more : 1 / 2 < d.size)
    (holds : (RoundingInterval.of s).Holds (d.size - 1 / 2)) : RoundsTo d.value ⌊-s.size⌋ := by
  have slips := slips_iff canonical
  have value := value_of_negative negative
  rw [value, negative] at slips
  rw [value]
  have floor_of_exact : ∀ c : Dyadic, c.Canonical → c.size = d.size - 1 / 2 → ⌊-s.size⌋ = ⌊-d.size + 1 / 2⌋ := by
    intro c canonicalDifference difference
    rw [← difference] at holds
    rw [size_eq_of_holds canonicalSum canonicalDifference holds, difference]
    congr 1
    ring
  rcases lt_or_ge d.exponent 0 with fraction | whole
  · obtain ⟨c, canonicalDifference, difference⟩ := exists_difference canonical fraction more
    refine ⟨fun _ => floor_of_exact c canonicalDifference difference, fun slip => ?_⟩
    rcases slips.mp slip with ⟨positive, _⟩ | ⟨unit, _⟩
    · exact absurd positive (by decide)
    · omega
  · obtain ⟨n, integer⟩ := exists_int whole
    rw [value] at integer
    have sum : ⌊-d.size + 1 / 2⌋ = n := by rw [integer, floor_int_add_half]
    refine ⟨fun noSlip => ?_, fun slip => ?_⟩
    · by_cases power : d.exponent = 0 ∧ d.mantissa = 2 ^ 52
      · -- Below this power of two numbers are one half apart.
        refine floor_of_exact ⟨false, 2 ^ 53 - 1, -1⟩ ⟨by norm_num, by norm_num, .inr (by norm_num)⟩ ?_
        rw [Dyadic.size, Dyadic.size, power.1, power.2]
        norm_num
      · have even : d.exponent = 0 → d.mantissa % 2 = 0 ∧ (d.mantissa = 2 ^ 52 → d.size ≤ d.size - 1 / 2) := by
          refine fun one => ⟨?_, fun least => absurd ⟨one, least⟩ power⟩
          rw [slips] at noSlip
          omega
        rw [size_of_close canonical canonicalSum holds whole (by norm_num) even, sum, integer, Int.floor_intCast]
    · obtain ⟨one, odd⟩ : d.exponent = 0 ∧ d.mantissa % 2 = 1 := by
        rw [slips] at slip
        omega
      obtain ⟨c, canonicalPrevious, unit, previous, even⟩ := exists_previous canonical one odd
      have close : |d.size - 1 / 2 - c.size| ≤ 1 / 2 := by
        rw [previous]
        norm_num
      have size := size_of_close canonicalPrevious canonicalSum holds unit.ge close
        fun _ => ⟨even, fun _ => by linarith⟩
      have result : -s.size = ((n + 1 : ℤ) : ℚ) := by
        rw [size, previous, Int.cast_add, ← integer]
        push_cast
        ring
      rw [sum, result, Int.floor_intCast]

/-- **The sum with one half** has the integer as its floor that the number is rounded to. -/
theorem roundsTo_of_sum (outside : d.value < -1 / 2 ∨ 0 < d.value) (sign : s.negative = decide (d.value + 1 / 2 < 0))
    (holds : (RoundingInterval.of s).Holds |d.value + 1 / 2|) : RoundsTo d.value ⌊s.value⌋ := by
  rcases outside with below | above
  · have less : d.value + 1 / 2 < 0 := by linarith
    have negative := negative_of_value_neg (d := d) (by linarith)
    have value := value_of_negative negative
    rw [decide_eq_true less] at sign
    rw [abs_of_neg less, value, neg_add, neg_neg, ← sub_eq_add_neg] at holds
    rw [value_of_negative sign]
    exact roundsTo_of_less canonical canonicalSum negative (by linarith) holds
  · have greater : ¬ d.value + 1 / 2 < 0 := by linarith
    have positive := positive_of_value_pos above
    rw [decide_eq_false greater] at sign
    rw [abs_of_nonneg (not_lt.mp greater), value_of_positive positive] at holds
    rw [value_of_positive sign]
    exact roundsTo_of_more canonical canonicalSum positive holds

end Sum

end Dyadic

/-! ### Rounding -/

theorem parts_minusHalf : Dyadic.ofFloat? (-0.5) = some ⟨true, 2 ^ 52, -53⟩ := by rfl

theorem parts_zero : Dyadic.ofFloat? 0 = some ⟨false, 0, -1074⟩ := by rfl

theorem parts_half : Dyadic.ofFloat? 0.5 = some ⟨false, 2 ^ 52, -53⟩ := by rfl

theorem value_minusHalf : (⟨true, 2 ^ 52, -53⟩ : Dyadic).value = -1 / 2 := by norm_num [Dyadic.value, Dyadic.size]

theorem value_zero : (⟨false, 0, -1074⟩ : Dyadic).value = 0 := by norm_num [Dyadic.value, Dyadic.size]

theorem value_half : (⟨false, 2 ^ 52, -53⟩ : Dyadic).value = 1 / 2 := by norm_num [Dyadic.value, Dyadic.size]

section Round

variable {x : Float} {d : Dyadic} (parts : Dyadic.ofFloat? x = some d)

include parts

theorem isNaN_of_parts : x.isNaN = false := by
  show x.toModel.unpack.isNaN = false
  rw [unpack_of_parts parts]
  unfold Dyadic.unpacked
  split <;> rfl

theorem isInf_of_parts : x.isInf = false := by
  show x.toModel.unpack.isInf = false
  rw [unpack_of_parts parts]
  unfold Dyadic.unpacked
  split <;> rfl

/-- There are two zeros. -/
theorem eq_zero_of_parts (none : d.mantissa = 0) : x = 0.0 ∨ x = -0.0 := by
  rw [← packed_of_parts parts, Dyadic.eq_of_zero (canonical_of_parts parts).1 none]
  cases d.negative
  · exact .inl (by decide)
  · exact .inr (by decide)

/-- The sum with one half is finite. -/
theorem exponent_of_sum {s : Dyadic} (canonicalSum : s.Canonical)
    (holds : (RoundingInterval.of s).Holds |d.value + 1 / 2|) : s.exponent ≤ 971 := by
  obtain ⟨canonical, greatest⟩ := canonical_of_parts parts
  have close : |(|d.value + 1 / 2| - d.size)| ≤ 1 / 2 := by
    have near := abs_abs_sub_abs_le (d.value + 1 / 2) d.value
    rw [d.abs_value, add_sub_cancel_left] at near
    exact near.trans (by norm_num)
  rcases lt_or_ge 0 d.exponent with apart | near
  · have same := Dyadic.holds_of_close canonical apart.le close (by omega)
    rw [(Dyadic.eq_of_holds canonicalSum canonical holds same).2]
    exact greatest
  · have canonicalBound : (⟨false, 2 ^ 52, 2⟩ : Dyadic).Canonical := ⟨by norm_num, by norm_num, .inr le_rfl⟩
    have size := Dyadic.size_lt canonical near
    have bound : |d.value + 1 / 2| ≤ (⟨false, 2 ^ 52, 2⟩ : Dyadic).size := by
      norm_num [Dyadic.size] at size close ⊢
      linarith [(abs_le.mp close).2]
    have sum := Dyadic.size_le_of_holds canonicalSum canonicalBound holds bound
    by_contra above
    have before : (⟨false, 2 ^ 52, 2⟩ : Dyadic).Before s := .inl (by dsimp only; omega)
    exact absurd ((Dyadic.before_iff canonicalBound canonicalSum).mp before) sum.not_gt

/-- A negative number from minus one half to zero is rounded to a negative zero. -/
theorem round_of_inside (atLeast : -1 / 2 ≤ d.value) (below : d.value < 0) : round x = -0.0 := by
  have low : -0.5 ≤ x := by rwa [le_iff_of_parts parts_minusHalf parts, value_minusHalf]
  have high : x < 0 := by rwa [lt_iff_of_parts parts parts_zero, value_zero]
  unfold round
  rw [isNaN_of_parts parts, isInf_of_parts parts, decide_eq_true low, decide_eq_true high]
  rfl

/-- A number that is not rounded to zero as a negative one gets one half more, and the floor is taken. -/
theorem round_of_outside (positive : 0 < d.mantissa) (outside : d.value < -1 / 2 ∨ 0 < d.value) :
    round x = floor (x + 0.5) := by
  have notNegative : (decide (-0.5 ≤ x) && decide (x < 0)) = false := by
    rw [Bool.and_eq_false_iff, decide_eq_false_iff_not, decide_eq_false_iff_not, le_iff_of_parts parts_minusHalf parts,
      lt_iff_of_parts parts parts_zero, value_minusHalf, value_zero, not_le, not_lt]
    exact outside.imp_right le_of_lt
  have notZero : isNegativeZero x = false := by
    unfold isNegativeZero
    rw [beq_zero_of_parts parts, beq_eq_false_iff_ne.mpr positive.ne', Bool.false_and]
  unfold round
  rw [isNaN_of_parts parts, isInf_of_parts parts, notNegative, notZero]
  rfl

/-- A number outside of the interval is rounded to an integer with its sign. -/
theorem exists_round_of_outside (positive : 0 < d.mantissa) (outside : d.value < -1 / 2 ∨ 0 < d.value) :
    ∃ r n, Dyadic.ofFloat? (round x) = some r ∧ r.negative = d.negative ∧ r.value = (n : ℤ) ∧ RoundsTo d.value n := by
  have canonical := (canonical_of_parts parts).1
  have nonzero : d.value + (⟨false, 2 ^ 52, -53⟩ : Dyadic).value ≠ 0 := by
    rw [value_half]
    rcases outside with below | above <;> linarith
  obtain ⟨s, signSum, canonicalSum, holds, finite⟩ := add_spec parts parts_half positive (by norm_num) nonzero
  rw [value_half] at signSum holds
  obtain ⟨r, partsFloor, signFloor, floor⟩ := floor_of_parts (finite (exponent_of_sum parts canonicalSum holds))
  have rounds := Dyadic.roundsTo_of_sum canonical canonicalSum outside signSum holds
  rw [round_of_outside parts positive outside]
  refine ⟨r, _, partsFloor, ?_, floor, rounds⟩
  rw [signFloor, Dyadic.negative_eq positive]
  simp only [rounds.neg_iff outside]

/-- A finite number is rounded to an integer with its sign, where zero has one too. -/
theorem exists_round :
    ∃ r n, Dyadic.ofFloat? (round x) = some r ∧ r.negative = d.negative ∧ r.value = (n : ℤ) ∧ RoundsTo d.value n := by
  rcases Nat.eq_zero_or_pos d.mantissa with none | positive
  · have value := Dyadic.value_of_zero none
    have stays : round x = x := by
      rcases eq_zero_of_parts parts none with rfl | rfl <;> decide
    have noSlip : ¬ Slips d.value := by
      rw [Dyadic.slips_iff (canonical_of_parts parts).1]
      omega
    have closest : ⌊d.value + 1 / 2⌋ = 0 := by
      rw [value]
      norm_num
    exact ⟨d, 0, by rw [stays, parts], rfl, by rw [value, Int.cast_zero], fun _ => closest.symm,
      fun slip => absurd slip noSlip⟩
  by_cases inside : -1 / 2 ≤ d.value ∧ d.value < 0
  · obtain ⟨atLeast, below⟩ := inside
    have closest : ⌊d.value + 1 / 2⌋ = 0 := by
      rw [Int.floor_eq_zero_iff]
      exact ⟨by linarith, by linarith⟩
    rw [round_of_inside parts atLeast below]
    exact ⟨⟨true, 0, -1074⟩, 0, by rfl, (Dyadic.negative_of_value_neg below).symm, Dyadic.value_of_zero rfl,
      fun _ => closest.symm, fun slip => absurd slip (not_slips_of_inside atLeast below)⟩
  · refine exists_round_of_outside parts positive ?_
    have nonzero : d.value ≠ 0 := by
      intro zero
      rw [← abs_eq_zero, d.abs_value] at zero
      exact (Dyadic.size_pos positive).ne' zero
    by_contra neither
    rw [not_or, not_lt, not_lt] at neither
    exact inside ⟨neither.1, lt_of_le_of_ne neither.2 nonzero⟩

/-- **Rounding.** A finite number is rounded to the greatest integer that is not above the number and one half, which is
the closest one and of two the greater, with the sign of the number. Only the numbers that slip go one further. So
integers stay as they are, except for those. -/
theorem round_of_parts :
    (∃ r, Dyadic.ofFloat? (round x) = some r ∧ r.negative = d.negative ∧
      (¬ Slips d.value → r.value = ⌊d.value + 1 / 2⌋) ∧ (Slips d.value → r.value = ⌊d.value + 1 / 2⌋ + 1)) ∧
    (¬ Slips d.value → (∃ n : ℤ, d.value = n) → round x = x) := by
  obtain ⟨r, n, partsRound, sign, value, rounds⟩ := exists_round parts
  refine ⟨⟨r, partsRound, sign, fun noSlip => ?_, fun slip => ?_⟩, fun noSlip ⟨m, whole⟩ => ?_⟩
  · rw [value, rounds.closest noSlip]
  · rw [value, rounds.next slip, Int.cast_add, Int.cast_one]
  · have same : r.value = d.value := by rw [value, rounds.closest noSlip, whole, floor_int_add_half]
    obtain rfl := Dyadic.ext_of_value (canonical_of_parts partsRound).1 (canonical_of_parts parts).1 sign same
    exact eq_of_parts partsRound parts

end Round

/-- Minus two and a half is rounded to minus two. -/
theorem round_minusTwoAndHalf :
    Dyadic.ofFloat? (-2.5) = some ⟨true, 5 * 2 ^ 50, -51⟩ ∧
      ∃ r, Dyadic.ofFloat? (round (-2.5)) = some r ∧ r.negative = true ∧ r.value = -2 := by
  have parts : Dyadic.ofFloat? (-2.5) = some ⟨true, 5 * 2 ^ 50, -51⟩ := by rfl
  have value : (⟨true, 5 * 2 ^ 50, -51⟩ : Dyadic).value = -5 / 2 := by norm_num [Dyadic.value, Dyadic.size]
  obtain ⟨⟨r, rounded, sign, closest, _⟩, _⟩ := round_of_parts parts
  have noSlip : ¬ Slips (⟨true, 5 * 2 ^ 50, -51⟩ : Dyadic).value := by
    rw [Dyadic.slips_iff (canonical_of_parts parts).1]
    norm_num
  have floor : ⌊(-5 / 2 + 1 / 2 : ℚ)⌋ = -2 := by norm_num
  refine ⟨parts, r, rounded, sign, ?_⟩
  rw [closest noSlip, value, floor]
  norm_num

/-- The greatest number below one half is rounded to one, and an odd integer with all digits to the next integer. -/
theorem round_goes_up :
    (∃ d r, Dyadic.ofFloat? (Float.ofBits 0x3fdfffffffffffff) = some d ∧
      Dyadic.ofFloat? (round (Float.ofBits 0x3fdfffffffffffff)) = some r ∧ r.value ≠ ⌊d.value + 1 / 2⌋) ∧
    ∃ d r, Dyadic.ofFloat? (Float.ofBits 0x4330000000000001) = some d ∧ d.value = (2 ^ 52 + 1 : ℤ) ∧
      Dyadic.ofFloat? (round (Float.ofBits 0x4330000000000001)) = some r ∧ r.value ≠ d.value := by
  have one : round (Float.ofBits 0x3fdfffffffffffff) = 1 := by decide
  have even : round (Float.ofBits 0x4330000000000001) = Float.ofBits 0x4330000000000002 := by decide
  rw [one, even]
  refine ⟨⟨⟨false, 2 ^ 53 - 1, -54⟩, ⟨false, 2 ^ 52, -52⟩, by rfl, by rfl, ?_⟩,
    ⟨false, 2 ^ 52 + 1, 0⟩, ⟨false, 2 ^ 52 + 2, 0⟩, by rfl, ?_, by rfl, ?_⟩
  all_goals norm_num [Dyadic.value, Dyadic.size]

end XPathAnnotator.Number
