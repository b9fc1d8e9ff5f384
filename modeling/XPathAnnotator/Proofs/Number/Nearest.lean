/-
**The nearest number.**

The logical model of floating-point numbers computes on mantissas with an accuracy, which tells where a value lies
between two neighbouring mantissas, and rounds to the nearer one, of two to the even one. So what it makes of a value
is the number whose rounding interval has the value, and the text of a decimal is read as the number that the decimal
rounds to.

* `Dyadic.unpacked`, `Dyadic.packed` — the parts of a number in the forms of the logical model;
* `Locates`, `Locates.shiftRight` — a mantissa with an accuracy, and what a shift makes of it;
* `roundWithAccuracy_spec` — **rounding is correct**: the value is in the rounding interval of the result;
* `ofNat_eq`, `div_eq` — whole numbers are exact, and quotients are rounded;
* `ofScientific_eq` — **a decimal in the rounding interval of a number is read as this number**;
* `toFloat_shortest`, `readsBack_of_parts` — so **every finite number reads back** from its shortest decimal.
-/

import Mathlib
import XPathAnnotator.Proofs.Number.Written

namespace XPathAnnotator.Number

open Float.Model
open Float.Model.UnpackedFloat (Accuracy ExtendedMantissa Sign)

/-! ### Numbers in the forms of the logical model -/

namespace Dyadic

variable {d d' : Dyadic}

/-- The sign of a number. -/
def sign (d : Dyadic) : Sign := if d.negative then .negative else .positive

theorem sign_of_positive (positive : d.negative = false) : d.sign = .positive := by
  rw [sign, positive]
  rfl

/-- The parts of a number as the logical model has them. -/
def unpacked (d : Dyadic) : UnpackedFloat :=
  if none : d.mantissa = 0 then .zero d.sign else .finite d.sign d.mantissa d.exponent (Nat.pos_of_ne_zero none)

/-- The number of the format that has these parts. -/
def packed (d : Dyadic) : Float := .ofModel (.pack d.unpacked)

theorem unpacked_of_zero (none : d.mantissa = 0) : d.unpacked = .zero d.sign := dif_pos none

theorem unpacked_of_pos (positive : 0 < d.mantissa) : d.unpacked = .finite d.sign d.mantissa d.exponent positive :=
  dif_neg positive.ne'

end Dyadic

theorem toNat_packComponents (sign : Sign) (exponent : BitVec 11) (mantissa : BitVec 52) :
    (UnpackedFloat.packComponents Format.binary64 sign exponent mantissa).toNat =
      sign.toBitVec.toNat * 2 ^ 63 + (exponent.toNat * 2 ^ 52 + mantissa.toNat) := by
  have joined : (UnpackedFloat.packComponents Format.binary64 sign exponent mantissa).toNat =
      (sign.toBitVec.toNat <<< 11 ||| exponent.toNat) <<< 52 ||| mantissa.toNat := by
    unfold UnpackedFloat.packComponents
    rw [BitVec.toNat_append, BitVec.toNat_append]
  rw [joined, ← Nat.shiftLeft_add_eq_or_of_lt exponent.isLt, ← Nat.shiftLeft_add_eq_or_of_lt mantissa.isLt,
    Nat.shiftLeft_eq, Nat.shiftLeft_eq]
  ring

namespace Dyadic

variable {d d' : Dyadic}

/-- **The bits of a number** with parts of the format. -/
theorem toNat_packed (canonical : d.Canonical) (greatest : d.exponent ≤ 971) :
    d.packed.toBits.toNat =
      d.sign.toBitVec.toNat * 2 ^ 63 + ((d.exponent + 1074).toNat * 2 ^ 52 + d.mantissa) := by
  obtain ⟨below, least, full⟩ := canonical
  change (UnpackedFloat.pack Format.binary64 d.unpacked).toNat = _
  by_cases none : d.mantissa = 0
  · rw [unpacked_of_zero none]
    have lowest : d.exponent = -1074 := by omega
    change (UnpackedFloat.packComponents Format.binary64 d.sign 0 0).toNat = _
    rw [toNat_packComponents, none, lowest]
    rfl
  · rw [unpacked_of_pos (Nat.pos_of_ne_zero none)]
    have bias : (d.exponent + (Format.exponentBias Format.binary64 : Nat) + (52 : Nat)).toNat =
        (d.exponent + 1075).toNat := by
      have value : Format.exponentBias Format.binary64 = 1023 := rfl
      rw [value]
      congr 1
      push_cast
      ring
    have bits : Format.mantissaBits Format.binary64 = 53 := rfl
    unfold UnpackedFloat.pack
    dsimp only
    rw [bias, bits, if_neg (by omega)]
    by_cases normal : 2 ^ 52 ≤ d.mantissa
    · have length : d.mantissa.log2 = 52 := (Nat.log2_eq_iff none).mpr ⟨normal, below⟩
      rw [length, if_pos rfl, toNat_packComponents, BitVec.toNat_ofNat, BitVec.toNat_ofNat]
      omega
    · have length : d.mantissa.log2 < 52 := (Nat.log2_lt none).mpr (by omega)
      have lowest : (d.exponent + 1074).toNat = 0 := by omega
      have fraction : (BitVec.ofNat 52 d.mantissa).toNat = d.mantissa := Nat.mod_eq_of_lt (by omega)
      rw [if_neg (by omega), toNat_packComponents, fraction, lowest]
      rfl

theorem sign_cases (d : Dyadic) : d.sign.toBitVec.toNat ≤ 1 ∧ d.negative = (d.sign.toBitVec.toNat == 1) := by
  unfold sign
  cases d.negative <;> exact ⟨by decide, rfl⟩

/-- **The parts of a number made of parts** of the format are these. -/
theorem ofFloat?_packed (canonical : d.Canonical) (greatest : d.exponent ≤ 971) :
    ofFloat? d.packed = some d := by
  obtain ⟨bound, negative⟩ := d.sign_cases
  have bits := toNat_packed canonical greatest
  obtain ⟨below, least, full⟩ := canonical
  generalize d.sign.toBitVec.toNat = s at bound negative bits
  obtain ⟨_, m, e⟩ := d
  dsimp only at *
  rw [ofFloat?_eq, bits]
  have top : (s * 2 ^ 63 + ((e + 1074).toNat * 2 ^ 52 + m)) / 2 ^ 63 = s := by omega
  have noMaximum : (s * 2 ^ 63 + ((e + 1074).toNat * 2 ^ 52 + m)) / 2 ^ 52 % 2 ^ 11 ≠ 2047 := by omega
  rw [top, ← negative, if_neg noMaximum]
  by_cases normal : 2 ^ 52 ≤ m
  · have field : (s * 2 ^ 63 + ((e + 1074).toNat * 2 ^ 52 + m)) / 2 ^ 52 % 2 ^ 11 = (e + 1075).toNat := by omega
    have fraction : 2 ^ 52 + (s * 2 ^ 63 + ((e + 1074).toNat * 2 ^ 52 + m)) % 2 ^ 52 = m := by omega
    have exponent : ((e + 1075).toNat : ℤ) - 1075 = e := by omega
    rw [field, fraction, exponent, if_neg (by omega)]
  · have field : (s * 2 ^ 63 + ((e + 1074).toNat * 2 ^ 52 + m)) / 2 ^ 52 % 2 ^ 11 = 0 := by omega
    have fraction : (s * 2 ^ 63 + ((e + 1074).toNat * 2 ^ 52 + m)) % 2 ^ 52 = m := by omega
    have exponent : e = -1074 := by omega
    rw [field, fraction, exponent, if_pos rfl]

end Dyadic

/-! ### Unpacking -/

theorem finite_congr {sign sign' : Sign} {m m' : Nat} {e e' : Int} {positive : 0 < m} {positive' : 0 < m'}
    (signs : sign = sign') (mantissas : m = m') (exponents : e = e') :
    UnpackedFloat.finite sign m e positive = .finite sign' m' e' positive' := by
  subst signs mantissas exponents
  rfl

theorem sign_of_bits (bits : BitVec 64) :
    Sign.ofBitVec (@UnpackedFloat.unpackSign Format.binary64 bits) =
      if bits.toNat / 2 ^ 63 == 1 then .negative else .positive := by
  have bound := bits.isLt
  have field : (@UnpackedFloat.unpackSign Format.binary64 bits).toNat = bits.toNat / 2 ^ 63 := by
    change (bits.toNat >>> 63) % 2 ^ 1 = _
    rw [Nat.shiftRight_eq_div_pow]
    omega
  unfold Sign.ofBitVec
  by_cases clear : bits.toNat / 2 ^ 63 = 0
  · have none : @UnpackedFloat.unpackSign Format.binary64 bits = 0#1 :=
      BitVec.eq_of_toNat_eq (by rw [field, clear]; rfl)
    rw [if_pos none, clear]
    rfl
  · have set : bits.toNat / 2 ^ 63 = 1 := by omega
    rw [if_neg fun same => clear (field.symm.trans (congrArg BitVec.toNat same)), set]
    rfl

theorem exponent_of_bits (x : Float) :
    (@UnpackedFloat.unpackExponent Format.binary64 x.toModel.toBits.toBitVec).toNat =
      x.toBits.toNat / 2 ^ 52 % 2 ^ 11 := by
  change (x.toBits.toNat >>> 52) % 2 ^ 11 = _
  rw [Nat.shiftRight_eq_div_pow]

/-- **The parts of a number** are those that the logical model computes with. -/
theorem unpack_of_parts {x : Float} {d : Dyadic} (parts : Dyadic.ofFloat? x = some d) :
    x.toModel.unpack = d.unpacked := by
  have exponent := exponent_of_bits x
  have mantissa : (@UnpackedFloat.unpackMantissa Format.binary64 x.toModel.toBits.toBitVec).toNat =
      x.toBits.toNat % 2 ^ 52 := rfl
  have sign := sign_of_bits x.toModel.toBits.toBitVec
  change _ = if x.toBits.toNat / 2 ^ 63 == 1 then Sign.negative else .positive at sign
  rw [Dyadic.ofFloat?_eq] at parts
  unfold Float.Model.unpack UnpackedFloat.unpack
  dsimp only
  generalize @UnpackedFloat.unpackExponent Format.binary64 x.toModel.toBits.toBitVec = field at exponent
  rw [← exponent, ← mantissa] at parts
  rw [sign]
  split at parts
  case isTrue => exact absurd parts (by simp)
  case isFalse noMaximum =>
    have finite : field ≠ -1#_ := fun same => noMaximum (by rw [same]; rfl)
    rw [if_neg finite]
    split at parts
    case isTrue least =>
      have zero : field = 0#_ := BitVec.eq_of_toNat_eq least
      obtain rfl := Option.some.inj parts
      rw [if_pos zero]
      by_cases none : @UnpackedFloat.unpackMantissa Format.binary64 x.toModel.toBits.toBitVec = 0#_
      · rw [dif_pos none, Dyadic.unpacked_of_zero (congrArg BitVec.toNat none)]
        rfl
      · have positive := Nat.pos_of_ne_zero fun same => none (BitVec.eq_of_toNat_eq same)
        rw [dif_neg none, Dyadic.unpacked_of_pos positive]
        refine finite_congr rfl rfl ?_
        rw [zero]
        rfl
    case isFalse more =>
      have some : field ≠ 0#_ := fun same => more (by rw [same]; rfl)
      obtain rfl := Option.some.inj parts
      have joined : (1#1 ++ @UnpackedFloat.unpackMantissa Format.binary64 x.toModel.toBits.toBitVec).toNat =
          2 ^ 52 + (@UnpackedFloat.unpackMantissa Format.binary64 x.toModel.toBits.toBitVec).toNat := by
        rw [BitVec.toNat_append, ← Nat.shiftLeft_add_eq_or_of_lt (BitVec.isLt _)]
        rfl
      rw [if_neg some, Dyadic.unpacked_of_pos (Nat.add_pos_left (by norm_num) _)]
      exact finite_congr rfl joined rfl

/-- The numbers that have parts are the finite ones. -/
theorem isFinite_eq (x : Float) : x.isFinite = (Dyadic.ofFloat? x).isSome := by
  show x.toModel.unpack.isFinite = _
  cases parts : Dyadic.ofFloat? x with
  | some d =>
    rw [unpack_of_parts parts]
    unfold Dyadic.unpacked
    split <;> rfl
  | none =>
    have field : @UnpackedFloat.unpackExponent Format.binary64 x.toModel.toBits.toBitVec = -1#_ :=
      BitVec.eq_of_toNat_eq ((exponent_of_bits x).trans (maximum_of_no_parts parts))
    unfold Float.Model.unpack UnpackedFloat.unpack
    dsimp only
    rw [if_pos field]
    split <;> rfl

/-- The numbers that are equal to zero are those without digits. -/
theorem beq_zero_of_parts {x : Float} {d : Dyadic} (parts : Dyadic.ofFloat? x = some d) :
    (x == 0) = (d.mantissa == 0) := by
  have zero : (0 : Float).toModel.unpack = .zero .positive := unpack_of_parts (d := ⟨false, 0, -1074⟩) rfl
  show (x.toModel.unpack.compare (0 : Float).toModel.unpack == some .eq) = _
  rw [unpack_of_parts parts, zero]
  by_cases none : d.mantissa = 0
  · rw [Dyadic.unpacked_of_zero none, none]
    rfl
  · rw [Dyadic.unpacked_of_pos (Nat.pos_of_ne_zero none), beq_eq_false_iff_ne.mpr none]
    cases d.sign <;> rfl

/-- A number that is equal to zero has parts, and no digits. -/
theorem exists_parts_of_zero {x : Float} (zero : (x == 0) = true) :
    ∃ d, Dyadic.ofFloat? x = some d ∧ d.mantissa = 0 := by
  cases parts : Dyadic.ofFloat? x with
  | some d => exact ⟨d, rfl, beq_iff_eq.mp ((beq_zero_of_parts parts).symm.trans zero)⟩
  | none =>
    have infinite : x.toModel.unpack.isFinite = false := (isFinite_eq x).trans (by rw [parts]; rfl)
    have apart : (x == 0) = false := by
      show (x.toModel.unpack.compare (0 : Float).toModel.unpack == some .eq) = false
      rw [unpack_of_parts (x := 0) (d := ⟨false, 0, -1074⟩) rfl]
      generalize x.toModel.unpack = u at infinite
      cases u with
      | zero => cases infinite
      | finite => cases infinite
      | notANumber => rfl
      | infinity s => cases s <;> rfl
    rw [apart] at zero
    cases zero

/-! ### Values between mantissas -/

/-- Where a value lies above a mantissa, as a part of the distance to the next one. -/
def Offset : Accuracy → ℚ → Prop
  | .exact, r => r = 0
  | .inexact .lt, r => 0 < r ∧ r < 1 / 2
  | .inexact .eq, r => r = 1 / 2
  | .inexact .gt, r => 1 / 2 < r ∧ r < 1

/-- A mantissa with its residual bits locates a value. -/
def Locates (em : ExtendedMantissa) (u : ℚ) : Prop := Offset em.accuracy (u - em.mantissa)

/-- A mantissa that is nearest to a value, and of two the even one. -/
structure Nearest (n : Nat) (u : ℚ) : Prop where
  low : (n : ℚ) - 1 / 2 ≤ u
  high : u ≤ n + 1 / 2
  odd : n % 2 = 1 → (n : ℚ) - 1 / 2 < u ∧ u < n + 1 / 2

section Offset

variable {r : ℚ}

theorem Offset.inside {order : Ordering} (offset : Offset (.inexact order) r) : 0 < r ∧ r < 1 := by
  cases order with
  | lt => exact ⟨offset.1, by linarith [offset.2]⟩
  | eq =>
    have half : r = 1 / 2 := offset
    exact ⟨by linarith, by linarith⟩
  | gt => exact ⟨by linarith [offset.1], offset.2⟩

variable {m n : Nat} {round sticky : Bool}

/-- Half of an offset is below one half. -/
theorem Offset.half (offset : Offset (ExtendedMantissa.accuracy ⟨m, round, sticky⟩) r) :
    Offset (ExtendedMantissa.accuracy ⟨n, false, round || sticky⟩) (r / 2) := by
  cases round <;> cases sticky
  case false.false =>
    have none : r = 0 := offset
    show r / 2 = 0
    rw [none, zero_div]
  all_goals
    have inside := Offset.inside offset
    exact ⟨by linarith, by linarith⟩

/-- With the distance to the next mantissa, half of an offset is at least one half. -/
theorem Offset.half_add_one (offset : Offset (ExtendedMantissa.accuracy ⟨m, round, sticky⟩) r) :
    Offset (ExtendedMantissa.accuracy ⟨n, true, round || sticky⟩) ((r + 1) / 2) := by
  cases round <;> cases sticky
  case false.false =>
    have none : r = 0 := offset
    show (r + 1) / 2 = 1 / 2
    rw [none, zero_add]
  all_goals
    have inside := Offset.inside offset
    exact ⟨by linarith, by linarith⟩

end Offset

section Locates

variable {em : ExtendedMantissa} {u : ℚ}

theorem locates_ofMantissaAndAccuracy {m : Nat} {accuracy : Accuracy} (offset : Offset accuracy (u - m)) :
    Locates (.ofMantissaAndAccuracy m accuracy) u := by
  rcases accuracy with _ | _ | _ | _ <;> exact offset

theorem Locates.between (locates : Locates em u) : (em.mantissa : ℚ) ≤ u ∧ u < em.mantissa + 1 := by
  obtain ⟨m, round, sticky⟩ := em
  cases round <;> cases sticky
  case false.false =>
    have same : u - m = 0 := locates
    exact ⟨by linarith, by linarith⟩
  all_goals
    have inside : 0 < u - m ∧ u - m < 1 := Offset.inside locates
    exact ⟨by linarith, by linarith⟩

/-- **A shift by one place** keeps what is located, in units of twice the size. -/
theorem Locates.shiftRightOne (locates : Locates em u) : Locates em.shiftRightOne (u / 2) := by
  obtain ⟨m, round, sticky⟩ := em
  have halves : (m : ℚ) = 2 * (m / 2 : ℕ) + (m % 2 : ℕ) := by exact_mod_cast (Nat.div_add_mod m 2).symm
  unfold Locates ExtendedMantissa.shiftRightOne at *
  dsimp only at *
  rcases Nat.mod_two_eq_zero_or_one m with even | odd
  · have rest : u / 2 - (m / 2 : ℕ) = (u - m) / 2 := by
      rw [halves, even]
      push_cast
      ring
    rw [rest, even]
    exact locates.half
  · have rest : u / 2 - (m / 2 : ℕ) = (u - m + 1) / 2 := by
      rw [halves, odd]
      push_cast
      ring
    rw [rest, odd]
    exact locates.half_add_one

/-- **A shift** keeps what is located. -/
theorem Locates.shiftRight (locates : Locates em u) (k : Nat) : Locates (em >>> k) (u / 2 ^ k) := by
  induction k with
  | zero =>
    rw [pow_zero, div_one]
    exact locates
  | succ k ih =>
    rw [pow_succ, ← div_div]
    exact ih.shiftRightOne

theorem mantissa_shiftRight (em : ExtendedMantissa) (k : Nat) : (em >>> k).mantissa = em.mantissa / 2 ^ k := by
  induction k with
  | zero => exact (Nat.div_one _).symm
  | succ k ih =>
    rw [pow_succ, ← Nat.div_div_eq_div_mul, ← ih]
    rfl

/-- **Rounding goes to the nearest mantissa.** -/
theorem Locates.nearest (locates : Locates em u) : Nearest em.roundedMantissa u := by
  obtain ⟨m, round, sticky⟩ := em
  cases round <;> cases sticky
  case false.false =>
    have same : u - m = 0 := locates
    show Nearest m u
    exact ⟨by linarith, by linarith, fun _ => ⟨by linarith, by linarith⟩⟩
  case false.true =>
    have below : 0 < u - m ∧ u - m < 1 / 2 := locates
    show Nearest m u
    exact ⟨by linarith, by linarith, fun _ => ⟨by linarith, by linarith⟩⟩
  case true.false =>
    have half : u - m = 1 / 2 := locates
    show Nearest (m + m % 2) u
    rcases Nat.mod_two_eq_zero_or_one m with even | odd
    · rw [even]
      exact ⟨by push_cast; linarith, by push_cast; linarith, by omega⟩
    · rw [odd]
      exact ⟨by push_cast; linarith, by push_cast; linarith, by omega⟩
  case true.true =>
    have above : 1 / 2 < u - m ∧ u - m < 1 := locates
    show Nearest (m + 1) u
    exact ⟨by push_cast; linarith, by push_cast; linarith, fun _ => ⟨by push_cast; linarith, by push_cast; linarith⟩⟩

theorem roundedMantissa_between (em : ExtendedMantissa) :
    em.mantissa ≤ em.roundedMantissa ∧ em.roundedMantissa ≤ em.mantissa + 1 := by
  obtain ⟨m, round, sticky⟩ := em
  cases round <;> cases sticky
  case true.false =>
    show m ≤ m + m % 2 ∧ m + m % 2 ≤ m + 1
    omega
  case true.true => exact ⟨Nat.le_succ m, le_rfl⟩
  all_goals exact ⟨le_rfl, Nat.le_succ m⟩

end Locates

/-! ### Rounding -/

theorem targetExponent_eq (m : Nat) (e : Int) :
    Format.binary64.targetExponent (totalExponent m e) = max (m.log2 + e - 52) (-1074) := by
  have bits : Format.mantissaBits Format.binary64 = 53 := rfl
  have least : Format.minExponent Format.binary64 = -1074 := rfl
  unfold Format.targetExponent totalExponent
  rw [bits, least]
  congr 1
  push_cast
  ring

/-- A mantissa with all digits of the format, or with an exponent that has to grow. -/
def Fine (m : Nat) (e : Int) : Prop := 52 ≤ m.log2 ∨ e ≤ -1074

/-- **The first shift** leaves all digits of the format, unless the least exponent is reached. -/
theorem exists_shift {m : Nat} {e : Int} {accuracy : Accuracy} {v : ℚ} (fine : Fine m e)
    (offset : Offset accuracy (v / 2 ^ e - m)) :
    ∃ em t, UnpackedFloat.shiftToTargetExponent Format.binary64 m e accuracy = (em, t) ∧ -1074 ≤ t ∧
      em.mantissa < 2 ^ 53 ∧ (t = -1074 ∨ 2 ^ 52 ≤ em.mantissa) ∧ Locates em (v / 2 ^ t) := by
  obtain ⟨k, target⟩ : ∃ k : ℕ, max (m.log2 + e - 52) (-1074) = e + k :=
    ⟨(max (m.log2 + e - 52) (-1074) - e).toNat, by unfold Fine at fine; omega⟩
  have amount : (e + k - e).toNat = k := by omega
  have mantissa : (ExtendedMantissa.ofMantissaAndAccuracy m accuracy >>> k).mantissa = m / 2 ^ k := by
    rw [mantissa_shiftRight]
    rcases accuracy with _ | _ | _ | _ <;> rfl
  have shifted : UnpackedFloat.shiftToTargetExponent Format.binary64 m e accuracy =
      (ExtendedMantissa.ofMantissaAndAccuracy m accuracy >>> k, e + k) := by
    unfold UnpackedFloat.shiftToTargetExponent UnpackedFloat.shiftToExponent
    dsimp only
    rw [targetExponent_eq, target, amount]
  refine ⟨_, _, shifted, by omega, ?_, ?_, ?_⟩
  · rw [mantissa, Nat.div_lt_iff_lt_mul (by positivity), ← pow_add]
    exact Nat.lt_log2_self.trans_le (Nat.pow_le_pow_right (by norm_num) (by omega))
  · rw [mantissa, Nat.le_div_iff_mul_le (by positivity), ← pow_add]
    by_cases none : m = 0
    · subst none
      have unit : (0 : ℕ).log2 = 0 := by decide
      unfold Fine at fine
      omega
    · by_cases low : e + k = -1074
      · exact .inl low
      · exact .inr ((Nat.pow_le_pow_right (by norm_num) (by omega)).trans (Nat.log2_self_le none))
  · rw [zpow_add₀ (by norm_num), zpow_natCast, ← div_div]
    exact (locates_ofMantissaAndAccuracy offset).shiftRight k

/-- The second shift does nothing if rounding has not made the mantissa too long. -/
theorem shift_of_lt {n : Nat} {t : Int} (below : n < 2 ^ 53) (least : -1074 ≤ t) :
    UnpackedFloat.shiftToTargetExponent Format.binary64 n t .exact = (⟨n, false, false⟩, t) := by
  have length : n.log2 ≤ 52 := by
    by_cases none : n = 0
    · subst none
      decide
    · exact Nat.lt_succ_iff.mp ((Nat.log2_lt none).mpr below)
  have amount : (max (n.log2 + t - 52) (-1074) - t).toNat = 0 := by omega
  unfold UnpackedFloat.shiftToTargetExponent UnpackedFloat.shiftToExponent
  dsimp only
  rw [targetExponent_eq, amount, Nat.cast_zero, add_zero]
  rfl

/-- The second shift drops the last digit of a mantissa that has become too long. -/
theorem shift_of_overflow {t : Int} (least : -1074 ≤ t) :
    UnpackedFloat.shiftToTargetExponent Format.binary64 (2 ^ 53) t .exact = (⟨2 ^ 52, false, false⟩, t + 1) := by
  have amount : (max (((2 ^ 53 : ℕ).log2 : ℤ) + t - 52) (-1074) - t).toNat = 1 := by
    rw [Nat.log2_two_pow]
    omega
  unfold UnpackedFloat.shiftToTargetExponent UnpackedFloat.shiftToExponent
  dsimp only
  rw [targetExponent_eq, amount, Nat.cast_one]
  rfl

/-- The lower end of a rounding interval is below what has the mantissa as the nearest one. Below a power of two the
mantissas are nearer to each other. -/
theorem lowQuarters_le {d : Dyadic} {w : ℚ} (nonnegative : 0 ≤ w) (nearest : Nearest d.mantissa w)
    (above : d.exponent = -1074 ∨ 2 ^ 52 - 1 / 4 ≤ w) :
    (d.lowQuarters : ℚ) ≤ 4 * w ∧ (d.mantissa % 2 = 1 → (d.lowQuarters : ℚ) < 4 * w) := by
  have power : twoTo 52 = 2 ^ 52 := rfl
  unfold Dyadic.lowQuarters
  split
  case isTrue atPower =>
    simp only [Bool.and_eq_true, beq_iff_eq, decide_eq_true_eq, power] at atPower
    rw [atPower.1]
    refine ⟨?_, by norm_num⟩
    rcases above with least | above
    · omega
    · push_cast
      linarith
  case isFalse =>
    by_cases none : d.mantissa = 0
    · rw [none]
      exact ⟨by push_cast; linarith, by norm_num⟩
    · have cast : ((4 * d.mantissa - 2 : ℕ) : ℚ) = 4 * d.mantissa - 2 := by
        rw [Nat.cast_sub (by omega)]
        push_cast
        rfl
      rw [cast]
      exact ⟨by linarith [nearest.low], fun odd => by linarith [(nearest.odd odd).1]⟩

/-- What has a mantissa as the nearest one is in its rounding interval. -/
theorem holds_of_nearest {d : Dyadic} {v : ℚ} (nonnegative : 0 ≤ v) (nearest : Nearest d.mantissa (v / 2 ^ d.exponent))
    (above : d.exponent = -1074 ∨ 2 ^ 52 - 1 / 4 ≤ v / 2 ^ d.exponent) : (RoundingInterval.of d).Holds v := by
  have unit := d.quarter_pos
  have quarters : v = 4 * (v / 2 ^ d.exponent) * d.quarter := by
    rw [Dyadic.quarter, zpow_sub₀ (by norm_num)]
    field_simp
    norm_num
  obtain ⟨lowest, lowestOdd⟩ := lowQuarters_le (by positivity) nearest above
  obtain ⟨_, high, odd⟩ := nearest
  generalize v / 2 ^ d.exponent = w at *
  unfold RoundingInterval.Holds
  rw [Dyadic.value_low, Dyadic.value_high, Dyadic.closed_of, quarters]
  split
  case isTrue =>
    refine ⟨mul_le_mul_of_nonneg_right lowest unit.le, mul_le_mul_of_nonneg_right ?_ unit.le⟩
    push_cast
    linarith
  case isFalse notEven =>
    have isOdd : d.mantissa % 2 = 1 := by
      rw [beq_iff_eq] at notEven
      omega
    refine ⟨mul_lt_mul_of_pos_right (lowestOdd isOdd) unit, mul_lt_mul_of_pos_right ?_ unit⟩
    push_cast
    linarith [(odd isOdd).2]

/-- What is rounded up to a mantissa that is too long is in the rounding interval of the next power of two. -/
theorem holds_of_carry {negative : Bool} {t : Int} {v : ℚ} (nonnegative : 0 ≤ v)
    (nearest : Nearest (2 ^ 53) (v / 2 ^ t)) (below : v / 2 ^ t < 2 ^ 53) :
    (RoundingInterval.of ⟨negative, 2 ^ 52, t + 1⟩).Holds v := by
  have half : v / 2 ^ (t + 1) = v / 2 ^ t / 2 := by rw [zpow_add_one₀ (by norm_num), div_div]
  have near : (2 : ℚ) ^ 53 - 1 / 2 ≤ v / 2 ^ t := by exact_mod_cast nearest.low
  refine holds_of_nearest nonnegative ?_ (.inr ?_)
  · rw [half]
    exact ⟨by norm_num; linarith, by norm_num; linarith, by norm_num⟩
  · show 2 ^ 52 - 1 / 4 ≤ v / 2 ^ (t + 1)
    rw [half]
    linarith

/-- **Rounding is correct**: the result has parts of the format, and the value is in its rounding interval. -/
theorem roundWithAccuracy_spec (negative : Bool) {m : Nat} {e : Int} {accuracy : Accuracy} {v : ℚ} (fine : Fine m e)
    (offset : Offset accuracy (v / 2 ^ e - m)) :
    ∃ d : Dyadic, d.negative = negative ∧ d.Canonical ∧ (RoundingInterval.of d).Holds v ∧
      UnpackedFloat.roundWithAccuracy Format.binary64 d.sign m e accuracy = d.unpacked := by
  obtain ⟨em, t, shifted, least, below, full, locates⟩ := exists_shift fine offset
  obtain ⟨low, high⟩ := locates.between
  obtain ⟨atLeast, atMost⟩ := roundedMantissa_between em
  have nearest := locates.nearest
  have nonnegative : 0 ≤ v := by
    have quotient : 0 ≤ v / 2 ^ t := le_trans (by positivity) low
    have unit : (0 : ℚ) < 2 ^ t := by positivity
    exact (div_mul_cancel₀ v unit.ne') ▸ mul_nonneg quotient unit.le
  by_cases small : em.roundedMantissa < 2 ^ 53
  · refine ⟨⟨negative, em.roundedMantissa, t⟩, rfl, ⟨small, least, full.imp_right fun some => some.trans atLeast⟩,
      ?_, ?_⟩
    · refine holds_of_nearest nonnegative nearest (full.imp_right fun some => ?_)
      have whole : (2 : ℚ) ^ 52 ≤ em.mantissa := by exact_mod_cast some
      show 2 ^ 52 - 1 / 4 ≤ v / 2 ^ t
      linarith
    · unfold UnpackedFloat.roundWithAccuracy
      rw [shifted]
      dsimp only
      rw [shift_of_lt small least]
      rfl
  · -- Rounding up has made a power of two, so the last digit is zero and can be dropped.
    have power : em.roundedMantissa = 2 ^ 53 := by omega
    have all : em.mantissa = 2 ^ 53 - 1 := by omega
    rw [all] at high
    refine ⟨⟨negative, 2 ^ 52, t + 1⟩, rfl, ⟨by norm_num, by dsimp only; omega, .inr le_rfl⟩, ?_, ?_⟩
    · exact holds_of_carry nonnegative (power ▸ nearest) (high.trans_le (by norm_num))
    · unfold UnpackedFloat.roundWithAccuracy
      rw [shifted]
      dsimp only
      rw [power, shift_of_overflow least]
      rfl

/-- **What is in the rounding interval of a number is rounded to it.** -/
theorem roundWithAccuracy_eq {d : Dyadic} (canonical : d.Canonical) {m : Nat} {e : Int} {accuracy : Accuracy} {v : ℚ}
    (fine : Fine m e) (offset : Offset accuracy (v / 2 ^ e - m)) (holds : (RoundingInterval.of d).Holds v) :
    UnpackedFloat.roundWithAccuracy Format.binary64 d.sign m e accuracy = d.unpacked := by
  obtain ⟨d', negative, canonical', holds', rounded⟩ := roundWithAccuracy_spec d.negative fine offset
  obtain rfl := Dyadic.ext_of_holds negative canonical' canonical holds' holds
  exact rounded

/-- The size of a number is in its rounding interval. -/
theorem holds_size {d : Dyadic} (canonical : d.Canonical) : (RoundingInterval.of d).Holds d.size := by
  have quotient : d.size / 2 ^ d.exponent = d.mantissa := mul_div_cancel_right₀ _ (by positivity)
  have nonnegative : 0 ≤ d.size := by
    unfold Dyadic.size
    positivity
  refine holds_of_nearest nonnegative ?_ (canonical.full.imp_right fun some => ?_)
  · rw [quotient]
    exact ⟨by linarith, by linarith, fun _ => ⟨by linarith, by linarith⟩⟩
  · have whole : (2 : ℚ) ^ 52 ≤ d.mantissa := by exact_mod_cast some
    rw [quotient]
    linarith

/-- A mantissa that is too short gets all digits of the format. -/
theorem fine_shifted {m k : Nat} {e : Int} (positive : 0 < m)
    (amount : (e - max (m.log2 + e - 52) (-1074)).toNat = k) : Fine (m * 2 ^ k) (e - k) := by
  by_cases enough : 52 ≤ m.log2 + k
  · refine .inl ((Nat.le_log2 (by positivity)).mpr ?_)
    calc 2 ^ 52 ≤ 2 ^ (m.log2 + k) := Nat.pow_le_pow_right (by norm_num) enough
      _ = 2 ^ m.log2 * 2 ^ k := pow_add _ _ _
      _ ≤ m * 2 ^ k := Nat.mul_le_mul_right _ (Nat.log2_self_le positive.ne')
  · exact .inr (by omega)

theorem offset_shifted (m k : Nat) (e : Int) : Offset .exact (m * 2 ^ e / 2 ^ (e - k) - (m * 2 ^ k : ℕ)) := by
  show m * 2 ^ e / 2 ^ (e - k) - ((m * 2 ^ k : ℕ) : ℚ) = 0
  rw [zpow_sub₀ (by norm_num), zpow_natCast]
  push_cast
  field_simp
  ring

/-- **A mantissa of any length** is rounded to the number whose rounding interval has the value. -/
theorem round_spec (negative : Bool) {m : Nat} (e : Int) (positive : 0 < m) :
    ∃ d : Dyadic, d.negative = negative ∧ d.Canonical ∧ (RoundingInterval.of d).Holds (m * 2 ^ e) ∧
      UnpackedFloat.round Format.binary64 d.sign m e = d.unpacked := by
  obtain ⟨k, amount⟩ : ∃ k, (e - max (m.log2 + e - 52) (-1074)).toNat = k := ⟨_, rfl⟩
  obtain ⟨d, sign, canonical, holds, rounded⟩ :=
    roundWithAccuracy_spec negative (fine_shifted positive amount) (offset_shifted m k e)
  refine ⟨d, sign, canonical, holds, ?_⟩
  unfold UnpackedFloat.round UnpackedFloat.decreaseExponent
  dsimp only
  rw [targetExponent_eq, amount, Nat.shiftLeft_eq]
  exact rounded

/-! ### Whole numbers -/

/-- The parts of a natural number, with all digits of the format. -/
def Dyadic.ofWhole (n : Nat) : Dyadic := ⟨false, n * 2 ^ (52 - n.log2), n.log2 - 52⟩

section Whole

variable {n : Nat} (some : 0 < n) (below : n < 2 ^ 53)

include some below

theorem log2_le_of_lt : n.log2 ≤ 52 := Nat.lt_succ_iff.mp ((Nat.log2_lt some.ne').mpr below)

theorem size_ofWhole : (Dyadic.ofWhole n).size = n := by
  have length := log2_le_of_lt some below
  have exponent : (n.log2 : ℤ) - 52 = -((52 - n.log2 : ℕ) : ℤ) := by omega
  unfold Dyadic.size Dyadic.ofWhole
  dsimp only
  rw [exponent, zpow_neg, zpow_natCast]
  push_cast
  field_simp

theorem log2_ofWhole : (n * 2 ^ (52 - n.log2)).log2 = 52 := by
  have length := log2_le_of_lt some below
  have join : 2 ^ n.log2 * 2 ^ (52 - n.log2) = 2 ^ 52 := by rw [← pow_add]; congr 1; omega
  have next : 2 ^ (n.log2 + 1) * 2 ^ (52 - n.log2) = 2 ^ 53 := by rw [← pow_add]; congr 1; omega
  refine (Nat.log2_eq_iff (by positivity)).mpr ⟨?_, ?_⟩
  · rw [← join]
    exact Nat.mul_le_mul_right _ (Nat.log2_self_le some.ne')
  · rw [← next]
    exact Nat.mul_lt_mul_of_pos_right Nat.lt_log2_self (by positivity)

theorem canonical_ofWhole : (Dyadic.ofWhole n).Canonical := by
  obtain ⟨atLeast, less⟩ := (Nat.log2_eq_iff (by positivity)).mp (log2_ofWhole some below)
  exact ⟨less, by unfold Dyadic.ofWhole; dsimp only; omega, .inr atLeast⟩

/-- **Natural numbers with at most 53 binary digits are exact.** -/
theorem ofNat_eq : UnpackedFloat.ofNat Format.binary64 n = (Dyadic.ofWhole n).unpacked := by
  have positive : compare (n : ℤ) 0 = .gt := Int.compare_eq_gt.mpr (by omega)
  obtain ⟨d, sign, canonical, holds, rounded⟩ := round_spec false 0 some
  have whole := holds_size (canonical_ofWhole some below)
  rw [size_ofWhole some below] at whole
  rw [zpow_zero, mul_one] at holds
  obtain rfl := Dyadic.ext_of_holds sign canonical (canonical_ofWhole some below) holds whole
  unfold UnpackedFloat.ofNat UnpackedFloat.ofInt UnpackedFloat.normalize
  rw [positive]
  exact rounded

theorem toFloat_ofNat : n.toUInt64.toFloat = (Dyadic.ofWhole n).packed := by
  have same : n.toUInt64.toNat = n := Nat.mod_eq_of_lt (by omega)
  show Float.ofModel (.pack (UnpackedFloat.ofNat Format.binary64 n.toUInt64.toNat)) = _
  rw [same, ofNat_eq some below]
  rfl

end Whole

/-! ### Quotients -/

theorem offset_accuracyOfFraction {a b : Nat} (below : a < b) :
    Offset (UnpackedFloat.accuracyOfFraction a b) ((a : ℚ) / b) := by
  have cast : (a : ℚ) < b := by exact_mod_cast below
  have divisor : (0 : ℚ) < b := by exact_mod_cast Nat.zero_lt_of_lt below
  unfold UnpackedFloat.accuracyOfFraction
  split
  case isTrue none =>
    show (a : ℚ) / b = 0
    rw [none, Nat.cast_zero, zero_div]
  case isFalse some =>
    have positive : (0 : ℚ) < a := by exact_mod_cast Nat.pos_of_ne_zero some
    cases order : compare (2 * a) b with
    | lt =>
      have less : 2 * (a : ℚ) < b := by exact_mod_cast Nat.compare_eq_lt.mp order
      exact ⟨by positivity, by rw [div_lt_div_iff₀ divisor (by norm_num)]; linarith⟩
    | eq =>
      have same : 2 * (a : ℚ) = b := by exact_mod_cast Nat.compare_eq_eq.mp order
      show (a : ℚ) / b = 1 / 2
      rw [div_eq_div_iff divisor.ne' (by norm_num)]
      linarith
    | gt =>
      have more : (b : ℚ) < 2 * a := by exact_mod_cast Nat.compare_eq_gt.mp order
      exact ⟨by rw [div_lt_div_iff₀ (by norm_num) divisor]; linarith, (div_lt_one divisor).mpr cast⟩

/-- **A quotient is located**, with enough digits. -/
theorem exists_divCore {m n : Nat} (some : 0 < m) (divisor : 0 < n) (e f : Int) :
    ∃ q t accuracy, UnpackedFloat.divCore Format.binary64 m e n f = (q, t, accuracy) ∧ Fine q t ∧
      Offset accuracy (m * 2 ^ e / (n * 2 ^ f) / 2 ^ t - q) := by
  have bits : Format.mantissaBits Format.binary64 = 53 := rfl
  have least : Format.minExponent Format.binary64 = -1074 := rfl
  obtain ⟨t, target⟩ : ∃ t, min (e - f) (Format.binary64.targetExponent (totalExponent m e - totalExponent n f)) = t :=
    ⟨_, rfl⟩
  obtain ⟨k, difference⟩ : ∃ k : ℕ, e - f = t + k := ⟨(e - f - t).toNat, by omega⟩
  have amount : (e - f - t).toNat = k := by omega
  refine ⟨m * 2 ^ k / n, t, UnpackedFloat.accuracyOfFraction (m * 2 ^ k % n) n, ?_, ?_, ?_⟩
  · unfold UnpackedFloat.divCore
    dsimp only
    rw [target, amount, Nat.shiftLeft_eq]
  · by_cases low : t ≤ -1074
    · exact .inr low
    · unfold Format.targetExponent totalExponent at target
      rw [bits, least] at target
      have enough : 53 + n.log2 ≤ m.log2 + k := by omega
      have quotient : 2 ^ 52 ≤ m * 2 ^ k / n := by
        rw [Nat.le_div_iff_mul_le divisor]
        calc 2 ^ 52 * n ≤ 2 ^ 52 * 2 ^ (n.log2 + 1) := Nat.mul_le_mul_left _ Nat.lt_log2_self.le
          _ = 2 ^ (53 + n.log2) := by ring
          _ ≤ 2 ^ (m.log2 + k) := Nat.pow_le_pow_right (by norm_num) enough
          _ = 2 ^ m.log2 * 2 ^ k := pow_add _ _ _
          _ ≤ m * 2 ^ k := Nat.mul_le_mul_right _ (Nat.log2_self_le some.ne')
      exact .inl ((Nat.le_log2 (by omega)).mpr quotient)
  · have units : (m : ℚ) * 2 ^ e / (n * 2 ^ f) / 2 ^ t - (m * 2 ^ k / n : ℕ) = ((m * 2 ^ k % n : ℕ) : ℚ) / n := by
      have exponent : e = f + t + k := by omega
      have division : (m : ℚ) * 2 ^ k = n * (m * 2 ^ k / n : ℕ) + (m * 2 ^ k % n : ℕ) := by
        exact_mod_cast (Nat.div_add_mod (m * 2 ^ k) n).symm
      have cast : (n : ℚ) ≠ 0 := by exact_mod_cast divisor.ne'
      rw [exponent, zpow_add₀ (by norm_num), zpow_add₀ (by norm_num), zpow_natCast]
      field_simp
      linarith
    rw [units]
    exact offset_accuracyOfFraction (Nat.mod_lt _ divisor)

/-- **A quotient in the rounding interval of a number is rounded to it.** -/
theorem div_eq {d : Dyadic} (canonical : d.Canonical) (positive : d.negative = false) {m n : Nat} (some : 0 < m)
    (divisor : 0 < n) {e f : Int} (holds : (RoundingInterval.of d).Holds (m * 2 ^ e / (n * 2 ^ f))) :
    UnpackedFloat.div Format.binary64 (.finite .positive m e some) (.finite .positive n f divisor) = d.unpacked := by
  obtain ⟨q, t, accuracy, core, fine, offset⟩ := exists_divCore some divisor e f
  have sign := Dyadic.sign_of_positive positive
  have rounded := roundWithAccuracy_eq canonical fine offset holds
  rw [sign] at rounded
  unfold UnpackedFloat.div
  dsimp only
  rw [core]
  exact rounded

/-! ### Decimals -/

/-- What is rounded to a number that is not zero is not below a fourth of the least one. -/
theorem le_of_holds {d : Dyadic} (legal : d.Legal) {v : ℚ} (holds : (RoundingInterval.of d).Holds v) :
    (2 : ℚ) ^ (-1076 : ℤ) ≤ v := by
  have quarters : (1 : ℚ) ≤ d.lowQuarters := by exact_mod_cast Dyadic.lowQuarters_pos legal
  have exponent : -1076 ≤ d.exponent - 2 := by linarith [legal.least]
  calc (2 : ℚ) ^ (-1076 : ℤ) ≤ d.quarter := zpow_le_zpow_right₀ (by norm_num) exponent
    _ ≤ d.lowQuarters * d.quarter := le_mul_of_one_le_left d.quarter_pos.le quarters
    _ ≤ v := d.value_low ▸ holds.le.1

theorem pos_of_holds {d : Dyadic} (legal : d.Legal) {m e : Nat} (holds : (RoundingInterval.of d).Holds (m / 10 ^ e)) :
    0 < m := by
  have least := le_of_holds legal holds
  rw [Nat.pos_iff_ne_zero]
  rintro rfl
  rw [Nat.cast_zero, zero_div] at least
  exact absurd least (not_le.mpr (by positivity))

/-- A decimal with far more places than digits is below all numbers. -/
theorem lt_of_places {m e : Nat} (many : 2 ^ 11 + m.log2 < e) : (m : ℚ) / 10 ^ e < 2 ^ (-1076 : ℤ) := by
  have size : (m : ℚ) < 2 ^ (m.log2 + 1) := by exact_mod_cast Nat.lt_log2_self
  have places : (2 : ℚ) ^ e ≤ 10 ^ e := pow_le_pow_left₀ (by norm_num) (by norm_num) e
  have gap : 1076 + (m.log2 + 1) ≤ e := by omega
  have least : (2 : ℚ) ^ (-1076 : ℤ) = 1 / 2 ^ 1076 := by rw [one_div, ← zpow_natCast, ← zpow_neg, Nat.cast_ofNat]
  rw [least, div_lt_div_iff₀ (by positivity) (by positivity), one_mul]
  calc (m : ℚ) * 2 ^ 1076 < 2 ^ (m.log2 + 1) * 2 ^ 1076 := by gcongr
    _ = 2 ^ (1076 + (m.log2 + 1)) := by rw [pow_add 2 1076, mul_comm]
    _ ≤ 2 ^ e := pow_le_pow_right₀ (by norm_num) gap
    _ ≤ 10 ^ e := places

/-- The parts of a power of ten in the table. -/
def isPowerOfTen (d : Dyadic) (e : Nat) : Bool :=
  !d.negative && d.exponent ≥ -52 && d.mantissa * 2 ^ (d.exponent + 52).toNat == 10 ^ e * 2 ^ 52

theorem isPowerOfTen_table :
    ∀ e : Fin 23, (Dyadic.ofFloat? Float.exactlyRepresentablePowersOfTen[e]).any (isPowerOfTen · e) = true := by
  decide

/-- **The powers of ten in the table are exact.** -/
theorem exists_powerOfTen {e : Nat} (few : e < 23) :
    ∃ d, Dyadic.ofFloat? Float.exactlyRepresentablePowersOfTen[e] = some d ∧ d.sign = .positive ∧ d.size = 10 ^ e := by
  have row := isPowerOfTen_table ⟨e, few⟩
  change (Dyadic.ofFloat? Float.exactlyRepresentablePowersOfTen[e]).any _ = true at row
  generalize Dyadic.ofFloat? Float.exactlyRepresentablePowersOfTen[e] = parts at row ⊢
  cases parts with
  | none => exact absurd row (by simp)
  | some d =>
    simp only [Option.any_some, isPowerOfTen, Bool.and_eq_true, Bool.not_eq_true', decide_eq_true_eq, beq_iff_eq] at row
    obtain ⟨⟨positive, least⟩, power⟩ := row
    refine ⟨d, rfl, Dyadic.sign_of_positive positive, ?_⟩
    have exponent : d.exponent = ((d.exponent + 52).toNat : ℤ) - (52 : ℕ) := by omega
    have cast : (d.mantissa : ℚ) * 2 ^ (d.exponent + 52).toNat = 10 ^ e * 2 ^ 52 := by exact_mod_cast power
    rw [Dyadic.size, exponent, zpow_sub₀ (by norm_num), zpow_natCast, zpow_natCast, mul_div_assoc', cast,
      mul_div_cancel_right₀ _ (by positivity)]

/-- A natural number in the rounding interval of a number is rounded to it, once it has enough digits. -/
theorem round_whole {d : Dyadic} (canonical : d.Canonical) {m : Nat} (some : m ≠ 0)
    (holds : (RoundingInterval.of d).Holds m) :
    UnpackedFloat.roundWithAccuracy Format.binary64 d.sign (m * 2 ^ 53) (-53 + 0) .exact = d.unpacked := by
  have fine : Fine (m * 2 ^ 53) (-53 + 0) := by
    refine .inl ((Nat.le_log2 (by positivity)).mpr ?_)
    calc 2 ^ 52 ≤ 2 ^ 53 := Nat.pow_le_pow_right (by norm_num) (by norm_num)
      _ ≤ m * 2 ^ 53 := Nat.le_mul_of_pos_left _ (Nat.pos_of_ne_zero some)
  have offset : Offset .exact ((m : ℚ) / 2 ^ (-53 + 0 : ℤ) - (m * 2 ^ 53 : ℕ)) := by
    show (m : ℚ) / 2 ^ (-53 + 0 : ℤ) - (m * 2 ^ 53 : ℕ) = 0
    rw [add_zero, zpow_neg, div_inv_eq_mul]
    push_cast
    norm_num
  exact roundWithAccuracy_eq canonical fine offset holds

section Decimals

variable {d : Dyadic} (legal : d.Legal) (positive : d.negative = false) {m e : Nat}
  (holds : (RoundingInterval.of d).Holds (m / 10 ^ e))

include legal positive holds

/-- The logical model of reading a decimal. -/
theorem unpacked_ofScientific : UnpackedFloat.ofScientific Format.binary64 m (Int.negOfNat e) = d.unpacked := by
  have sign := Dyadic.sign_of_positive positive
  have some := (pos_of_holds legal holds).ne'
  have few : ¬ 2 ^ 11 + m.log2 < e := fun many => absurd (le_of_holds legal holds) (not_le.mpr (lt_of_places many))
  have negation : Int.negOfNat e = -(e : ℤ) := Int.negOfNat_eq
  have range : (2 : ℤ) ^ Format.binary64.exponentBits = 2 ^ 11 := rfl
  rw [negation]
  unfold UnpackedFloat.ofScientific
  rw [dif_neg some, range, if_neg (by omega), if_neg (by omega)]
  by_cases whole : e = 0
  · subst whole
    have mantissa : m <<< 53 * 10 ^ (-((0 : ℕ) : ℤ)).toNat = m * 2 ^ 53 := by
      rw [Nat.shiftLeft_eq]
      simp
    rw [pow_zero, div_one] at holds
    have rounded := round_whole legal.canonical some holds
    rw [sign, ← mantissa] at rounded
    rw [if_pos (by omega)]
    exact rounded
  · have divisor : 0 < 10 ^ e := by positivity
    have power : UnpackedFloat.finite .positive (10 ^ (-(-(e : ℤ))).toNat) 0 (by positivity) =
        .finite .positive (10 ^ e) 0 divisor := finite_congr rfl (by rw [neg_neg, Int.toNat_natCast]) rfl
    rw [if_neg (by omega), power]
    refine div_eq legal.canonical positive _ divisor ?_
    rw [zpow_zero, mul_one, mul_one]
    exact_mod_cast holds

/-- A quotient of exact numbers is rounded once: digits, and a power of ten of the table. -/
theorem div_powerOfTen (some : 0 < m) (below : m < 2 ^ 53) (few : e < 23) :
    m.toUInt64.toFloat / Float.exactlyRepresentablePowersOfTen[e] = d.packed := by
  obtain ⟨ten, parts, sign, size⟩ := exists_powerOfTen few
  have nonzero : 0 < ten.mantissa := by
    rw [Nat.pos_iff_ne_zero]
    intro none
    rw [Dyadic.size, none, Nat.cast_zero, zero_mul] at size
    exact absurd size.symm (by positivity)
  have digits : 0 < (Dyadic.ofWhole m).mantissa := Nat.mul_pos some (by positivity)
  have length := log2_le_of_lt some below
  have bounded : (Dyadic.ofWhole m).exponent ≤ 971 := by
    unfold Dyadic.ofWhole
    dsimp only
    omega
  have whole := Dyadic.ofFloat?_packed (canonical_ofWhole some below) bounded
  rw [← toFloat_ofNat some below] at whole
  have quotient : (RoundingInterval.of d).Holds
      ((Dyadic.ofWhole m).mantissa * 2 ^ (Dyadic.ofWhole m).exponent / (ten.mantissa * 2 ^ ten.exponent)) := by
    show (RoundingInterval.of d).Holds ((Dyadic.ofWhole m).size / ten.size)
    rw [size_ofWhole some below, size]
    exact holds
  show Float.ofModel (.pack (UnpackedFloat.div Format.binary64 m.toUInt64.toFloat.toModel.unpack
    Float.exactlyRepresentablePowersOfTen[e].toModel.unpack)) = _
  rw [unpack_of_parts whole, unpack_of_parts parts, Dyadic.unpacked_of_pos digits,
    Dyadic.unpacked_of_pos nonzero, sign]
  exact congrArg (fun x => Float.ofModel (.pack x)) (div_eq legal.canonical positive digits nonzero quotient)

/-- **A decimal in the rounding interval of a number is read as this number.** -/
theorem ofScientific_eq : Float.ofScientific m true e = d.packed := by
  have some := pos_of_holds legal holds
  unfold Float.ofScientific
  split
  case isTrue small =>
    exact div_powerOfTen legal positive holds some small.1 (Nat.lt_succ_iff.mpr small.2)
  case isFalse =>
    show Float.ofModel (.pack (UnpackedFloat.ofScientific Format.binary64 m (Int.negOfNat e))) = _
    rw [unpacked_ofScientific legal positive holds]
    rfl

end Decimals

/-! ### Numbers read back -/

/-- The number with the same size that is not negative. -/
def Dyadic.unsigned (d : Dyadic) : Dyadic := ⟨false, d.mantissa, d.exponent⟩

/-- The number with the same size and the other sign. -/
def Dyadic.negated (d : Dyadic) : Dyadic := ⟨!d.negative, d.mantissa, d.exponent⟩

section ReadBack

variable {x : Float} {d : Dyadic}

/-- **The shortest decimal of a number reads back** as its size. -/
theorem toFloat_shortest (legal : d.Legal) : (shortest d).toFloat = d.unsigned.packed := by
  have unsignedLegal : d.unsigned.Legal := ⟨legal.positive, legal.below, legal.least, legal.greatest, legal.full⟩
  have holds := Dyadic.holds_shortest legal
  rw [Decimal.value_eq] at holds
  exact ofScientific_eq unsignedLegal rfl holds

/-- A number is made of its parts. -/
theorem packed_of_parts (parts : Dyadic.ofFloat? x = some d) : d.packed = x := by
  obtain ⟨canonical, greatest⟩ := canonical_of_parts parts
  exact eq_of_parts (Dyadic.ofFloat?_packed canonical greatest) parts

theorem unpacked_negated (d : Dyadic) : d.negated.unpacked = d.unpacked.neg := by
  have sign : d.negated.sign = -d.sign := by
    unfold Dyadic.sign Dyadic.negated
    cases d.negative <;> rfl
  by_cases none : d.mantissa = 0
  · have noneNegated : d.negated.mantissa = 0 := none
    rw [Dyadic.unpacked_of_zero none, Dyadic.unpacked_of_zero noneNegated, sign]
    rfl
  · have positive := Nat.pos_of_ne_zero none
    have positiveNegated : 0 < d.negated.mantissa := positive
    rw [Dyadic.unpacked_of_pos positive, Dyadic.unpacked_of_pos positiveNegated, sign]
    rfl

/-- **Negation** changes the sign among the parts. -/
theorem neg_packed (canonical : d.Canonical) (greatest : d.exponent ≤ 971) : -d.packed = d.negated.packed := by
  show Float.ofModel (.pack d.packed.toModel.unpack.neg) = _
  rw [unpack_of_parts (Dyadic.ofFloat?_packed canonical greatest), ← unpacked_negated]
  rfl

/-- A number is made of its size and its sign. -/
theorem signed_packed_of_parts (parts : Dyadic.ofFloat? x = some d) :
    (if d.negative then -d.unsigned.packed else d.unsigned.packed) = x := by
  obtain ⟨canonical, greatest⟩ := canonical_of_parts parts
  have unsignedCanonical : d.unsigned.Canonical := ⟨canonical.below, canonical.least, canonical.full⟩
  rw [neg_packed unsignedCanonical greatest]
  have made := packed_of_parts parts
  obtain ⟨negative, _, _⟩ := d
  cases negative <;> exact made

/-- **Every number that is finite and not negative reads back.** -/
theorem readsBack_of_parts (parts : Dyadic.ofFloat? x = some d) (positive : d.negative = false) : ReadsBack x := by
  refine ⟨d, parts, fun some => ?_⟩
  have made := signed_packed_of_parts parts
  rw [positive] at made
  exact (toFloat_shortest (legal_of_parts parts some)).trans made

end ReadBack

end XPathAnnotator.Number
