/-
**Signs of the numbers that are read.**

The number that digits stand for has no sign: the logical model of floating-point numbers makes it by
multiplying, dividing and rounding sizes without one. So what a numeral without a minus sign is read as is never
below zero, and the negative zero is not among the numbers that are read.

* `unsigned_ofScientific` — reading digits;
* `unsigned_ofText` — reading a text without a minus sign;
* `Unsigned.negative` — the parts of such a number.
-/

import Mathlib
import XPathAnnotator.Proofs.Number.Numerals

namespace XPathAnnotator.Number

open Float.Model
open XPathAnnotator.Text

/-! ### Numbers in parts -/

/-- A number in parts that is not negative. -/
def Positive : UnpackedFloat → Prop
  | .notANumber => True
  | .infinity sign => sign = .positive
  | .zero sign => sign = .positive
  | .finite sign _ _ _ => sign = .positive

theorem positive_roundWithAccuracy (spec : Format) (mantissa : Nat) (exponent : Int)
    (accuracy : UnpackedFloat.Accuracy) :
    Positive (UnpackedFloat.roundWithAccuracy spec .positive mantissa exponent accuracy) := by
  unfold UnpackedFloat.roundWithAccuracy
  dsimp only
  split
  · rfl
  · rfl

theorem positive_ofNat (spec : Format) (n : Nat) : Positive (UnpackedFloat.ofNat spec n) := by
  rw [UnpackedFloat.ofNat, UnpackedFloat.ofInt, UnpackedFloat.normalize]
  split
  · rename_i below
    rw [Int.compare_eq_lt] at below
    omega
  · rfl
  · exact positive_roundWithAccuracy _ _ _ _

theorem positive_mul {spec : Format} {x y : UnpackedFloat} (left : Positive x) (right : Positive y) :
    Positive (UnpackedFloat.mul spec x y) := by
  cases x <;> cases y <;> cases left <;> cases right
  case finite.finite => exact positive_roundWithAccuracy _ _ _ _
  all_goals trivial

theorem positive_div {spec : Format} {x y : UnpackedFloat} (left : Positive x) (right : Positive y) :
    Positive (UnpackedFloat.div spec x y) := by
  cases x <;> cases y <;> cases left <;> cases right
  case finite.finite => exact positive_roundWithAccuracy _ _ _ _
  all_goals trivial

theorem positive_ofScientific (spec : Format) (m : Nat) (e : Int) :
    Positive (UnpackedFloat.ofScientific spec m e) := by
  unfold UnpackedFloat.ofScientific
  split
  · rfl
  · split
    · rfl
    · split
      · rfl
      · split
        · exact positive_mul rfl rfl
        · exact positive_div rfl rfl

/-! ### Numbers as bits -/

/-- A number whose sign bit is not set. -/
def Unsigned (x : Float) : Prop := x.toBits.toBitVec.msb = false

theorem msb_packComponents (exponent : BitVec 11) (mantissa : BitVec 52) :
    (UnpackedFloat.packComponents Format.binary64 .positive exponent mantissa).msb = false :=
  (@BitVec.msb_append _ _ (0#1 ++ exponent) mantissa).trans (@BitVec.msb_append _ _ 0#1 exponent)

theorem msb_pack {x : UnpackedFloat} (positive : Positive x) :
    (UnpackedFloat.pack Format.binary64 x).msb = false := by
  cases x with
  | notANumber => exact msb_packComponents _ _
  | infinity sign =>
    cases positive
    exact msb_packComponents _ _
  | zero sign =>
    cases positive
    exact msb_packComponents _ _
  | finite sign mantissa exponent _ =>
    cases positive
    unfold UnpackedFloat.pack
    dsimp only
    split
    · exact msb_packComponents _ _
    · split
      · exact msb_packComponents _ _
      · exact msb_packComponents _ _

theorem sign_unpack {bits : BitVec 64} (clear : bits.msb = false) :
    UnpackedFloat.Sign.ofBitVec (@UnpackedFloat.unpackSign Format.binary64 bits) = .positive := by
  rw [BitVec.msb_eq_false_iff_two_mul_lt] at clear
  unfold UnpackedFloat.Sign.ofBitVec
  rw [if_pos]
  unfold UnpackedFloat.unpackSign
  rw [BitVec.toNat_eq]
  simp only [BitVec.extractLsb, BitVec.toNat_cast, BitVec.extractLsb'_toNat]
  simp
  omega

theorem positive_unpack {x : Float} (unsigned : Unsigned x) : Positive x.toModel.unpack := by
  have sign : UnpackedFloat.Sign.ofBitVec
      (@UnpackedFloat.unpackSign Format.binary64 x.toModel.toBits.toBitVec) = .positive := sign_unpack unsigned
  unfold Float.Model.unpack UnpackedFloat.unpack
  dsimp only
  split
  · split
    · exact sign
    · trivial
  · split
    · split
      · exact sign
      · exact sign
    · exact sign

theorem unsigned_ofNat (n : UInt64) : Unsigned n.toFloat := msb_pack (positive_ofNat _ _)

theorem unsigned_div {x y : Float} (left : Unsigned x) (right : Unsigned y) : Unsigned (x / y) :=
  msb_pack (positive_div (positive_unpack left) (positive_unpack right))

theorem unsigned_powerOfTen : ∀ x ∈ Float.exactlyRepresentablePowersOfTen, Unsigned x := by
  have table : ∀ x ∈ Float.exactlyRepresentablePowersOfTen, x.toBits.toBitVec.msb = false := by decide
  exact table

/-- **Digits are read as a number without sign.** -/
theorem unsigned_ofScientific (m e : Nat) : Unsigned (Float.ofScientific m true e) := by
  unfold Float.ofScientific
  split
  · exact unsigned_div (unsigned_ofNat _) (unsigned_powerOfTen _ (Array.getElem_mem _))
  · exact msb_pack (positive_ofScientific _ _ _)

/-! ### Texts without a minus sign -/

theorem unsigned_notANumber : Unsigned notANumber := by
  unfold Unsigned
  decide

theorem unsigned_ofNumeral {cs : List Char} (absent : cs.head? ≠ some '-') : Unsigned (ofNumeral cs) := by
  have positive : (cs.head? == some '-') = false := beq_eq_false_iff_ne.mpr absent
  unfold ofNumeral
  dsimp only
  rw [positive]
  split
  · exact unsigned_notANumber
  · exact unsigned_ofScientific _ _

theorem mem_of_mem_trimBlanks {text : String} {c : Char} (member : c ∈ (trimBlanks text).toList) :
    c ∈ text.toList := by
  unfold trimBlanks trimBy trimEndBy trimStartBy at member
  rw [String.toList_ofList, String.toList_ofList, List.mem_reverse] at member
  have trimmed := (List.dropWhile_suffix _).subset member
  exact (List.dropWhile_suffix _).subset (List.mem_reverse.mp trimmed)

/-- **A text without a minus sign is read as a number without sign.** -/
theorem unsigned_ofText {text : String} (absent : '-' ∉ text.toList) : Unsigned (ofText text) :=
  unsigned_ofNumeral fun head => absent (mem_of_mem_trimBlanks (List.mem_of_mem_head? head))

/-! ### Parts of numbers without sign -/

section Parts

variable {x : Float} (unsigned : Unsigned x)

include unsigned

theorem Unsigned.toNat_lt : x.toBits.toNat < 2 ^ 63 := by
  unfold Unsigned at unsigned
  rw [BitVec.msb_eq_false_iff_two_mul_lt] at unsigned
  have bound : 2 * x.toBits.toNat < 2 ^ 64 := unsigned
  omega

theorem Unsigned.negative {d : Dyadic} (parts : Dyadic.ofFloat? x = some d) : d.negative = false := by
  have bound := unsigned.toNat_lt
  have clear : (x.toBits.toNat / 2 ^ 63 == 1) = false := beq_eq_false_iff_ne.mpr (by omega)
  rw [Dyadic.ofFloat?_eq] at parts
  split at parts
  · exact absurd parts (by simp)
  · split at parts
    · obtain rfl := Option.some.inj parts
      exact clear
    · obtain rfl := Option.some.inj parts
      exact clear

end Parts

end XPathAnnotator.Number
