import DiceNotation.Number.Arithmetic
import Mathlib

namespace DiceNotation

/-!
# Minus one times a number

A negated operand is multiplied by minus one.  For integers this is plain.  A
real is unpacked into a sign, a mantissa and an exponent; the product with minus
one has the mantissa shifted up by the width of the format, and rounding shifts
it back without losing a digit.  So the product is the number with the other
sign, also for infinities, for both zeros and for the undefined real.
-/

open Float.Model Float.Model.UnpackedFloat

namespace Real64

/-- A mantissa that was shifted up is shifted down again without a remainder. -/
theorem shiftRight_shifted (mantissa k : Nat) :
    (ExtendedMantissa.mk (mantissa * 2 ^ k) false false) >>> k =
      ExtendedMantissa.mk mantissa false false := by
  induction k generalizing mantissa with
  | zero => simp [HShiftRight.hShiftRight, Nat.repeat]
  | succ k ih =>
    have doubled : mantissa * 2 ^ (k + 1) = (2 * mantissa) * 2 ^ k := by ring
    rw [doubled]
    change ExtendedMantissa.shiftRightOne
      ((ExtendedMantissa.mk ((2 * mantissa) * 2 ^ k) false false) >>> k) = _
    rw [ih]
    simp [ExtendedMantissa.shiftRightOne]

theorem targetExponent_eq (total : Int) :
    Format.binary64.targetExponent total = max (total - 53) (-1074) := rfl

/-- A mantissa and an exponent as they stand in a number of the format. -/
def Canonical (mantissa : Nat) (exponent : Int) : Prop :=
  Format.binary64.targetExponent (totalExponent mantissa exponent) = exponent

/-- Bringing a canonical number to its own exponent, from a number of places
below it, gives back its mantissa. -/
theorem shiftToTargetExponent_canonical {mantissa : Nat} {exponent : Int} (positive : 0 < mantissa)
    (canonical : Canonical mantissa exponent) (k : Nat) :
    shiftToTargetExponent Format.binary64 (mantissa * 2 ^ k) (exponent - k) .exact =
      (ExtendedMantissa.mk mantissa false false, exponent) := by
  have size : (mantissa * 2 ^ k).log2 = mantissa.log2 + k := by
    have nonzero : mantissa ≠ 0 := Nat.pos_iff_ne_zero.1 positive
    have low := Nat.mul_le_mul_right (2 ^ k) (Nat.log2_self_le nonzero)
    have high := Nat.mul_lt_mul_of_pos_right (Nat.lt_log2_self (n := mantissa)) (Nat.two_pow_pos k)
    rw [← Nat.pow_add] at low high
    rw [Nat.log2_eq_iff (Nat.mul_ne_zero nonzero (Nat.two_pow_pos k).ne')]
    exact ⟨low, by rwa [Nat.add_right_comm]⟩
  have total : totalExponent (mantissa * 2 ^ k) (exponent - k) =
      totalExponent mantissa exponent := by
    unfold totalExponent
    rw [size]
    push_cast
    ring
  have amount : (exponent - (exponent - (k : Int))).toNat = k := by omega
  unfold shiftToTargetExponent shiftToExponent
  rw [total, canonical]
  simp only [amount, ExtendedMantissa.ofMantissaAndAccuracy, shiftRight_shifted]
  rw [Prod.mk.injEq]
  exact ⟨rfl, by ring⟩

/-- Rounding gives back a canonical number from any number of places below it. -/
theorem roundWithAccuracy_canonical {mantissa : Nat} {exponent : Int} (positive : 0 < mantissa)
    (canonical : Canonical mantissa exponent) (sign : Sign) (k : Nat) :
    roundWithAccuracy Format.binary64 sign (mantissa * 2 ^ k) (exponent - k) .exact =
      .finite sign mantissa exponent positive := by
  have again := shiftToTargetExponent_canonical positive canonical 0
  rw [Nat.pow_zero, Nat.mul_one, Int.natCast_zero, Int.sub_zero] at again
  have rounded : (ExtendedMantissa.mk mantissa false false).roundedMantissa = mantissa := rfl
  unfold roundWithAccuracy
  simp only [shiftToTargetExponent_canonical positive canonical k, rounded, again]
  rw [dif_neg (Nat.pos_iff_ne_zero.1 positive)]

/-- What unpacks from bits is canonical. -/
theorem unpack_canonical (bits : BitVec Format.binary64.numBits) {sign : Sign} {mantissa : Nat}
    {exponent : Int} {positive : 0 < mantissa}
    (unpacked : UnpackedFloat.unpack Format.binary64 bits = .finite sign mantissa exponent positive) :
    Canonical mantissa exponent := by
  have bias : (Format.binary64.exponentBias : Int) = 1023 := rfl
  simp only [UnpackedFloat.unpack] at unpacked
  split at unpacked
  · split at unpacked <;> cases unpacked
  rename_i notTop
  split at unpacked
  · -- a subnormal number: its mantissa has fewer digits than the format
    rename_i least
    split at unpacked
    · cases unpacked
    injection unpacked with _ magnitude scale
    have small : mantissa < 2 ^ 52 := by
      rw [← magnitude]
      exact (unpackMantissa bits).isLt
    have size : mantissa.log2 < 52 := (Nat.log2_lt (Nat.pos_iff_ne_zero.1 positive)).2 small
    have lowest : exponent = -1074 := by
      rw [← scale, least, bias]
      rfl
    unfold Canonical
    rw [targetExponent_eq, totalExponent]
    omega
  · -- a normal number: the leading digit is implicit
    rename_i notLeast
    injection unpacked with _ magnitude scale
    have size : mantissa.log2 = 52 := by
      have fraction : (unpackMantissa bits).toNat < 2 ^ 52 := (unpackMantissa bits).isLt
      have leading : mantissa = 2 ^ 52 + (unpackMantissa bits).toNat := by
        rw [← magnitude, BitVec.toNat_append, ← Nat.shiftLeft_add_eq_or_of_lt fraction]
        rfl
      rw [Nat.log2_eq_iff (Nat.pos_iff_ne_zero.1 positive)]
      omega
    have above : (unpackExponent bits).toNat ≠ 0 := by
      intro zero
      exact notLeast (BitVec.eq_of_toNat_eq zero)
    rw [bias] at scale
    change ((unpackExponent bits).toNat : Int) - (1023 + 52) = exponent at scale
    unfold Canonical
    rw [targetExponent_eq, totalExponent]
    omega

/-- Minus one, unpacked. -/
def minusOne : UnpackedFloat := .finite .negative (2 ^ 52) (-52) (by decide)

theorem mul_negative (sign : Sign) : sign * Sign.negative = -sign := by
  cases sign <;> rfl

/-- The product of what bits unpack to with minus one has the other sign. -/
theorem mul_minusOne (bits : BitVec Format.binary64.numBits) :
    UnpackedFloat.mul Format.binary64 (UnpackedFloat.unpack Format.binary64 bits) minusOne =
      (UnpackedFloat.unpack Format.binary64 bits).neg := by
  cases unpacked : UnpackedFloat.unpack Format.binary64 bits with
  | infinity sign => exact congrArg UnpackedFloat.infinity (mul_negative sign)
  | notANumber => rfl
  | zero sign => exact congrArg UnpackedFloat.zero (mul_negative sign)
  | finite sign mantissa exponent positive =>
    have rounded := roundWithAccuracy_canonical positive (unpack_canonical bits unpacked)
      (sign * Sign.negative) 52
    change roundWithAccuracy Format.binary64 (sign * Sign.negative) (mantissa * 2 ^ 52)
      (exponent - (52 : Nat)) .exact = .finite (-sign) mantissa exponent positive
    rw [rounded, mul_negative]

end Real64

namespace Number

/-- The real minus one is one negated. -/
theorem ofInt_minusOne : (Float.ofInt (-1)).toModel.unpack = Real64.minusOne := by
  rfl

/-- A real times minus one is the real with the other sign. -/
theorem real_mul_minusOne (x : Float) : x * Float.ofInt (-1) = -x := by
  have models : (x * Float.ofInt (-1)).toModel = (-x).toModel := by
    change Float.Model.pack (UnpackedFloat.mul Format.binary64 x.toModel.unpack
      (Float.ofInt (-1)).toModel.unpack) = Float.Model.pack x.toModel.unpack.neg
    rw [ofInt_minusOne]
    exact congrArg Float.Model.pack (Real64.mul_minusOne x.toModel.toBits.toBitVec)
  exact congrArg Float.ofModel models

/-- A number times minus one is the number negated. -/
theorem mul_minusOne (n : Number) : n.mul (.int (-1)) = .ok n.neg := by
  cases n with
  | int a =>
    change Except.ok (Number.int (a * -1)) = _
    rw [Int.mul_neg_one]
    rfl
  | real x =>
    have finite : (Float.ofInt (-1)).isInf = false := by rfl
    have converted : (Number.int (-1)).toReal = .ok (Float.ofInt (-1)) := by
      simp only [toReal, finite]
      rfl
    change (do
      let y ← (Number.int (-1)).toReal
      return Number.real (x * y)) = _
    rw [converted]
    exact congrArg (fun y => Except.ok (Number.real y)) (real_mul_minusOne x)

end Number
end DiceNotation
