import DiceNotation.Proofs.Number.Negation
import DiceNotation.Proofs.Number.Shares

namespace DiceNotation

/-!
# Products with a share

A uniform value picks a result if its product with the number of results can be rounded
to an integer, so the product must be finite.  Rounding can bring it up to the number of
results but not above: the exponent of the rounded product is at most the exponent of the
number of results, which belongs to a finite real.
-/

open Float.Model Float.Model.UnpackedFloat

namespace Real64

/-! ## Packing -/

theorem unpack_components {sign : Sign} {exponent : BitVec Format.binary64.exponentBits}
    {mantissa : BitVec Format.binary64.mantissaBitsWithoutImplicit} (low : exponent ≠ -1#_) :
    (UnpackedFloat.unpack Format.binary64
      (packComponents Format.binary64 sign exponent mantissa)).isFinite = true := by
  unfold UnpackedFloat.unpack
  simp only [unpackExponent_packComponents]
  rw [if_neg low]
  split
  · split <;> rfl
  · rfl

theorem unpack_packed_zero (sign : Sign) :
    (Float.Model.pack (.zero sign)).unpack = .zero sign := by
  cases sign <;> rfl

/-- The exponents of finite reals are at most 971. -/
theorem isFinite_packed {sign : Sign} {mantissa : Nat} {exponent : Int} {positive : 0 < mantissa}
    (low : exponent ≤ 971) :
    (Float.Model.pack (.finite sign mantissa exponent positive)).unpack.isFinite = true := by
  have bias : Format.binary64.exponentBias = 1023 := rfl
  change (UnpackedFloat.unpack Format.binary64
    (UnpackedFloat.pack Format.binary64 (.finite sign mantissa exponent positive))).isFinite = true
  have fits : (exponent + 1023 + 52).toNat < 2 ^ 11 - 1 := by omega
  simp only [UnpackedFloat.pack, bias]
  rw [if_neg (by change ¬(2 ^ 11 ≤ (exponent + 1023 + 52).toNat + 1); omega)]
  split
  · apply unpack_components
    intro top
    have size := congrArg BitVec.toNat top
    rw [BitVec.toNat_ofNat] at size
    change (exponent + 1023 + 52).toNat % 2 ^ 11 = 2 ^ 11 - 1 at size
    omega
  · apply unpack_components
    decide

theorem exponent_le_of_unpack {bits : BitVec Format.binary64.numBits} {sign : Sign}
    {mantissa : Nat} {exponent : Int} {positive : 0 < mantissa}
    (unpacked : UnpackedFloat.unpack Format.binary64 bits = .finite sign mantissa exponent positive) :
    exponent ≤ 971 := by
  have bias : (Format.binary64.exponentBias : Int) = 1023 := rfl
  simp only [UnpackedFloat.unpack] at unpacked
  split at unpacked
  · split at unpacked <;> cases unpacked
  rename_i notTop
  have below : (unpackExponent bits).toNat ≠ 2 ^ 11 - 1 := by
    intro top
    exact notTop (BitVec.eq_of_toNat_eq top)
  have bound : (unpackExponent bits).toNat < 2 ^ 11 := (unpackExponent bits).isLt
  split at unpacked
  · rename_i least
    split at unpacked
    · cases unpacked
    injection unpacked with _ _ scale
    rw [least, bias] at scale
    change (0 : Int) - (1023 + 52) + 1 = exponent at scale
    omega
  · injection unpacked with _ _ scale
    rw [bias] at scale
    change ((unpackExponent bits).toNat : Int) - (1023 + 52) = exponent at scale
    omega

/-! ## Rounding -/

theorem mantissa_shiftRight (extended : ExtendedMantissa) (places : Nat) :
    (extended >>> places).mantissa = extended.mantissa / 2 ^ places := by
  induction places with
  | zero => exact (Nat.div_one _).symm
  | succ places ih =>
    change (extended >>> places).mantissa / 2 = _
    rw [ih, Nat.div_div_eq_div_mul, Nat.pow_succ]

theorem roundedMantissa_le (extended : ExtendedMantissa) :
    extended.roundedMantissa ≤ extended.mantissa + 1 := by
  unfold ExtendedMantissa.roundedMantissa
  cases extended.accuracy with
  | exact => exact Nat.le_succ _
  | inexact order =>
    cases order with
    | lt => exact Nat.le_succ _
    | eq => exact Nat.add_le_add_left (Nat.le_of_lt_succ (Nat.mod_lt _ Nat.two_pos)) _
    | gt => exact Nat.le_refl _

/-- The exponent that a mantissa at an exponent is brought to. -/
def settledExponent (mantissa : Nat) (exponent : Int) : Int :=
  max exponent (Format.binary64.targetExponent (totalExponent mantissa exponent))

theorem shiftToTargetExponent_eq (mantissa : Nat) (exponent : Int) (accuracy : Accuracy) :
    shiftToTargetExponent Format.binary64 mantissa exponent accuracy =
      (ExtendedMantissa.ofMantissaAndAccuracy mantissa accuracy >>>
        (settledExponent mantissa exponent - exponent).toNat,
        settledExponent mantissa exponent) := by
  unfold shiftToTargetExponent shiftToExponent settledExponent
  simp only [Prod.mk.injEq]
  refine ⟨?_, by omega⟩
  congr 1
  omega

theorem log2_mono {m n : Nat} (le : m ≤ n) : m.log2 ≤ n.log2 := by
  rw [Nat.log2_eq_log_two, Nat.log2_eq_log_two]
  exact Nat.log_mono_right le

/-- A number that is not greater than a canonical one is not brought further up. -/
theorem settledExponent_le {mantissa whole : Nat} {exponent last : Int}
    (canonical : Canonical whole last) (low : exponent ≤ last)
    (small : mantissa.log2 + exponent ≤ whole.log2 + last) :
    settledExponent mantissa exponent ≤ last := by
  unfold Canonical at canonical
  rw [targetExponent_eq, totalExponent] at canonical
  unfold settledExponent
  rw [targetExponent_eq, totalExponent]
  omega

section

variable {share places whole : Nat} (below : share < 2 ^ places)
include below

theorem log2_share_le (positive : 0 < whole) : (share * whole).log2 ≤ places + whole.log2 := by
  by_cases zero : share * whole = 0
  · rw [zero]
    exact Nat.zero_le _
  apply Nat.le_of_lt_succ
  rw [Nat.log2_lt zero]
  calc share * whole < 2 ^ places * whole := Nat.mul_lt_mul_of_pos_right below positive
    _ ≤ 2 ^ places * 2 ^ (whole.log2 + 1) := Nat.mul_le_mul_left _ Nat.lt_log2_self.le
    _ = 2 ^ (places + whole.log2 + 1) := by rw [← Nat.pow_add, Nat.add_assoc]

/-- A share of a number of the format is rounded to a number whose exponent is not above
the exponent of the whole. -/
theorem exponent_share_le {exponent : Int} (positive : 0 < whole)
    (canonical : Canonical whole exponent) {sign given : Sign} {mantissa : Nat} {last : Int}
    {nonzero : 0 < mantissa}
    (rounded : roundWithAccuracy Format.binary64 sign (share * whole) (exponent - places) .exact =
      .finite given mantissa last nonzero) : last ≤ exponent := by
  have digits := log2_share_le below positive
  have first : settledExponent (share * whole) (exponent - places) ≤ exponent :=
    settledExponent_le canonical (by omega) (by omega)
  unfold roundWithAccuracy at rounded
  simp only [shiftToTargetExponent_eq] at rounded
  split at rounded
  · cases rounded
  injection rounded with _ _ settled
  rw [← settled]
  refine settledExponent_le canonical first ?_
  have size := roundedMantissa_le (ExtendedMantissa.ofMantissaAndAccuracy (share * whole) .exact >>>
    (settledExponent (share * whole) (exponent - places) - (exponent - places)).toNat)
  rw [mantissa_shiftRight] at size
  change _ ≤ share * whole / _ + 1 at size
  have above : max ((share * whole).log2 + 1 + (exponent - places) - 53) (-1074) ≤
      settledExponent (share * whole) (exponent - places) := by
    unfold settledExponent
    rw [targetExponent_eq, totalExponent]
    exact Int.le_max_right _ _
  generalize settledExponent (share * whole) (exponent - places) = middle at *
  unfold Canonical at canonical
  rw [targetExponent_eq, totalExponent] at canonical
  rcases Int.lt_or_eq_of_le first with lower | rfl
  · -- the mantissa fills the format at most, so rounding makes it one digit longer at most
    have room : share * whole < 2 ^ (middle - (exponent - places)).toNat * 2 ^ 53 := by
      rw [← Nat.pow_add]
      exact Nat.lt_of_lt_of_le Nat.lt_log2_self (Nat.pow_le_pow_right Nat.two_pos (by omega))
    have quotient := Nat.div_lt_of_lt_mul room
    have length := log2_mono (Nat.le_trans size quotient)
    rw [Nat.log2_two_pow] at length
    omega
  · -- all places were cut off, and what is left is below the mantissa of the whole
    have cut : (middle - (middle - (places : Int))).toNat = places := by omega
    rw [cut] at size ⊢
    have quotient := Nat.div_lt_of_lt_mul (Nat.mul_lt_mul_of_pos_right below positive)
    have length := log2_mono (Nat.le_trans size quotient)
    omega

end

/-! ## Products -/

/-- One, unpacked. -/
theorem unpack_one : (1 : Float).toModel.unpack = .finite .positive (2 ^ 52) (-52) (by decide) := by
  rfl

/-- A real between zero and one is zero, or its mantissa has less places than stand behind
the point. -/
theorem share_of_lt_one {x : Float} (above : 0 ≤ x) (below : x < 1) :
    (∃ sign, x.toModel.unpack = .zero sign) ∨ ∃ sign mantissa positive places,
      x.toModel.unpack = .finite sign mantissa (-(places : Nat)) positive ∧ mantissa < 2 ^ places := by
  have unsigned := notNegative_of_le above
  have order : (x.toModel.unpack.lt (1 : Float).toModel.unpack) = true := of_decide_eq_true below
  rw [unpack_one] at order
  cases unpacked : x.toModel.unpack with
  | notANumber =>
    rw [unpacked] at order
    cases order
  | infinity sign =>
    rw [unpacked] at order unsigned
    obtain rfl : sign = .positive := unsigned
    cases order
  | zero sign => exact .inl ⟨sign, rfl⟩
  | finite sign mantissa exponent positive =>
    rw [unpacked] at order unsigned
    obtain rfl : sign = .positive := unsigned
    have canonical := unpack_canonical _ unpacked
    unfold Canonical at canonical
    rw [targetExponent_eq, totalExponent] at canonical
    have digits : mantissa < 2 ^ (mantissa.log2 + 1) := Nat.lt_log2_self
    change (some ((compare exponent (-52)).then (compare mantissa (2 ^ 52))) == some .lt) = true
      at order
    have lower := Ordering.then_eq_lt.1 (Option.some.inj (beq_iff_eq.1 order))
    rw [compare_lt_iff_lt, compare_eq_iff_eq, compare_lt_iff_lt] at lower
    refine .inr ⟨.positive, mantissa, positive, (-exponent).toNat, ?_, ?_⟩
    · simp only [UnpackedFloat.finite.injEq, true_and]
      omega
    · rcases lower with lower | ⟨rfl, small⟩
      · exact Nat.lt_of_lt_of_le digits (Nat.pow_le_pow_right Nat.two_pos (by omega))
      · exact small

theorem isFinite_mul_share {x y : Float} (above : 0 ≤ x) (below : x < 1)
    (finite : y.toModel.unpack.isFinite = true) : (x * y).toModel.unpack.isFinite = true := by
  change (Float.Model.pack (UnpackedFloat.mul Format.binary64 x.toModel.unpack
    y.toModel.unpack)).unpack.isFinite = true
  have zero (sign : Sign) : (Float.Model.pack (.zero sign)).unpack.isFinite = true := by
    rw [unpack_packed_zero]
    rfl
  rcases share_of_lt_one above below with ⟨_, is⟩ | ⟨sign, share, positive, places, is, small⟩
  · rw [is]
    cases other : y.toModel.unpack with
    | zero _ => exact zero _
    | finite _ _ _ _ => exact zero _
    | _ =>
      rw [other] at finite
      cases finite
  · rw [is]
    cases unpacked : y.toModel.unpack with
    | zero _ => exact zero _
    | finite other whole exponent nonzero =>
      change (Float.Model.pack (roundWithAccuracy Format.binary64 (sign * other) (share * whole)
        (-(places : Int) + exponent) .exact)).unpack.isFinite = true
      rw [Int.add_comm, ← Int.sub_eq_add_neg]
      cases rounded : roundWithAccuracy Format.binary64 (sign * other) (share * whole)
        (exponent - places) .exact with
      | zero _ => exact zero _
      | finite _ mantissa last _ =>
        apply isFinite_packed
        exact Int.le_trans (exponent_share_le small nonzero (unpack_canonical _ unpacked) rounded)
          (exponent_le_of_unpack unpacked)
      | _ =>
        unfold roundWithAccuracy at rounded
        simp only at rounded
        split at rounded <;> cases rounded
    | _ =>
      rw [unpacked] at finite
      cases finite

/-! ## Integers as reals -/

theorem isNaN_roundWithAccuracy (sign : Sign) (mantissa : Nat) (exponent : Int)
    (accuracy : Accuracy) :
    (roundWithAccuracy Format.binary64 sign mantissa exponent accuracy).isNaN = false := by
  unfold roundWithAccuracy
  simp only
  split <;> rfl

theorem isNaN_of_isFinite {x : UnpackedFloat} (finite : x.isFinite = true) : x.isNaN = false := by
  cases x with
  | notANumber => cases finite
  | _ => rfl

theorem isNaN_packed {x : UnpackedFloat} (defined : x.isNaN = false) :
    (Float.Model.pack x).unpack.isNaN = false := by
  cases x with
  | notANumber => cases defined
  | zero sign => cases sign <;> rfl
  | infinity sign => cases sign <;> rfl
  | finite sign mantissa exponent positive =>
    by_cases low : exponent ≤ 971
    · exact isNaN_of_isFinite (isFinite_packed low)
    · have infinite : UnpackedFloat.pack Format.binary64 (.finite sign mantissa exponent positive) =
          packedInfinity Format.binary64 sign := by
        have bias : Format.binary64.exponentBias = 1023 := rfl
        simp only [UnpackedFloat.pack, bias]
        rw [if_pos]
        change 2 ^ 11 ≤ (exponent + 1023 + 52).toNat + 1
        omega
      change (UnpackedFloat.unpack Format.binary64
        (UnpackedFloat.pack Format.binary64 (.finite sign mantissa exponent positive))).isNaN = false
      rw [infinite]
      cases sign <;> rfl

theorem isNaN_mul_finite {x : UnpackedFloat} (defined : x.isNaN = false) (sign : Sign)
    {mantissa : Nat} (exponent : Int) (positive : 0 < mantissa) :
    (UnpackedFloat.mul Format.binary64 x (.finite sign mantissa exponent positive)).isNaN =
      false := by
  cases x with
  | notANumber => cases defined
  | zero sign => rfl
  | infinity sign => rfl
  | finite other digits place nonzero => exact isNaN_roundWithAccuracy _ _ _ _

theorem isNaN_ofInt (n : Int) : (UnpackedFloat.ofInt Format.binary64 n).isNaN = false := by
  unfold UnpackedFloat.ofInt UnpackedFloat.normalize
  split
  · exact isNaN_roundWithAccuracy _ _ _ _
  · rfl
  · exact isNaN_roundWithAccuracy _ _ _ _

theorem isNaN_ofScientific (n : Nat) :
    (UnpackedFloat.ofScientific Format.binary64 n 0).isNaN = false := by
  unfold UnpackedFloat.ofScientific
  split
  · rfl
  · split
    · rfl
    · split
      · rfl
      · rw [if_pos (Int.le_refl 0)]
        exact isNaN_mul_finite rfl _ _ _

theorem isNaN_ofNat (n : Nat) : (Float.ofNat n).toModel.unpack.isNaN = false := by
  change (Float.ofScientific n false 0).toModel.unpack.isNaN = false
  unfold Float.ofScientific
  split
  · have one : (Float.exactlyRepresentablePowersOfTen[0]).toModel.unpack =
        .finite .positive (2 ^ 52) (-52) (by decide) := rfl
    have packed (m : UInt64) : m.toFloat.toModel.unpack.isNaN = false :=
      isNaN_packed (isNaN_ofInt (m.toNat : Int))
    have product (m : UInt64) : (UnpackedFloat.mul Format.binary64 m.toFloat.toModel.unpack
        (Float.exactlyRepresentablePowersOfTen[0]).toModel.unpack).isNaN = false := by
      rw [one]
      exact isNaN_mul_finite (packed m) _ _ _
    exact isNaN_packed (product _)
  · change (Float.Model.pack (UnpackedFloat.ofScientific Format.binary64 n
      (if false = true then Int.negOfNat 0 else Int.ofNat 0))).unpack.isNaN = false
    rw [if_neg Bool.false_ne_true]
    exact isNaN_packed (isNaN_ofScientific n)

end Real64

namespace Number

/-- An integer that can be converted to a real becomes a finite one. -/
theorem isFinite_of_toReal {count : Nat} {y : Float}
    (converted : (Number.int count).toReal = .ok y) : y.toModel.unpack.isFinite = true := by
  have defined := Real64.isNaN_ofNat count
  unfold toReal at converted
  simp only at converted
  split at converted
  · cases converted
  · rename_i bounded
    cases converted
    change ¬((Float.ofNat count).toModel.unpack.isInf = true) at bounded
    change (Float.ofNat count).toModel.unpack.isFinite = true
    revert defined bounded
    cases (Float.ofNat count).toModel.unpack with
    | notANumber =>
      intro undefined _
      cases undefined
    | infinity sign => exact fun _ bounded => absurd rfl bounded
    | _ => exact fun _ _ => rfl

theorem notNegative_of_toReal {count : Nat} {y : Float}
    (converted : (Number.int count).toReal = .ok y) : Real64.NotNegative y.toModel.unpack := by
  unfold toReal at converted
  simp only at converted
  split at converted
  · cases converted
  · cases converted
    exact Real64.notNegative_ofNat count

/-- A share is multiplied by an integer as by the real that the integer is converted to. -/
theorem mul_real_int (u : Float) {size : Int} {y : Float}
    (converted : (Number.int size).toReal = .ok y) :
    Number.mul (.real u) (.int size) = .ok (.real (u * y)) := by
  change (do
    let x ← (Number.int size).toReal
    return Number.real (u * x)) = _
  rw [converted]
  rfl

theorem toInteger_ok {x : Float} (finite : x.toModel.unpack.isFinite = true)
    (round : Int → Int → Int) : ∃ n, toInteger round x = .ok n := by
  unfold toInteger Exact.ofReal
  cases unpacked : x.toModel.unpack with
  | zero sign => exact ⟨_, rfl⟩
  | finite sign mantissa exponent positive => cases sign <;> exact ⟨_, rfl⟩
  | _ =>
    rw [unpacked] at finite
    cases finite

/-- A share below one picks a result if the number of results can be converted. -/
theorem pickUniform_ok {minimum greatest : Int} (some : minimum ≤ greatest) {u : Float}
    (above : 0 ≤ u) (below : u < 1) {y : Float}
    (converted : (Number.int (greatest - minimum + 1)).toReal = .ok y) :
    ∃ n : Int, pickUniform minimum (.int greatest) (.real u) = .ok (.int n) := by
  have counted : ∃ count : Nat, greatest - minimum + 1 = (count : Int) :=
    ⟨(greatest - minimum + 1).toNat, by omega⟩
  rcases counted with ⟨count, size⟩
  have product := mul_real_int u converted
  rw [size] at converted
  rcases toInteger_ok (Real64.isFinite_mul_share above below (isFinite_of_toReal converted))
    Exact.truncate with ⟨steps, rounded⟩
  have whole : Number.integerPart Exact.truncate (.real (u * y)) = .ok (.int steps) := by
    change (toInteger Exact.truncate (u * y)).map Number.int = _
    rw [rounded]
    rfl
  rcases mul_notNegative above size product with ⟨_, same, unsigned⟩
  cases same
  rcases pickResult_between some (unsigned.toInteger rounded) with ⟨n, picked, _⟩
  refine ⟨n, ?_⟩
  change (do
    let share ← Number.mul (.real u) (.int (greatest - minimum + 1))
    let steps ← share.integerPart Exact.truncate
    pickResult minimum (.int (greatest - minimum + 1)) steps) = _
  rw [product]
  change (Number.integerPart Exact.truncate (.real (u * y)) >>= _) = _
  rw [whole]
  exact picked

end Number
end DiceNotation
