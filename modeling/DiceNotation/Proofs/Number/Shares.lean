import DiceNotation.Proofs.Roll.Ranges
import Mathlib

namespace DiceNotation

/-!
# Shares of a range

A uniform value is multiplied with the number of results in a range, and the product is
rounded to an integer.  The product may well be rounded up to the number of results, so
the integer is bounded from above by the range.  From below it is bounded by its sign:
neither products nor packing and unpacking bring in a minus sign.
-/

open Float.Model Float.Model.UnpackedFloat

namespace Real64

/-- Whether an unpacked real is zero or has no minus sign, if it is a number at all. -/
def NotNegative : UnpackedFloat → Prop
  | .infinity sign => sign = .positive
  | .finite sign _ _ _ => sign = .positive
  | _ => True

theorem notNegative_components (exponent : BitVec Format.binary64.exponentBits)
    (mantissa : BitVec Format.binary64.mantissaBitsWithoutImplicit) :
    NotNegative (UnpackedFloat.unpack Format.binary64
      (packComponents Format.binary64 .positive exponent mantissa)) := by
  have same : Sign.ofBitVec (unpackSign
      (packComponents Format.binary64 .positive exponent mantissa)) = .positive := by
    rw [unpackSign_packComponents, Sign.ofBitVec_toBitVec]
  simp only [UnpackedFloat.unpack]
  split
  · split
    · exact same
    · trivial
  · split
    · split
      · trivial
      · exact same
    · exact same

theorem NotNegative.packed {x : UnpackedFloat} (above : NotNegative x) :
    NotNegative (Float.Model.pack x).unpack := by
  change NotNegative (UnpackedFloat.unpack Format.binary64 (UnpackedFloat.pack Format.binary64 x))
  cases x with
  | notANumber =>
    simp only [UnpackedFloat.pack, unpack_packedNaN]
    trivial
  | zero sign =>
    simp only [UnpackedFloat.pack, unpack_packedZero]
    trivial
  | infinity sign =>
    obtain rfl : sign = .positive := above
    exact notNegative_components _ _
  | finite sign mantissa exponent positive =>
    obtain rfl : sign = .positive := above
    simp only [UnpackedFloat.pack]
    split
    · exact notNegative_components _ _
    · split
      · exact notNegative_components _ _
      · exact notNegative_components _ _

theorem notNegative_roundWithAccuracy (mantissa : Nat) (exponent : Int) (accuracy : Accuracy) :
    NotNegative (roundWithAccuracy Format.binary64 .positive mantissa exponent accuracy) := by
  simp only [roundWithAccuracy]
  split
  · trivial
  · exact rfl

theorem NotNegative.mul {x y : UnpackedFloat} (left : NotNegative x) (right : NotNegative y) :
    NotNegative (UnpackedFloat.mul Format.binary64 x y) := by
  have both {s t : Sign} (first : s = .positive) (second : t = .positive) : s * t = .positive := by
    rw [first, second]
    rfl
  cases x with
  | notANumber => trivial
  | zero s => cases y <;> trivial
  | infinity s =>
    cases y with
    | infinity t => exact both left right
    | finite t n f _ => exact both left right
    | _ => trivial
  | finite s m e _ =>
    cases y with
    | infinity t => exact both left right
    | finite t n f _ =>
      simp only [UnpackedFloat.mul, both left right]
      exact notNegative_roundWithAccuracy _ _ _
    | _ => trivial

/-! ## Natural numbers as reals -/

theorem notNegative_ofInt {n : Int} (above : 0 ≤ n) :
    NotNegative (UnpackedFloat.ofInt Format.binary64 n) := by
  unfold UnpackedFloat.ofInt UnpackedFloat.normalize
  split
  · rename_i below
    exact absurd (Int.compare_eq_lt.1 below) (Int.not_lt.2 above)
  · trivial
  · simp only [UnpackedFloat.round]
    exact notNegative_roundWithAccuracy _ _ _

theorem notNegative_ofScientific (n : Nat) :
    NotNegative (UnpackedFloat.ofScientific Format.binary64 n 0) := by
  have whole (m : Nat) (e : Int) (positive : 0 < m) :
      NotNegative (.finite .positive m e positive) := rfl
  unfold UnpackedFloat.ofScientific
  split
  · trivial
  · split
    · exact rfl
    · split
      · trivial
      · rw [if_pos (Int.le_refl 0)]
        refine NotNegative.mul ?_ ?_
        · exact whole _ _ _
        · exact whole _ _ _

theorem notNegative_toFloat (n : UInt64) : NotNegative n.toFloat.toModel.unpack := by
  have packed : n.toFloat.toModel =
      Float.Model.pack (UnpackedFloat.ofInt Format.binary64 (n.toNat : Int)) := rfl
  rw [packed]
  exact (notNegative_ofInt (Int.natCast_nonneg _)).packed

theorem notNegative_ofNat (n : Nat) : NotNegative (Float.ofNat n).toModel.unpack := by
  have one : NotNegative (Float.exactlyRepresentablePowersOfTen[0]).toModel.unpack := rfl
  change NotNegative (Float.ofScientific n false 0).toModel.unpack
  unfold Float.ofScientific
  split
  · exact ((notNegative_toFloat _).mul one).packed
  · change NotNegative (Float.Model.pack (UnpackedFloat.ofScientific Format.binary64 n
      (if false = true then Int.negOfNat 0 else Int.ofNat 0))).unpack
    rw [if_neg Bool.false_ne_true]
    exact (notNegative_ofScientific n).packed

/-! ## Order and rounding -/

theorem notNegative_of_le {x : Float} (above : 0 ≤ x) : NotNegative x.toModel.unpack := by
  have zero : (0 : Float).toModel.unpack = .zero .positive := by rfl
  have order : ((0 : Float).toModel.unpack.le x.toModel.unpack) = true := of_decide_eq_true above
  rw [zero] at order
  cases unpacked : x.toModel.unpack with
  | notANumber => trivial
  | zero sign => trivial
  | infinity sign =>
    rw [unpacked] at order
    cases sign
    · cases order
    · exact rfl
  | finite sign mantissa exponent positive =>
    rw [unpacked] at order
    cases sign
    · cases order
    · exact rfl

theorem truncate_nonneg (mantissa : Nat) (exponent : Int) :
    0 ≤ Exact.truncate mantissa exponent := by
  unfold Exact.truncate
  split
  · exact Int.mul_nonneg (Int.natCast_nonneg _) (Int.natCast_nonneg _)
  · exact Int.tdiv_nonneg (Int.natCast_nonneg _) (Int.natCast_nonneg _)

/-- What has no minus sign is not rounded to an integer below zero. -/
theorem NotNegative.toInteger {x : Float} (above : NotNegative x.toModel.unpack) {n : Int}
    (rounded : Number.toInteger Exact.truncate x = .ok n) : 0 ≤ n := by
  unfold Number.toInteger Exact.ofReal at rounded
  cases unpacked : x.toModel.unpack with
  | notANumber =>
    rw [unpacked] at rounded
    cases rounded
  | infinity sign =>
    rw [unpacked] at rounded
    cases sign <;> cases rounded
  | zero sign =>
    rw [unpacked] at rounded
    cases rounded
    exact truncate_nonneg 0 0
  | finite sign mantissa exponent positive =>
    rw [unpacked] at rounded above
    obtain rfl : sign = .positive := above
    cases rounded
    exact truncate_nonneg mantissa exponent

end Real64

namespace Number

theorem least_int (m n : Int) : least (.int m) [.int n] = .int (min m n) := by
  have compared : below (.int n) (.int m) = decide (n < m) := by
    unfold below
    rw [compare?_int]
    unfold compareOfLessAndEq
    split
    · rename_i less
      exact (decide_eq_true less).symm
    · rename_i less
      rw [decide_eq_false less]
      split <;> rfl
  change (if below (.int n) (.int m) = true then Number.int n else .int m) = _
  rw [compared]
  by_cases less : n < m
  · rw [decide_eq_true less, if_pos rfl, Int.min_eq_right (Int.le_of_lt less)]
  · rw [decide_eq_false less, if_neg Bool.false_ne_true, Int.min_eq_left (Int.not_lt.1 less)]

/-- A number of steps that is not below zero leads to a result in the range. -/
theorem pickResult_between {minimum greatest steps : Int} (some : minimum ≤ greatest)
    (above : 0 ≤ steps) : ∃ n : Int, pickResult minimum (.int (greatest - minimum + 1))
      (.int steps) = .ok (.int n) ∧ minimum ≤ n ∧ n ≤ greatest := by
  have last : Number.sub (.int (greatest - minimum + 1)) (.int 1) =
      .ok (.int (greatest - minimum + 1 - 1)) := rfl
  refine ⟨minimum + min steps (greatest - minimum + 1 - 1), ?_, by omega, by omega⟩
  unfold pickResult
  rw [last]
  change Number.add (.int minimum) (least (.int steps) [_]) = _
  rw [least_int]
  rfl

/-- The product of a share with a size has no minus sign either. -/
theorem mul_notNegative {u : Float} (above : 0 ≤ u) {size : Int} {count : Nat} (is : size = count)
    {product : Number} (multiplied : Number.mul (.real u) (.int size) = .ok product) :
    ∃ x, product = .real x ∧ Real64.NotNegative x.toModel.unpack := by
  subst is
  change (do
    let y ← (Number.int count).toReal
    return Number.real (u * y)) = _ at multiplied
  unfold toReal at multiplied
  simp only at multiplied
  split at multiplied
  · cases multiplied
  · cases multiplied
    exact ⟨_, rfl, ((Real64.notNegative_of_le above).mul (Real64.notNegative_ofNat count)).packed⟩

/-- A share that is not below zero picks a result in the range. -/
theorem pickUniform_between {minimum greatest : Int} (some : minimum ≤ greatest) {u : Float}
    (above : 0 ≤ u) {value : Number}
    (picked : pickUniform minimum (.int greatest) (.real u) = .ok value) :
    ∃ n : Int, value = .int n ∧ minimum ≤ n ∧ n ≤ greatest := by
  have size : ∃ count : Nat, greatest - minimum + 1 = (count : Int) :=
    ⟨(greatest - minimum + 1).toNat, by omega⟩
  rcases size with ⟨count, size⟩
  unfold pickUniform at picked
  have range : rangeSize minimum (.int greatest) = .ok (.int (greatest - minimum + 1)) := rfl
  rw [range] at picked
  change (do
    let product ← Number.mul (.real u) (.int (greatest - minimum + 1))
    let steps ← product.integerPart Exact.truncate
    pickResult minimum (.int (greatest - minimum + 1)) steps) = _ at picked
  cases product : Number.mul (.real u) (.int (greatest - minimum + 1)) with
  | error fault =>
    rw [product] at picked
    cases picked
  | ok share =>
    rw [product] at picked
    change (share.integerPart Exact.truncate >>= pickResult minimum _) = _ at picked
    obtain ⟨x, rfl, above⟩ := mul_notNegative above size product
    cases rounded : toInteger Exact.truncate x with
    | error fault =>
      change ((toInteger Exact.truncate x).map Number.int >>= _) = _ at picked
      rw [rounded] at picked
      cases picked
    | ok steps =>
      change ((toInteger Exact.truncate x).map Number.int >>= _) = _ at picked
      rw [rounded] at picked
      rcases pickResult_between some (above.toInteger rounded) with ⟨n, result, between⟩
      exact ⟨n, Except.ok.inj (picked.symm.trans result), between⟩

/-- Whatever is picked from a range of integers is an integer. -/
theorem pickUniform_int {minimum greatest : Int} {u value : Number}
    (picked : pickUniform minimum (.int greatest) u = .ok value) : ∃ n, value = .int n := by
  have whole {x : Number} {steps : Number} (rounded : x.integerPart Exact.truncate = .ok steps) :
      ∃ n, steps = .int n := by
    cases x with
    | int n => exact ⟨n, (Except.ok.inj rounded).symm⟩
    | real x =>
      unfold integerPart at rounded
      dsimp only at rounded
      cases converted : toInteger Exact.truncate x with
      | error fault =>
        rw [converted] at rounded
        cases rounded
      | ok n =>
        rw [converted] at rounded
        exact ⟨n, (Except.ok.inj rounded).symm⟩
  unfold pickUniform at picked
  have range : rangeSize minimum (.int greatest) = .ok (.int (greatest - minimum + 1)) := rfl
  rw [range] at picked
  change (u.mul (.int (greatest - minimum + 1)) >>= fun product =>
    product.integerPart Exact.truncate >>= pickResult minimum _) = _ at picked
  cases multiplied : u.mul (.int (greatest - minimum + 1)) with
  | error fault =>
    rw [multiplied] at picked
    cases picked
  | ok product =>
    rw [multiplied] at picked
    change (product.integerPart Exact.truncate >>= pickResult minimum _) = _ at picked
    cases rounded : product.integerPart Exact.truncate with
    | error fault =>
      rw [rounded] at picked
      cases picked
    | ok steps =>
      rw [rounded] at picked
      obtain ⟨n, rfl⟩ := whole rounded
      change Number.add (.int minimum)
        (least (.int n) [.int (greatest - minimum + 1 - 1)]) = _ at picked
      rw [least_int] at picked
      exact ⟨_, (Except.ok.inj picked).symm⟩

end Number
end DiceNotation
