import DiceNotation.Proofs.Number.Amounts
import DiceNotation.Proofs.Number.Products
import DiceNotation.Roll.Total

namespace DiceNotation

/-!
# Integers that are reals

Sums, differences and products of integers stay integers of any size.  Quotients and remainders
are taken as reals.  So they are as exact as reals are: an integer is a real if no more than 53
binary digits stand between its first and its last one, and if it is below the largest power.

Every conversion, division and remainder rounds, but what is a real is rounded to itself.  It is
followed here through the mantissa and the exponent.
-/

open Float.Model Float.Model.UnpackedFloat

namespace Real64

/-! ## Mantissas -/

theorem log2_mul_two_pow {m : Nat} (positive : 0 < m) (k : Nat) :
    (m * 2 ^ k).log2 = m.log2 + k := by
  have low := Nat.mul_le_mul_right (2 ^ k) (Nat.log2_self_le positive.ne')
  have high := Nat.mul_lt_mul_of_pos_right (Nat.lt_log2_self (n := m)) (Nat.two_pow_pos k)
  rw [← Nat.pow_add] at low high
  rw [Nat.log2_eq_iff (Nat.mul_ne_zero positive.ne' (Nat.two_pow_pos k).ne')]
  exact ⟨low, by rwa [Nat.add_right_comm]⟩

/-- The places by which a mantissa is shorter than the format. -/
def room (m : Nat) : Nat := 52 - m.log2

/-- A mantissa brought to the width of the format. -/
def wide (m : Nat) : Nat := m * 2 ^ room m

section

variable {m : Nat} (positive : 0 < m) (short : m < 2 ^ 53)

include positive in
theorem wide_pos : 0 < wide m := Nat.mul_pos positive (Nat.two_pow_pos _)

include positive short

theorem log2_le : m.log2 ≤ 52 := Nat.le_of_lt_succ ((Nat.log2_lt positive.ne').2 short)

theorem log2_wide : (wide m).log2 = 52 := by
  have := log2_le positive short
  rw [wide, log2_mul_two_pow positive, room]
  omega

theorem canonical_wide {e : Int} (above : -1074 ≤ e) : Canonical (wide m) e := by
  unfold Canonical
  rw [targetExponent_eq, totalExponent, log2_wide positive short]
  omega

/-- A short mantissa is widened by rounding, and nothing else. -/
theorem round_wide (sign : Sign) (k : Nat) {e : Int} (above : -1000 ≤ e) :
    UnpackedFloat.round Format.binary64 sign (m * 2 ^ k) e =
      .finite sign (wide m) (e + k - room m) (wide_pos positive) := by
  have digits := log2_le positive short
  have canonical : Canonical (wide m) (e + k - room m) :=
    canonical_wide positive short (by unfold room; omega)
  have target : Format.binary64.targetExponent (totalExponent (m * 2 ^ k) e) =
      e + k - room m := by
    rw [targetExponent_eq, totalExponent, log2_mul_two_pow positive, room]
    push_cast
    omega
  unfold UnpackedFloat.round decreaseExponent
  simp only [target, Nat.shiftLeft_eq]
  rcases Nat.le_total k (room m) with few | many
  · -- the mantissa is widened
    have amount : (e - (e + k - room m)).toNat = room m - k := by omega
    have widened : m * 2 ^ k * 2 ^ (room m - k) = wide m * 2 ^ 0 := by
      rw [wide, Nat.mul_assoc, ← Nat.pow_add, Nat.add_sub_of_le few, Nat.pow_zero, Nat.mul_one]
    have place : e - ((room m - k : Nat) : Int) = e + k - room m - (0 : Nat) := by omega
    rw [amount, widened, place]
    exact roundWithAccuracy_canonical (wide_pos positive) canonical sign 0
  · -- the mantissa is long enough, and its last places are all zero
    have amount : (e - (e + k - room m)).toNat = 0 := by omega
    have narrowed : m * 2 ^ k * 2 ^ 0 = wide m * 2 ^ (k - room m) := by
      rw [Nat.pow_zero, Nat.mul_one, wide, Nat.mul_assoc, ← Nat.pow_add, Nat.add_sub_of_le many]
    have place : e - ((0 : Nat) : Int) = e + k - room m - ((k - room m : Nat) : Int) := by omega
    rw [amount, narrowed, place]
    exact roundWithAccuracy_canonical (wide_pos positive) canonical sign _

/-- A real with a wide mantissa is packed and unpacked without a loss. -/
theorem unpack_wide (sign : Sign) {e : Int} (above : -1074 ≤ e) (below : e ≤ 971) :
    (Float.Model.pack (.finite sign (wide m) e (wide_pos positive))).unpack =
      .finite sign (wide m) e (wide_pos positive) := by
  have digits := log2_wide positive short
  have leads : 2 ^ 52 ≤ wide m ∧ wide m < 2 ^ 53 :=
    (Nat.log2_eq_iff (wide_pos positive).ne').1 digits
  obtain ⟨fraction, split⟩ : ∃ fraction : BitVec 52, wide m = 2 ^ 52 + fraction.toNat := by
    refine ⟨BitVec.ofNat 52 (wide m - 2 ^ 52), ?_⟩
    rw [BitVec.toNat_ofNat, Nat.mod_eq_of_lt (by omega)]
    omega
  obtain ⟨exponent, biased⟩ : ∃ exponent : BitVec 11, e + 1023 + 52 = exponent.toNat := by
    refine ⟨BitVec.ofNat 11 (e + 1023 + 52).toNat, ?_⟩
    rw [BitVec.toNat_ofNat, Nat.mod_eq_of_lt (by omega)]
    omega
  have notTop : exponent ≠ -1#11 := by
    rintro rfl
    change e + 1023 + 52 = 2047 at biased
    omega
  have notLeast : exponent ≠ 0#11 := by
    rintro rfl
    change e + 1023 + 52 = 0 at biased
    omega
  have whole : (1#1 ++ fraction).toNat = wide m := by
    rw [BitVec.toNat_append, ← Nat.shiftLeft_add_eq_or_of_lt fraction.isLt, split]
    rfl
  have place : (exponent.toNat : Int) - (1023 + 52) = e := by omega
  change UnpackedFloat.unpack Format.binary64 (UnpackedFloat.pack Format.binary64 _) = _
  rw [pack_normal sign exponent fraction biased (by omega) split]
  unfold UnpackedFloat.unpack
  simp only [unpackExponent_packComponents, unpackMantissa_packComponents,
    unpackSign_packComponents, Sign.ofBitVec_toBitVec, notTop, notLeast, if_false,
    UnpackedFloat.finite.injEq, true_and]
  exact ⟨whole, place⟩

end

end Real64

namespace Exact

/-! ## The integer that a real is -/

/-- Whether a mantissa and an exponent make up an integer. -/
def IsWhole (m e n : Int) : Prop := (finite m e).amount = ((n : ℝ) : EReal)

theorem isWhole_iff {m e n : Int} : IsWhole m e n ↔ (m * 2 ^ e : ℝ) = n := EReal.coe_eq_coe_iff

namespace IsWhole

variable {m e n : Int}

theorem of_natCast (m : Int) (k : Nat) : IsWhole m k (m * 2 ^ k) := by
  rw [isWhole_iff, zpow_natCast]
  push_cast
  rfl

/-- Digits are moved without a change of the integer. -/
theorem scaled (whole : IsWhole m e n) {least : Int} (below : least ≤ e) :
    IsWhole (m * Number.twoTo (e - least).toNat) least n :=
  isWhole_iff.2 ((shifted m e least below).trans (isWhole_iff.1 whole))

theorem eq_mul (whole : IsWhole m e n) (above : 0 ≤ e) : n = m * Number.twoTo e.toNat := by
  have moved := whole.scaled above
  rw [isWhole_iff, zpow_zero, mul_one, Int.cast_inj, Int.sub_zero] at moved
  exact moved.symm

theorem mul_eq (whole : IsWhole m e n) (below : e ≤ 0) : n * Number.twoTo (-e).toNat = m := by
  have moved := shifted n 0 e below
  rw [zpow_zero, mul_one, ← isWhole_iff.1 whole,
    mul_left_inj' (zpow_ne_zero e two_ne_zero), Int.cast_inj, Int.zero_sub] at moved
  exact moved

theorem natAbs (whole : IsWhole m e n) : IsWhole m.natAbs e n.natAbs := by
  have scale : (0 : ℝ) < 2 ^ e := zpow_pos two_pos e
  rw [isWhole_iff] at *
  rw [Int.natCast_natAbs, Int.natCast_natAbs, Int.cast_abs, Int.cast_abs, ← whole, abs_mul,
    abs_of_pos scale]

theorem twoTo_pos (k : Nat) : (0 : Int) < Number.twoTo k := by
  exact_mod_cast Nat.two_pow_pos k

/-- An integer is read without rounding. -/
theorem truncate_eq (whole : IsWhole m e n) : truncate m e = n := by
  unfold truncate
  split
  · rename_i above
    exact (whole.eq_mul above).symm
  · rename_i below
    rw [← whole.mul_eq (by omega), Int.mul_tdiv_cancel _ (twoTo_pos _).ne']

/-- The remainder of mantissas at one exponent is that of the integers. -/
theorem tmod {other k : Int} (whole : IsWhole m e n) (second : IsWhole other e k) :
    IsWhole (m.tmod other) e (n.tmod k) := by
  rcases Int.le_total 0 e with above | below
  · have power : (m.tmod other) * Number.twoTo e.toNat = n.tmod k := by
      rw [whole.eq_mul above, second.eq_mul above, Int.mul_comm m, Int.mul_comm other,
        Int.mul_tmod_mul_of_pos _ _ (twoTo_pos _), Int.mul_comm]
    have moved := shifted (m.tmod other) e 0 above
    rw [Int.sub_zero, power, zpow_zero, mul_one] at moved
    exact isWhole_iff.2 moved.symm
  · have power : (n.tmod k) * Number.twoTo (-e).toNat = m.tmod other := by
      rw [← whole.mul_eq below, ← second.mul_eq below, Int.mul_comm n, Int.mul_comm k,
        Int.mul_tmod_mul_of_pos _ _ (twoTo_pos _), Int.mul_comm]
    have moved := shifted (n.tmod k) 0 e below
    rw [Int.zero_sub, power, zpow_zero, mul_one] at moved
    exact isWhole_iff.2 moved

end IsWhole

end Exact

namespace Real64

/-- The sign of an integer, as reals have it. -/
def signOf (n : Int) : Sign := if n < 0 then .negative else .positive

theorem signOf_div {a b c : Int} (product : a = b * c) (nonzero : a ≠ 0) :
    signOf a / signOf b = signOf c := by
  subst product
  obtain ⟨first, second⟩ := mul_ne_zero_iff.1 nonzero
  unfold signOf
  rcases Int.lt_or_lt_of_ne first with below | above <;>
    rcases Int.lt_or_lt_of_ne second with under | beyond
  · rw [if_pos below, if_pos under, if_neg (Int.not_lt.2 (Int.mul_pos_of_neg_of_neg below under).le)]
    rfl
  · rw [if_pos below, if_neg beyond.asymm, if_pos (Int.mul_neg_of_neg_of_pos below beyond)]
    rfl
  · rw [if_neg above.asymm, if_pos under, if_pos (Int.mul_neg_of_pos_of_neg above under)]
    rfl
  · rw [if_neg above.asymm, if_neg beyond.asymm, if_neg (Int.mul_pos above beyond).asymm]
    rfl

theorem sign_of_unpack {bits : BitVec Format.binary64.numBits} {sign : Sign} {m : Nat} {e : Int}
    {positive : 0 < m}
    (unpacked : UnpackedFloat.unpack Format.binary64 bits = .finite sign m e positive) :
    sign = Sign.ofBitVec (unpackSign bits) := by
  simp only [UnpackedFloat.unpack] at unpacked
  split at unpacked
  · split at unpacked <;> cases unpacked
  · split at unpacked
    · split at unpacked
      · cases unpacked
      · injection unpacked with same
        exact same.symm
    · injection unpacked with same
      exact same.symm

/-- The first bit is the sign. -/
theorem firstBit_eq (bits : UInt64) {unpacked : BitVec Format.binary64.numBits}
    (same : unpacked = bits.toBitVec) :
    (bits >>> 63 == 1) = (Sign.ofBitVec (unpackSign unpacked) == .negative) := by
  have bound : bits.toNat < 2 ^ 64 := bits.toNat_lt
  have first : (unpackSign unpacked).toNat = (bits >>> 63).toNat := by
    rw [same, UInt64.toNat_shiftRight]
    change (bits.toNat >>> 63) % 2 = bits.toNat >>> 63
    rw [Nat.shiftRight_eq_div_pow]
    omega
  have set : (bits >>> 63 == 1) = (unpackSign unpacked == 1#1) := by
    rw [Bool.eq_iff_iff, beq_iff_eq, beq_iff_eq, ← UInt64.toNat_inj, ← first, ← BitVec.toNat_inj]
    rfl
  rw [set]
  generalize unpackSign unpacked = bit
  revert bit
  decide

/-- The sign of a real that is not zero can be read off its bits. -/
theorem isNegative_of_unpack {x : Float} {sign : Sign} {m : Nat} {e : Int} {positive : 0 < m}
    (unpacked : x.toModel.unpack = .finite sign m e positive) :
    Number.isNegative x = (sign == .negative) := by
  rw [sign_of_unpack unpacked]
  exact firstBit_eq x.toModel.toBits rfl

/-! ## Integers that are reals -/

/-- A whole number without an exponent is taken as it is. -/
theorem ofScientific_eq {n : Nat} (above : 0 < n) :
    UnpackedFloat.ofScientific Format.binary64 n 0 =
      roundWithAccuracy Format.binary64 .positive (n * 2 ^ 53) (-((53 : Nat) : Int)) .exact := by
  have low : ¬(0 : Int) < -((2 ^ 11 : Int) + n.log2) := by omega
  have digits : n <<< Format.binary64.mantissaBits * 10 ^ (0 : Int).toNat = n * 2 ^ 53 := by
    rw [Nat.shiftLeft_eq]
    exact Nat.mul_one _
  unfold UnpackedFloat.ofScientific
  rw [dif_neg above.ne', if_neg (by decide), if_neg low, if_pos (Int.le_refl 0),
    UnpackedFloat.mul, digits]
  rfl

/-- The exponent that goes with a wide mantissa of an integer. -/
def placeOf (m k : Nat) : Int := k - room m

theorem placeOf_bounds {m k : Nat} (positive : 0 < m) (short : m < 2 ^ 53)
    (bounded : m.log2 + k < 1024) : -52 ≤ placeOf m k ∧ placeOf m k ≤ 971 := by
  have digits := log2_le positive short
  unfold placeOf room
  omega

section

variable {m k : Nat} (positive : 0 < m) (short : m < 2 ^ 53) (bounded : m.log2 + k < 1024)

include short bounded

/-- What is rounded to a wide mantissa is unpacked as it was rounded. -/
theorem unpack_placed (sign : Sign) :
    (Float.Model.pack (.finite sign (wide m) (placeOf m k) (wide_pos positive))).unpack =
      .finite sign (wide m) (placeOf m k) (wide_pos positive) := by
  obtain ⟨above, below⟩ := placeOf_bounds positive short bounded
  exact unpack_wide positive short sign (by omega) below

/-- A product that is an integer of the format is rounded to it. -/
theorem roundWithAccuracy_placed (sign : Sign) {places : Nat} (enough : room m ≤ k + places) :
    roundWithAccuracy Format.binary64 sign (m * 2 ^ k * 2 ^ places) (-(places : Int)) .exact =
      .finite sign (wide m) (placeOf m k) (wide_pos positive) := by
  have canonical : Canonical (wide m) (placeOf m k) :=
    canonical_wide positive short (by have := placeOf_bounds positive short bounded; omega)
  have narrowed : m * 2 ^ k * 2 ^ places = wide m * 2 ^ (k + places - room m) := by
    rw [wide, Nat.mul_assoc, Nat.mul_assoc, ← Nat.pow_add, ← Nat.pow_add,
      Nat.add_sub_of_le enough]
  have place : -(places : Int) = placeOf m k - ((k + places - room m : Nat) : Int) := by
    unfold placeOf
    omega
  rw [narrowed, place]
  exact roundWithAccuracy_canonical (wide_pos positive) canonical sign _

/-- An integer of the format is converted without rounding. -/
theorem unpack_ofNat : (Float.ofNat (m * 2 ^ k)).toModel.unpack =
    .finite .positive (wide m) (placeOf m k) (wide_pos positive) := by
  have above : 0 < m * 2 ^ k := Nat.mul_pos positive (Nat.two_pow_pos k)
  have packed := unpack_placed positive short bounded .positive
  change (Float.ofScientific (m * 2 ^ k) false 0).toModel.unpack = _
  unfold Float.ofScientific
  split
  · rename_i small
    have converted : (m * 2 ^ k).toUInt64.toFloat.toModel.unpack =
        .finite .positive (wide m) (placeOf m k) (wide_pos positive) := by
      have whole : (m * 2 ^ k).toUInt64.toNat = m * 2 ^ k := Nat.mod_eq_of_lt (by omega)
      change (Float.Model.pack (UnpackedFloat.normalize Format.binary64
        (((m * 2 ^ k).toUInt64.toNat : Nat) : Int) 0 .positive)).unpack = _
      rw [whole, UnpackedFloat.normalize, Int.compare_eq_gt.2 (by exact_mod_cast above)]
      simp only [Int.toNat_natCast]
      rw [round_wide positive short .positive k (by decide), Int.zero_add]
      exact packed
    have one : (Float.exactlyRepresentablePowersOfTen[0]).toModel.unpack =
        .finite .positive (2 ^ 52) (-52) (by decide) := rfl
    change (Float.Model.pack (UnpackedFloat.mul Format.binary64
      (m * 2 ^ k).toUInt64.toFloat.toModel.unpack
      (Float.exactlyRepresentablePowersOfTen[0]).toModel.unpack)).unpack = _
    rw [converted, one]
    change (Float.Model.pack (roundWithAccuracy Format.binary64 .positive (wide m * 2 ^ 52)
      (placeOf m k - (52 : Nat)) .exact)).unpack = _
    rw [roundWithAccuracy_canonical (wide_pos positive)
      (canonical_wide positive short (by have := placeOf_bounds positive short bounded; omega))]
    exact packed
  · change (Float.Model.pack (UnpackedFloat.ofScientific Format.binary64 (m * 2 ^ k) 0)).unpack = _
    rw [ofScientific_eq above,
      roundWithAccuracy_placed positive short bounded .positive (by unfold room; omega)]
    exact packed

end

/-- Whether a real stands for an integer, in digits that the format has. -/
structure Stands (x : Float) (m e n : Int) : Prop where
  exact : Exact.ofReal x = .finite m e
  whole : Exact.IsWhole m e n
  short : m.natAbs < 2 ^ 53
  below : e ≤ 971
  sign : n ≠ 0 → Number.isNegative x = decide (n < 0)

/-- A real that stands for an integer is read as this integer. -/
theorem Stands.toInteger {x : Float} {m e n : Int} (stands : Stands x m e n) :
    Number.toInteger Exact.truncate x = .ok n := by
  unfold Number.toInteger
  rw [stands.exact]
  exact congrArg Except.ok stands.whole.truncate_eq

theorem stands_zero {x : Float} (sign : Sign) (unpacked : x.toModel.unpack = .zero sign) :
    Stands x 0 0 0 where
  exact := by
    unfold Exact.ofReal
    rw [unpacked]
  whole := by simp [Exact.isWhole_iff]
  short := by decide
  below := by decide
  sign := fun nonzero => absurd rfl nonzero

/-- The mantissa of an integer, with its sign. -/
def signed (n : Int) (m : Nat) : Int := if n < 0 then -m else m

theorem isWhole_signed {n e : Int} {m : Nat} (whole : Exact.IsWhole m e n.natAbs) :
    Exact.IsWhole (signed n m) e n := by
  rw [Exact.isWhole_iff] at *
  unfold signed
  split
  · rename_i negative
    have opposite : n = -(n.natAbs : Int) := by omega
    rw [opposite, Int.cast_neg, Int.cast_neg, neg_mul, whole]
  · rename_i notNegative
    have same : n = (n.natAbs : Int) := by omega
    rw [same, whole]

theorem stands_of_unpack {x : Float} {n e : Int} {m : Nat} (positive : 0 < m) (short : m < 2 ^ 53)
    (unpacked : x.toModel.unpack = .finite (signOf n) (wide m) (e - room m) (wide_pos positive))
    (whole : Exact.IsWhole m e n.natAbs) (below : e - room m ≤ 971) :
    Stands x (signed n (wide m)) (e - room m) n where
  exact := by
    unfold Exact.ofReal signOf at *
    rw [unpacked]
    by_cases negative : n < 0
    · simp only [negative, if_true, signed]
    · simp only [negative, if_false, signed]
  whole := by
    refine isWhole_signed ?_
    have moved := whole.scaled (Int.sub_le_self e (Int.natCast_nonneg (room m)))
    have places : (e - (e - room m)).toNat = room m := by omega
    rw [places] at moved
    exact_mod_cast moved
  short := by
    have digits := log2_wide positive short
    have size := ((Nat.log2_eq_iff (wide_pos positive).ne').1 digits).2
    unfold signed
    split <;> simpa using size
  below := below
  sign := by
    intro _
    rw [isNegative_of_unpack unpacked, signOf]
    by_cases negative : n < 0
    · simp [negative]
    · simp [negative]

end Real64

namespace Number

/-- Whether an integer is a real: it has no more digits than the format from its first one to
its last, and it is not too large. -/
structure IsReal (n : Int) : Prop where
  digits : ∃ m k : Nat, n.natAbs = m * 2 ^ k ∧ m < 2 ^ 53
  bounded : n.natAbs.log2 < 1024

namespace IsReal

variable {n : Int}

theorem exists_short (isReal : IsReal n) (nonzero : n ≠ 0) : ∃ m k : Nat,
    0 < m ∧ m < 2 ^ 53 ∧ n.natAbs = m * 2 ^ k ∧ m.log2 + k < 1024 := by
  obtain ⟨m, k, whole, short⟩ := isReal.digits
  have positive : 0 < m := by
    refine Nat.pos_of_ne_zero ?_
    rintro rfl
    rw [Nat.zero_mul] at whole
    exact nonzero (Int.natAbs_eq_zero.1 whole)
  refine ⟨m, k, positive, short, whole, ?_⟩
  rw [← Real64.log2_mul_two_pow positive, ← whole]
  exact isReal.bounded

/-- An integer that is a real is converted to itself. -/
theorem toReal_stands (isReal : IsReal n) :
    ∃ x m e, toReal (.int n) = .ok x ∧ Real64.Stands x m e n ∧ -52 ≤ e := by
  have finite {x : Float} {m e : Int} (is : Float.ofInt n = x) (stands : Real64.Stands x m e n) :
      toReal (.int n) = .ok x := by
    have bounded : x.isInf = false := by
      change x.toModel.unpack.isInf = false
      have exact := stands.exact
      unfold Exact.ofReal at exact
      cases unpacked : x.toModel.unpack with
      | infinity sign =>
        rw [unpacked] at exact
        cases sign <;> cases exact
      | _ => rfl
    unfold toReal
    simp only [is, bounded, Bool.false_eq_true, if_false]
  by_cases zero : n = 0
  · subst zero
    have stands := Real64.stands_zero (x := Float.ofInt 0) .positive rfl
    exact ⟨_, _, _, finite rfl stands, stands, by decide⟩
  · obtain ⟨m, k, positive, short, whole, bounded⟩ := isReal.exists_short zero
    have unpacked : (Float.ofInt n).toModel.unpack =
        .finite (Real64.signOf n) (Real64.wide m) (Real64.placeOf m k)
          (Real64.wide_pos positive) := by
      have converted := Real64.unpack_ofNat positive short bounded
      rw [← whole] at converted
      cases n with
      | ofNat n => exact converted
      | negSucc n =>
        change (-(Float.ofNat (n + 1))).toModel.unpack = _
        rw [Real64.unpack_neg]
        change (Float.ofNat (n + 1)).toModel.unpack = _ at converted
        rw [converted, Real64.signOf, if_pos (Int.negSucc_lt_zero n)]
        rfl
    have exact : Exact.IsWhole m k n.natAbs := by
      rw [whole]
      exact_mod_cast Exact.IsWhole.of_natCast m k
    obtain ⟨above, below⟩ := Real64.placeOf_bounds positive short bounded
    have stands := Real64.stands_of_unpack positive short unpacked exact below
    exact ⟨_, _, _, finite rfl stands, stands, above⟩

theorem of_natAbs {m k : Nat} (whole : n.natAbs = m * 2 ^ k) (short : m < 2 ^ 53)
    (bounded : k ≤ 971) : IsReal n := by
  refine ⟨⟨m, k, whole, short⟩, ?_⟩
  rw [whole]
  rcases Nat.eq_zero_or_pos m with rfl | positive
  · rw [Nat.zero_mul]
    decide
  · have digits := Real64.log2_le positive short
    rw [Real64.log2_mul_two_pow positive]
    omega

/-- What a real is truncated to is a real. -/
theorem of_truncate {sign : Sign} {m : Nat} {e : Int} {positive : 0 < m} {x : Float}
    (unpacked : x.toModel.unpack = .finite sign m e positive) {given : Int}
    (same : given.natAbs = m) : IsReal (Exact.truncate given e) := by
  have canonical := Real64.unpack_canonical _ unpacked
  have low := Real64.exponent_le_of_unpack unpacked
  rw [Real64.Canonical, Real64.targetExponent_eq, totalExponent] at canonical
  have short : m < 2 ^ 53 := (Nat.log2_lt positive.ne').1 (by omega)
  unfold Exact.truncate
  split
  · rename_i above
    refine of_natAbs ?_ short (show e.toNat ≤ 971 by omega)
    rw [Int.natAbs_mul, same]
    rfl
  · rename_i below
    refine of_natAbs (k := 0) (Nat.mul_one _).symm ?_ (Nat.zero_le _)
    rw [Int.natAbs_tdiv, same]
    exact Nat.lt_of_le_of_lt (Nat.div_le_self _ _) short

/-- What a real is read as is a real. -/
theorem of_toInteger {x : Float} (read : toInteger Exact.truncate x = .ok n) : IsReal n := by
  unfold toInteger Exact.ofReal at read
  cases unpacked : x.toModel.unpack with
  | notANumber =>
    rw [unpacked] at read
    cases read
  | infinity sign =>
    rw [unpacked] at read
    cases sign <;> cases read
  | zero sign =>
    rw [unpacked] at read
    cases read
    exact of_natAbs (m := 0) (k := 0) rfl (by decide) (by decide)
  | finite sign m e positive =>
    rw [unpacked] at read
    cases sign with
    | positive =>
      cases read
      exact of_truncate unpacked (Int.natAbs_natCast m)
    | negative =>
      cases read
      exact of_truncate unpacked (by rw [Int.natAbs_neg, Int.natAbs_natCast])

end IsReal

/-! ## Quotients -/

/-- The division of natural numbers without a rest yields all digits of the quotient. -/
theorem divCore_eq {q b : Nat} (some : 0 < q) (nonzero : 0 < b) :
    ∃ places : Nat, 52 ≤ q.log2 + places ∧ divCore Format.binary64 (q * b) 0 b 0 =
      (q * 2 ^ places, -(places : Int), .exact) := by
  -- the quotient has as many digits as the dividend has more than the divisor, or one more
  have above : (q * b).log2 ≤ q.log2 + b.log2 + 1 := by
    have size : q * b < 2 ^ (q.log2 + 1) * 2 ^ (b.log2 + 1) :=
      Nat.mul_lt_mul'' Nat.lt_log2_self Nat.lt_log2_self
    rw [← Nat.pow_add] at size
    have digits := (Nat.log2_lt (Nat.mul_pos some nonzero).ne').2 size
    omega
  have below : b.log2 ≤ (q * b).log2 := Real64.log2_mono (Nat.le_mul_of_pos_left b some)
  have target : min (0 - 0) (Format.binary64.targetExponent
      (totalExponent (q * b) 0 - totalExponent b 0)) =
        -((53 + b.log2 - (q * b).log2 : Nat) : Int) := by
    rw [Real64.targetExponent_eq, totalExponent, totalExponent]
    omega
  refine ⟨53 + b.log2 - (q * b).log2, by omega, ?_⟩
  generalize 53 + b.log2 - (q * b).log2 = places at target
  have amount : (0 - 0 - -(places : Int)).toNat = places := by omega
  have digits : q * b * 2 ^ places = q * 2 ^ places * b := by ring
  unfold divCore
  simp only [target, amount, Nat.shiftLeft_eq, digits, Nat.mul_div_cancel _ nonzero,
    Nat.mul_mod_left]
  rfl

/-- A quotient without a rest is rounded to itself if it is a real. -/
theorem ratio_eq {a b c : Int} (nonzero : b ≠ 0) (product : a = b * c) (isReal : IsReal c) :
    ∃ x, ratio a b = .ok x ∧ toInteger Exact.truncate x = .ok c := by
  by_cases zero : c = 0
  · obtain rfl : a = 0 := by rw [product, zero, Int.mul_zero]
    subst zero
    by_cases negative : b < 0
    · refine ⟨-0.0, by simp [ratio, negative], ?_⟩
      exact (Real64.stands_zero .negative rfl).toInteger
    · refine ⟨0.0, by simp [ratio, negative], ?_⟩
      exact (Real64.stands_zero .positive rfl).toInteger
  · have dividend : a ≠ 0 := by
      rw [product]
      exact Int.mul_ne_zero nonzero zero
    obtain ⟨m, k, positive, short, whole, bounded⟩ := isReal.exists_short zero
    obtain ⟨places, enough, core⟩ := divCore_eq (Int.natAbs_pos.2 zero) (Int.natAbs_pos.2 nonzero)
    have sizes : a.natAbs = c.natAbs * b.natAbs := by
      rw [product, Int.natAbs_mul, Nat.mul_comm]
    have sign := Real64.signOf_div product dividend
    have room : Real64.room m ≤ k + places := by
      rw [whole, Real64.log2_mul_two_pow positive] at enough
      unfold Real64.room
      omega
    have rounded := Real64.roundWithAccuracy_placed positive short bounded (Real64.signOf c) room
    have quotient : UnpackedFloat.div Format.binary64
        (.finite (Real64.signOf a) a.natAbs 0 (Int.natAbs_pos.2 dividend))
        (.finite (Real64.signOf b) b.natAbs 0 (Int.natAbs_pos.2 nonzero)) =
          .finite (Real64.signOf c) (Real64.wide m) (Real64.placeOf m k)
            (Real64.wide_pos positive) := by
      rw [← rounded, ← whole, ← sign]
      simp only [UnpackedFloat.div, sizes, core]
    have unpacked := Real64.unpack_placed positive short bounded (Real64.signOf c)
    have exact : Exact.IsWhole m k c.natAbs := by
      rw [whole]
      exact_mod_cast Exact.IsWhole.of_natCast m k
    obtain ⟨_, below⟩ := Real64.placeOf_bounds positive short bounded
    have stands := Real64.stands_of_unpack (x := .ofModel (.pack _)) positive short unpacked exact
      below
    refine ⟨_, ?_, stands.toInteger⟩
    unfold ratio
    rw [dif_pos (Int.natAbs_pos.2 dividend), dif_pos (Int.natAbs_pos.2 nonzero)]
    change (let x := Float.ofModel (.pack (UnpackedFloat.div Format.binary64
        (.finite (Real64.signOf a) a.natAbs 0 (Int.natAbs_pos.2 dividend))
        (.finite (Real64.signOf b) b.natAbs 0 (Int.natAbs_pos.2 nonzero))))
      if x.isInf then Except.error NumberFault.overflow else .ok x) = _
    rw [quotient]
    refine if_neg ?_
    change ¬(Float.Model.pack (.finite (Real64.signOf c) (Real64.wide m) (Real64.placeOf m k)
      (Real64.wide_pos positive))).unpack.isInf = true
    rw [unpacked]
    exact Bool.false_ne_true

/-! ## Remainders -/

/-- The real nearest to an integer in digits that the format has stands for it. -/
theorem toInteger_nearest {r least c : Int} {negative : Bool} (whole : Exact.IsWhole r least c)
    (short : r.natAbs < 2 ^ 53) (above : -52 ≤ least) (below : least ≤ 971)
    (sign : c ≠ 0 → negative = decide (c < 0)) :
    toInteger Exact.truncate (nearest negative r.natAbs least) = .ok c := by
  by_cases zero : r = 0
  · subst zero
    rw [Exact.isWhole_iff, Int.cast_zero, zero_mul] at whole
    obtain rfl : c = 0 := by exact_mod_cast whole.symm
    have unpacked := Real64.unpack_packed_zero (if negative then .negative else .positive)
    exact (Real64.stands_zero _ unpacked).toInteger
  · have positive : 0 < r.natAbs := Int.natAbs_pos.2 zero
    have some : c ≠ 0 := by
      rintro rfl
      rw [Exact.isWhole_iff, Int.cast_zero, mul_eq_zero, Int.cast_eq_zero] at whole
      exact whole.elim zero (zpow_ne_zero least two_ne_zero)
    have rounded := Real64.round_wide positive short (Real64.signOf c) 0
      (show -1000 ≤ least by omega)
    rw [Nat.pow_zero, Nat.mul_one, Int.natCast_zero, Int.add_zero] at rounded
    have nearest_eq : nearest negative r.natAbs least = .ofModel (.pack
        (.finite (Real64.signOf c) (Real64.wide r.natAbs) (least - Real64.room r.natAbs)
          (Real64.wide_pos positive))) := by
      unfold nearest
      rw [← rounded, sign some]
      simp only [beq_iff_eq, positive.ne', if_false, decide_eq_true_eq]
      rfl
    have high : -1074 ≤ least - Real64.room r.natAbs := by
      unfold Real64.room
      omega
    have low : least - Real64.room r.natAbs ≤ 971 := by omega
    have unpacked := Real64.unpack_wide positive short (Real64.signOf c) high low
    rw [nearest_eq]
    exact (Real64.stands_of_unpack positive short unpacked whole.natAbs low).toInteger

/-- The remainder has the sign of the dividend. -/
theorem tmod_neg_iff {a b : Int} (some : a.tmod b ≠ 0) : a.tmod b < 0 ↔ a < 0 := by
  constructor
  · intro below
    by_contra above
    exact absurd (Int.tmod_nonneg b (Int.not_lt.1 above)) (Int.not_le.2 below)
  · intro below
    have opposite := Int.tmod_nonneg b (Int.neg_nonneg.2 below.le)
    rw [Int.neg_tmod] at opposite
    omega

/-- The remainder of integers that are reals is that of the division towards zero. -/
theorem remainderReal_eq {x y : Float} {m e n f a b : Int} (first : Real64.Stands x m e a)
    (second : Real64.Stands y n f b) (above : -52 ≤ e) (beyond : -52 ≤ f) (nonzero : b ≠ 0) :
    ∃ r, remainderReal x y = .ok r ∧ toInteger Exact.truncate r = .ok (a.tmod b) := by
  have left : Exact.IsWhole (Exact.align m e n f).1 (min e f) a :=
    first.whole.scaled (Int.min_le_left e f)
  have right : Exact.IsWhole (Exact.align m e n f).2 (min e f) b :=
    second.whole.scaled (Int.min_le_right e f)
  have divisor : (Exact.align m e n f).2 ≠ 0 := by
    intro zero
    rw [zero, Exact.isWhole_iff, Int.cast_zero, zero_mul] at right
    exact nonzero (by exact_mod_cast right.symm)
  have short : (Exact.align m e n f).1.natAbs % (Exact.align m e n f).2.natAbs < 2 ^ 53 := by
    rcases Int.le_total e f with lower | lower
    · have same : (Exact.align m e n f).1 = m := by
        simp [Exact.align, Int.min_eq_left lower, twoTo]
      rw [same]
      exact Nat.lt_of_le_of_lt (Nat.mod_le _ _) first.short
    · have same : (Exact.align m e n f).2 = n := by
        simp [Exact.align, Int.min_eq_right lower, twoTo]
      rw [same] at divisor ⊢
      exact (Nat.mod_lt _ (Int.natAbs_pos.2 divisor)).trans second.short
  unfold remainderReal
  simp only [first.exact, second.exact]
  rw [if_neg (by simpa using divisor)]
  refine ⟨_, rfl, ?_⟩
  rw [← Int.natAbs_tmod] at short ⊢
  refine toInteger_nearest (left.tmod right) short ?_ ?_ ?_
  · exact Int.le_min.2 ⟨above, beyond⟩
  · exact (Int.min_le_left e f).trans first.below
  · intro some
    have dividend : a ≠ 0 := by
      rintro rfl
      exact some (Int.zero_tmod b)
    rw [first.sign dividend]
    exact decide_eq_decide.2 (tmod_neg_iff some).symm

/-- The quotient of integers without a rest is the exact one if and only if that is a real. -/
theorem divide_int_iff {a b c : Int} (nonzero : b ≠ 0) (product : a = b * c) :
    divide (.int a) (.int b) = .ok (.int c) ↔ IsReal c := by
  have rest : (a % b == 0) = true := by simp [product]
  have read : divide (.int a) (.int b) = (do
      let quotient ← ratio a b
      return .int (← toInteger Exact.truncate quotient)) := by
    unfold divide
    simp only [rest, if_true]
  rw [read]
  constructor
  · intro exact
    cases converted : ratio a b with
    | error fault =>
      rw [converted] at exact
      cases exact
    | ok x =>
      rw [converted] at exact
      change (toInteger Exact.truncate x >>= fun n =>
        (.ok (.int n) : Except NumberFault Number)) = _ at exact
      cases whole : toInteger Exact.truncate x with
      | error fault =>
        rw [whole] at exact
        cases exact
      | ok n =>
        rw [whole] at exact
        cases exact
        exact .of_toInteger whole
  · intro isReal
    obtain ⟨x, converted, whole⟩ := ratio_eq nonzero product isReal
    rw [converted]
    change (toInteger Exact.truncate x >>= fun n =>
      (.ok (.int n) : Except NumberFault Number)) = _
    rw [whole]
    rfl

/-- The remainder of integers that are reals is exact. -/
theorem remainder_int {a b : Int} (nonzero : b ≠ 0) (dividend : IsReal a) (divisor : IsReal b) :
    remainder (.int a) (.int b) = .ok (.int (a.tmod b)) := by
  obtain ⟨x, m, e, first, stands, above⟩ := dividend.toReal_stands
  obtain ⟨y, n, f, second, others, beyond⟩ := divisor.toReal_stands
  obtain ⟨r, rest, whole⟩ := remainderReal_eq stands others above beyond nonzero
  unfold remainder
  rw [first, second]
  change (remainderReal x y >>= fun r => toInteger Exact.truncate r >>= fun n =>
    (.ok (.int n) : Except NumberFault Number)) = _
  rw [rest]
  change (toInteger Exact.truncate r >>= fun n =>
    (.ok (.int n) : Except NumberFault Number)) = _
  rw [whole]
  rfl

end Number

namespace Operator

theorem isZero_ofInt (n : Int) : (Json.ofInt n).isZero = decide (n = 0) := by
  have compared : (Json.ofInt n).isZero = Number.same (.int n) (.int 0) := Json.same_number _ _
  rw [compared, Number.same, Number.compare?_int, compareOfLessAndEq]
  rcases Int.lt_trichotomy n 0 with below | rfl | above
  · simp [below, below.ne]
  · rfl
  · simp [above.asymm, above.ne']

/-- What the operators make of integers.  Sums, differences and products are exact, of whatever
size.  A quotient without a rest is exact if and only if it is a real, and a remainder is exact if
both sides are. -/
theorem apply_int (formula : String) (a b : Int) :
    apply .add formula (.ofInt a) (.ofInt b) = .ok (.ofInt (a + b)) ∧
    apply .sub formula (.ofInt a) (.ofInt b) = .ok (.ofInt (a - b)) ∧
    apply .mul formula (.ofInt a) (.ofInt b) = .ok (.ofInt (a * b)) ∧
    (b ≠ 0 → b ∣ a →
      (apply .div formula (.ofInt a) (.ofInt b) = .ok (.ofInt (a / b)) ↔ Number.IsReal (a / b))) ∧
    (b ≠ 0 → Number.IsReal a → Number.IsReal b →
      apply .rem formula (.ofInt a) (.ofInt b) = .ok (.ofInt (a.tmod b))) := by
  refine ⟨rfl, rfl, rfl, fun nonzero divides => ?_, fun nonzero dividend divisor => ?_⟩
  · have product : a = b * (a / b) := (Int.mul_ediv_cancel' divides).symm
    have applied : apply .div formula (.ofInt a) (.ofInt b) =
        (liftNumber (Number.divide (.int a) (.int b))).map .number := by
      change (if (Json.ofInt b).isZero then _ else _) = _
      rw [isZero_ofInt, decide_eq_false nonzero, if_neg Bool.false_ne_true]
      rfl
    rw [← Number.divide_int_iff nonzero product, applied]
    cases Number.divide (.int a) (.int b) with
    | error fault => exact ⟨nofun, nofun⟩
    | ok n =>
      constructor
      · intro same
        cases same
        rfl
      · intro same
        cases same
        rfl
  · change (if (Json.ofInt b).isZero then _ else _) = _
    rw [isZero_ofInt, decide_eq_false nonzero, if_neg Bool.false_ne_true]
    change (liftNumber (Number.remainder (.int a) (.int b))).map Json.number = _
    rw [Number.remainder_int nonzero dividend divisor]
    rfl

/-- A large quotient without a rest, and a remainder of a negative integer. -/
theorem apply_int_of_large :
    apply .div "" (.ofInt (3 * 2 ^ 60)) (.ofInt (-3)) = .ok (.ofInt (-(2 ^ 60))) ∧
    apply .rem "" (.ofInt (-7)) (.ofInt 4) = .ok (.ofInt (-3)) := by
  have power : Number.IsReal (3 * 2 ^ 60 / -3) := ⟨⟨1, 60, by decide, by decide⟩, by decide⟩
  have seven : Number.IsReal (-7) := ⟨⟨7, 0, by decide, by decide⟩, by decide⟩
  have four : Number.IsReal 4 := ⟨⟨4, 0, by decide, by decide⟩, by decide⟩
  exact ⟨((apply_int "" (3 * 2 ^ 60) (-3)).2.2.2.1 (by decide) (by decide)).2 power,
    (apply_int "" (-7) 4).2.2.2.2 (by decide) seven four⟩

/-- Beyond the digits of the format a quotient without a rest is rounded, and the remainder is
that of a neighbour. -/
theorem apply_int_inexact :
    (¬∀ a b : Int, b ≠ 0 → b ∣ a →
      apply .div "" (.ofInt a) (.ofInt b) = .ok (.ofInt (a / b))) ∧
    ¬∀ a b : Int, b ≠ 0 →
      apply .rem "" (.ofInt a) (.ofInt b) = .ok (.ofInt (a.tmod b)) := by
  constructor
  · intro exact
    have quotient : apply .div "" (.ofInt 9007199254740993) (.ofInt 1) =
        .ok (.ofInt 9007199254740992) := rfl
    cases quotient.symm.trans (exact _ _ (by decide) (Int.one_dvd _))
  · intro exact
    have remainder : apply .rem "" (.ofInt 9007199254740993) (.ofInt 2) = .ok (.ofInt 0) := rfl
    cases remainder.symm.trans (exact _ _ (by decide))

end Operator
end DiceNotation
