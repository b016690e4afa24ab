import DiceNotation.Proofs.Number.WholeReals

namespace DiceNotation

/-!
# Rounded products

The product of a share with a real is rounded once.  What comes out is said here without bits: the
product is measured in units of the last place that the format has for it, and the nearest integer
of them is taken, an even one if two are equally near.  So rounding keeps the order, and it leaves
the integers alone whose digits the format has.

The bits that rounding goes by are followed one place at a time.  An extended mantissa stands for a
real, of which it has the integer part and knows on which side of the next half it lies.
-/

open Float.Model Float.Model.UnpackedFloat

namespace Real64

/-! ## Nearest integers -/

/-- The integer nearest to a real, and the even one of two.  What stands behind the point is the
distance from the integer below. -/
noncomputable def nearestInteger (y : ℝ) : Int :=
  if Int.fract y < 1 - Int.fract y then ⌊y⌋
  else if 1 - Int.fract y < Int.fract y then ⌊y⌋ + 1
  else ⌊y⌋ + ⌊y⌋ % 2

theorem nearestInteger_intCast (n : Int) : nearestInteger n = n := by
  simp [nearestInteger]

theorem abs_nearestInteger_sub_le (y : ℝ) : |(nearestInteger y : ℝ) - y| ≤ 1 / 2 := by
  have parts := Int.floor_add_fract y
  have above := Int.fract_nonneg y
  have below := Int.fract_lt_one y
  unfold nearestInteger
  rw [abs_le]
  split
  · constructor <;> linarith
  · split
    · push_cast
      constructor <;> linarith
    · have parity : ⌊y⌋ % 2 = 0 ∨ ⌊y⌋ % 2 = 1 := Int.emod_two_eq_zero_or_one _
      rcases parity with even | odd
      · rw [even]
        push_cast
        constructor <;> linarith
      · rw [odd]
        push_cast
        constructor <;> linarith

/-- Nearest integers that stand in the other order would be half an integer away from the same
real. -/
theorem nearestInteger_mono : Monotone nearestInteger := by
  intro x y le
  by_contra greater
  have step : (nearestInteger y : ℝ) + 1 ≤ nearestInteger x := by
    exact_mod_cast Int.add_one_le_iff.2 (not_le.1 greater)
  have first := abs_le.1 (abs_nearestInteger_sub_le x)
  have second := abs_le.1 (abs_nearestInteger_sub_le y)
  obtain rfl : x = y := by linarith
  exact greater le_rfl

/-! ## Places of the format -/

/-- The exponent of the last place that the format has for a real. -/
noncomputable def lastPlace (x : ℝ) : Int := max (Int.log 2 x - 52) (-1074)

/-- A real rounded to the last place that the format has for it. -/
noncomputable def rounded (x : ℝ) : ℝ :=
  nearestInteger (x / (2 : Nat) ^ lastPlace x) * (2 : Nat) ^ lastPlace x

section

variable {x y : ℝ} {k : Int}

theorem rounded_eq (x : ℝ) :
    rounded x = nearestInteger (x / 2 ^ lastPlace x) * 2 ^ lastPlace x := rfl

theorem rounded_le (below : x ≤ k * 2 ^ lastPlace x) : rounded x ≤ k * 2 ^ lastPlace x := by
  have scale : (0 : ℝ) < 2 ^ lastPlace x := zpow_pos two_pos _
  rw [rounded_eq]
  refine mul_le_mul_of_nonneg_right ?_ scale.le
  rw [← nearestInteger_intCast k]
  exact_mod_cast nearestInteger_mono ((div_le_iff₀ scale).2 below)

theorem le_rounded (above : k * 2 ^ lastPlace x ≤ x) : k * 2 ^ lastPlace x ≤ rounded x := by
  have scale : (0 : ℝ) < 2 ^ lastPlace x := zpow_pos two_pos _
  rw [rounded_eq]
  refine mul_le_mul_of_nonneg_right ?_ scale.le
  rw [← nearestInteger_intCast k]
  exact_mod_cast nearestInteger_mono ((le_div_iff₀ scale).2 above)

theorem rounded_nonneg (above : 0 ≤ x) : 0 ≤ rounded x := by
  have start := le_rounded (x := x) (k := 0) (by simpa using above)
  simpa using start

theorem rounded_zero : rounded 0 = 0 := by
  simp [rounded, nearestInteger]

/-- The greatest mantissa at an exponent is not above the least one at a greater exponent. -/
theorem top_le_bottom {first second : Int} (lower : first < second) :
    (2 ^ 53 * 2 ^ first : ℝ) ≤ 2 ^ 52 * 2 ^ second :=
  calc (2 ^ 53 * 2 ^ first : ℝ) = 2 ^ 52 * 2 ^ (first + 1) := by
        rw [zpow_add_one₀ two_ne_zero]
        ring
    _ ≤ 2 ^ 52 * 2 ^ second :=
        mul_le_mul_of_nonneg_left (zpow_le_zpow_right₀ one_le_two lower) (by positivity)

/-- Rounding keeps the order.  Where the last place moves up, a power of two lies in between. -/
theorem rounded_mono (above : 0 ≤ x) (le : x ≤ y) : rounded x ≤ rounded y := by
  rcases above.eq_or_lt with rfl | positive
  · rw [rounded_zero]
    exact rounded_nonneg le
  have logs : Int.log 2 x ≤ Int.log 2 y := Int.log_mono_right positive le
  have places : lastPlace x ≤ lastPlace y := max_le_max (Int.sub_le_sub_right logs 52) le_rfl
  rcases places.eq_or_lt with same | lower
  · rw [rounded_eq, rounded_eq, same]
    have scale : (0 : ℝ) < 2 ^ lastPlace y := zpow_pos two_pos _
    refine mul_le_mul_of_nonneg_right ?_ scale.le
    exact_mod_cast nearestInteger_mono (div_le_div_of_nonneg_right le scale.le)
  · have upper : lastPlace y = Int.log 2 y - 52 := by
      unfold lastPlace at lower ⊢
      omega
    have small : x ≤ ((2 ^ 53 : Int) : ℝ) * 2 ^ lastPlace x := by
      have bound : x < 2 ^ (Int.log 2 x + 1) := by
        exact_mod_cast Int.lt_zpow_succ_log_self Nat.one_lt_two x
      have power : ((2 ^ 53 : Int) : ℝ) * 2 ^ lastPlace x = 2 ^ (lastPlace x + 53) := by
        rw [zpow_add₀ two_ne_zero, mul_comm]
        norm_num
      rw [power]
      refine bound.le.trans (zpow_le_zpow_right₀ one_le_two ?_)
      unfold lastPlace
      omega
    have large : ((2 ^ 52 : Int) : ℝ) * 2 ^ lastPlace y ≤ y := by
      have bound : (2 : ℝ) ^ Int.log 2 y ≤ y := by
        exact_mod_cast Int.zpow_log_le_self Nat.one_lt_two (positive.trans_le le)
      have power : ((2 ^ 52 : Int) : ℝ) * 2 ^ lastPlace y = 2 ^ (lastPlace y + 52) := by
        rw [zpow_add₀ two_ne_zero, mul_comm]
        norm_num
      rwa [power, upper, Int.sub_add_cancel]
    calc rounded x ≤ ((2 ^ 53 : Int) : ℝ) * 2 ^ lastPlace x := rounded_le small
      _ ≤ ((2 ^ 52 : Int) : ℝ) * 2 ^ lastPlace y := by exact_mod_cast top_le_bottom lower
      _ ≤ rounded y := le_rounded large

theorem lastPlace_nonpos (above : 0 ≤ x) (small : x < 2 ^ 53) : lastPlace x ≤ 0 := by
  unfold lastPlace
  rcases above.eq_or_lt with rfl | positive
  · simp
  · have digits : Int.log 2 x < 53 := by
      rw [← Int.lt_zpow_iff_log_lt Nat.one_lt_two positive]
      exact_mod_cast small
    omega

/-- Integers have nothing behind the point. -/
theorem exists_places {place : Int} (low : place ≤ 0) (n : Int) :
    ∃ k : Int, (n : ℝ) = k * 2 ^ place := by
  obtain ⟨places, is⟩ := Int.eq_ofNat_of_zero_le (Int.neg_nonneg.2 low)
  refine ⟨n * 2 ^ places, ?_⟩
  obtain rfl : place = -(places : Int) := by omega
  push_cast
  rw [zpow_neg, zpow_natCast, mul_assoc, mul_inv_cancel₀ (pow_ne_zero places two_ne_zero), mul_one]

/-- Short integers are left as they are. -/
theorem rounded_intCast {n : Int} (above : 0 ≤ n) (short : n < 2 ^ 53) : rounded n = n := by
  have low : lastPlace (n : ℝ) ≤ 0 :=
    lastPlace_nonpos (by exact_mod_cast above) (by exact_mod_cast short)
  obtain ⟨k, is⟩ := exists_places low n
  have below := rounded_le (x := (n : ℝ)) is.le
  have beyond := le_rounded (x := (n : ℝ)) is.ge
  rw [← is] at below beyond
  exact below.antisymm beyond

theorem rounded_le_two_pow (above : 0 ≤ x) (small : x < 2 ^ 53) : rounded x ≤ 2 ^ 53 := by
  obtain ⟨k, is⟩ := exists_places (lastPlace_nonpos above small) (2 ^ 53)
  have power : (2 : ℝ) ^ 53 = k * 2 ^ lastPlace x := by
    rw [← is]
    norm_num
  rw [power] at small ⊢
  exact rounded_le small.le

end

/-! ## Extended mantissas -/

/-- Whether an extended mantissa stands for a real. -/
def StandsFor (extended : ExtendedMantissa) (y : ℝ) : Prop :=
  match extended.roundBit, extended.stickyBit with
  | false, false => y = extended.mantissa
  | false, true => extended.mantissa < y ∧ y - extended.mantissa < extended.mantissa + 1 - y
  | true, false => y - extended.mantissa = extended.mantissa + 1 - y
  | true, true => extended.mantissa + 1 - y < y - extended.mantissa ∧ y < extended.mantissa + 1

theorem standsFor_exact (mantissa : Nat) :
    StandsFor (ExtendedMantissa.ofMantissaAndAccuracy mantissa .exact) mantissa := rfl

namespace StandsFor

variable {extended : ExtendedMantissa} {y : ℝ}

/-- The last place becomes the round bit, and nothing is forgotten about the places behind it. -/
theorem shiftRightOne (stands : StandsFor extended y) :
    StandsFor extended.shiftRightOne (y / 2) := by
  obtain ⟨mantissa, round, sticky⟩ := extended
  have halves : (mantissa : ℝ) = 2 * (mantissa / 2 : Nat) + (mantissa % 2 : Nat) := by
    exact_mod_cast (Nat.div_add_mod mantissa 2).symm
  rcases Nat.mod_two_eq_zero_or_one mantissa with even | odd
  · have shifted : ExtendedMantissa.shiftRightOne ⟨mantissa, round, sticky⟩ =
        ⟨mantissa / 2, false, round || sticky⟩ := by
      simp [ExtendedMantissa.shiftRightOne, even]
    rw [even, Nat.cast_zero, add_zero] at halves
    rw [shifted]
    cases round <;> cases sticky <;>
      simp only [StandsFor, Bool.or_false, Bool.or_true] at stands ⊢
    · linarith
    all_goals constructor <;> linarith
  · have shifted : ExtendedMantissa.shiftRightOne ⟨mantissa, round, sticky⟩ =
        ⟨mantissa / 2, true, round || sticky⟩ := by
      simp [ExtendedMantissa.shiftRightOne, odd]
    rw [odd, Nat.cast_one] at halves
    rw [shifted]
    cases round <;> cases sticky <;>
      simp only [StandsFor, Bool.or_false, Bool.or_true] at stands ⊢
    · linarith
    all_goals constructor <;> linarith

theorem shiftRight (stands : StandsFor extended y) (places : Nat) :
    StandsFor (extended >>> places) (y / 2 ^ places) := by
  induction places with
  | zero =>
    rw [pow_zero, div_one]
    exact stands
  | succ places ih =>
    rw [pow_succ, ← div_div]
    exact ih.shiftRightOne

theorem floor_eq (stands : StandsFor extended y) : ⌊y⌋ = extended.mantissa := by
  obtain ⟨mantissa, round, sticky⟩ := extended
  rw [Int.floor_eq_iff]
  cases round <;> cases sticky <;> simp only [StandsFor] at stands <;> push_cast <;>
    constructor <;> linarith

/-- The two bits decide as the fractional part does. -/
theorem roundedMantissa_eq (stands : StandsFor extended y) :
    (extended.roundedMantissa : Int) = nearestInteger y := by
  have floor := stands.floor_eq
  have parts := Int.floor_add_fract y
  unfold nearestInteger
  rw [floor] at parts ⊢
  obtain ⟨mantissa, round, sticky⟩ := extended
  push_cast at parts
  cases round <;> cases sticky <;> simp only [StandsFor] at stands
  · have below : Int.fract y < 1 - Int.fract y := by linarith
    rw [if_pos below]
    rfl
  · have below : Int.fract y < 1 - Int.fract y := by linarith
    rw [if_pos below]
    rfl
  · have half : Int.fract y = 1 - Int.fract y := by linarith
    rw [if_neg half.not_lt, if_neg half.not_gt]
    rfl
  · have above : 1 - Int.fract y < Int.fract y := by linarith
    rw [if_neg above.asymm, if_pos above]
    rfl

end StandsFor

/-! ## The number that is rounded to -/

theorem log_scaled {m : Nat} (positive : 0 < m) (e : Int) :
    Int.log 2 ((m : ℝ) * 2 ^ e) = m.log2 + e := by
  have scale : (0 : ℝ) < 2 ^ e := zpow_pos two_pos e
  have scaled : (0 : ℝ) < m * 2 ^ e := mul_pos (by exact_mod_cast positive) scale
  have low : (2 : ℝ) ^ m.log2 ≤ m := by exact_mod_cast Nat.log2_self_le positive.ne'
  have high : (m : ℝ) < 2 ^ (m.log2 + 1) := by exact_mod_cast Nat.lt_log2_self
  refine le_antisymm (Int.lt_add_one_iff.1 ?_) ?_
  · rw [← Int.lt_zpow_iff_log_lt Nat.one_lt_two scaled, add_right_comm]
    rw [Nat.cast_ofNat, zpow_add₀ two_ne_zero]
    exact mul_lt_mul_of_pos_right (by exact_mod_cast high) scale
  · rw [← Int.zpow_le_iff_le_log Nat.one_lt_two scaled, Nat.cast_ofNat, zpow_add₀ two_ne_zero]
    exact mul_le_mul_of_nonneg_right (by exact_mod_cast low) scale.le

theorem lastPlace_scaled {m : Nat} (positive : 0 < m) (e : Int) :
    lastPlace (m * 2 ^ e) = Format.binary64.targetExponent (totalExponent m e) := by
  rw [lastPlace, log_scaled positive, targetExponent_eq, totalExponent]
  omega

/-- What the first shift of rounding leaves of a mantissa, up to its last place. -/
def firstRounded (m : Nat) (places : Nat) : Nat :=
  (ExtendedMantissa.ofMantissaAndAccuracy m .exact >>> places).roundedMantissa

theorem firstRounded_eq (m places : Nat) :
    (firstRounded m places : Int) = nearestInteger (m / 2 ^ places) :=
  ((standsFor_exact m).shiftRight places).roundedMantissa_eq

section

variable {m places : Nat} {e : Int}

theorem firstRounded_le (few : m.log2 ≤ places + 52) : firstRounded m places ≤ 2 ^ 53 := by
  have small : (m : ℝ) / 2 ^ places ≤ ((2 ^ 53 : Int) : ℝ) := by
    rw [div_le_iff₀ (by positivity)]
    have bound : m ≤ 2 ^ 53 * 2 ^ places := by
      rw [← Nat.pow_add]
      exact Nat.lt_log2_self.le.trans (Nat.pow_le_pow_right Nat.two_pos (by omega))
    exact_mod_cast bound
  have nearest := nearestInteger_mono small
  rw [nearestInteger_intCast, ← firstRounded_eq] at nearest
  exact_mod_cast nearest

theorem le_firstRounded (positive : 0 < m) (many : places + 52 ≤ m.log2) :
    2 ^ 52 ≤ firstRounded m places := by
  have large : ((2 ^ 52 : Int) : ℝ) ≤ (m : ℝ) / 2 ^ places := by
    rw [le_div_iff₀ (by positivity)]
    have bound : 2 ^ 52 * 2 ^ places ≤ m := by
      rw [← Nat.pow_add]
      exact (Nat.pow_le_pow_right Nat.two_pos (by omega)).trans (Nat.log2_self_le positive.ne')
    exact_mod_cast bound
  have nearest := nearestInteger_mono large
  rw [nearestInteger_intCast, ← firstRounded_eq] at nearest
  exact_mod_cast nearest

/-- Rounding shifts twice.  The second shift is there for a mantissa that has become too long. -/
theorem roundWithAccuracy_split (up : settledExponent m e = e + places) (sign : Sign) :
    roundWithAccuracy Format.binary64 sign m e .exact =
      let last := settledExponent (firstRounded m places) (e + places)
      let whole := firstRounded m places / 2 ^ (last - (e + places)).toNat
      if none : whole = 0 then .zero sign
      else .finite sign whole last (Nat.pos_of_ne_zero none) := by
  have amount : (e + places - e).toNat = places := by omega
  unfold roundWithAccuracy
  simp only [shiftToTargetExponent_eq, mantissa_shiftRight, up, amount]
  rfl

/-- A mantissa with enough places is rounded to the places of the format.  If it becomes one place
too long, it is a power of two, and the second shift loses nothing. -/
theorem roundWithAccuracy_eq (positive : 0 < m)
    (long : e ≤ Format.binary64.targetExponent (totalExponent m e)) (sign : Sign) :
    (roundWithAccuracy Format.binary64 sign m e .exact = .zero sign ∧ rounded (m * 2 ^ e) = 0) ∨
    ∃ (n : Nat) (f : Int) (nonzero : 0 < n), roundWithAccuracy Format.binary64 sign m e .exact =
      .finite sign n f nonzero ∧ Canonical n f ∧ (n * 2 ^ f : ℝ) = rounded (m * 2 ^ e) := by
  have place : lastPlace (m * 2 ^ e) = settledExponent m e := by
    rw [lastPlace_scaled positive, settledExponent, max_eq_right long]
  obtain ⟨places, up⟩ : ∃ places : Nat, settledExponent m e = e + places := by
    refine ⟨(settledExponent m e - e).toNat, ?_⟩
    rw [settledExponent, max_eq_right long]
    omega
  have settled : e + places = max (m.log2 + e - 52) (-1074) := by
    rw [← up, settledExponent, max_eq_right long, targetExponent_eq, totalExponent]
    omega
  have sum : rounded (m * 2 ^ e) = firstRounded m places * 2 ^ (e + places : Int) := by
    have digits : (m * 2 ^ e : ℝ) / 2 ^ (e + places : Int) = m / 2 ^ places := by
      rw [zpow_add₀ two_ne_zero, zpow_natCast, mul_comm (2 ^ e : ℝ), mul_div_mul_right]
      exact zpow_ne_zero e two_ne_zero
    rw [rounded_eq, place, up, digits, ← firstRounded_eq, Int.cast_natCast]
  have short : firstRounded m places ≤ 2 ^ 53 := firstRounded_le (by omega)
  have full (normal : -1074 < e + places) : 2 ^ 52 ≤ firstRounded m places :=
    le_firstRounded positive (by omega)
  rw [roundWithAccuracy_split up, sum]
  generalize firstRounded m places = whole at short full
  generalize e + (places : Int) = last at settled full
  have second : settledExponent whole last = max last (whole.log2 + last - 52) := by
    rw [settledExponent, targetExponent_eq, totalExponent]
    omega
  rcases short.eq_or_lt with rfl | short
  · -- the mantissa has become one place too long
    rw [Nat.log2_two_pow] at second
    have next : settledExponent (2 ^ 53) last = last + 1 := by omega
    refine .inr ⟨2 ^ 52, last + 1, by decide, ?_, ?_, ?_⟩
    · simp only [next, add_sub_cancel_left]
      rfl
    · rw [Canonical, targetExponent_eq, totalExponent, Nat.log2_two_pow]
      omega
    · rw [zpow_add_one₀ two_ne_zero]
      push_cast
      ring
  · have digits : whole.log2 ≤ 52 := by
      rcases Nat.eq_zero_or_pos whole with rfl | some
      · decide
      · exact log2_le some short
    have same : settledExponent whole last = last := by omega
    simp only [same, sub_self, Int.toNat_zero, pow_zero, Nat.div_one]
    rcases Nat.eq_zero_or_pos whole with rfl | some
    · exact .inl ⟨rfl, by simp⟩
    · refine .inr ⟨whole, last, some, dif_neg some.ne', ?_, rfl⟩
      rw [Canonical, targetExponent_eq, totalExponent]
      rcases (show -1074 ≤ last by omega).eq_or_lt with least | normal
      · omega
      · have leading : whole.log2 = 52 :=
          (Nat.log2_eq_iff some.ne').2 ⟨full normal, short⟩
        omega

end

/-! ## Packing -/

/-- A number of the format is packed and unpacked without a loss. -/
theorem unpack_packed {sign : Sign} {m : Nat} {e : Int} {positive : 0 < m}
    (canonical : Canonical m e) (low : e ≤ 971) :
    (Float.Model.pack (.finite sign m e positive)).unpack = .finite sign m e positive := by
  rw [Canonical, targetExponent_eq, totalExponent] at canonical
  rcases (show m.log2 ≤ 52 by omega).eq_or_lt with normal | subnormal
  · have short : m < 2 ^ 53 := (Nat.log2_lt positive.ne').1 (by omega)
    have same : wide m = m := by simp [wide, room, normal]
    have unpacked := unpack_wide positive short sign (show -1074 ≤ e by omega) low
    simpa only [same] using unpacked
  · have least : e = -1074 := by omega
    obtain ⟨mantissa, rfl⟩ : ∃ mantissa : BitVec 52, m = mantissa.toNat := by
      refine ⟨BitVec.ofNat 52 m, ?_⟩
      rw [BitVec.toNat_ofNat, Nat.mod_eq_of_lt ((Nat.log2_lt positive.ne').1 subnormal)]
    have some : mantissa ≠ 0#52 := by
      rintro rfl
      exact absurd positive (lt_irrefl 0)
    change UnpackedFloat.unpack Format.binary64 (UnpackedFloat.pack Format.binary64 _) = _
    rw [pack_subnormal sign mantissa least positive]
    unfold UnpackedFloat.unpack
    simp only [unpackExponent_packComponents, unpackMantissa_packComponents,
      unpackSign_packComponents, Sign.ofBitVec_toBitVec, some, if_false, if_true]
    rw [if_neg (by decide), dif_neg not_false]
    subst least
    rfl

/-! ## Values -/

/-- The real that a real in double precision is. -/
noncomputable def value (x : Float) : ℝ := (Number.real x).amount.toReal

section

variable {x y : Float}

theorem value_of_zero {sign : Sign} (unpacked : x.toModel.unpack = .zero sign) : value x = 0 := by
  have exact : Exact.ofReal x = .finite 0 0 := by
    unfold Exact.ofReal
    rw [unpacked]
  change (Exact.ofReal x).amount.toReal = 0
  rw [exact]
  simp [Exact.amount]

theorem value_of_finite {m : Nat} {e : Int} {positive : 0 < m}
    (unpacked : x.toModel.unpack = .finite .positive m e positive) : value x = m * 2 ^ e := by
  have exact : Exact.ofReal x = .finite m e := by
    unfold Exact.ofReal
    rw [unpacked]
  change (Exact.ofReal x).amount.toReal = _
  rw [exact]
  exact EReal.toReal_coe _

theorem value_of_stands {m e n : Int} (stands : Stands x m e n) : value x = n := by
  change (Exact.ofReal x).amount.toReal = _
  rw [stands.exact, stands.whole]
  exact EReal.toReal_coe _

/-- What is finite and has no minus sign is zero or has a mantissa. -/
theorem finite_cases (unsigned : NotNegative x.toModel.unpack)
    (finite : x.toModel.unpack.isFinite = true) :
    (∃ sign, x.toModel.unpack = .zero sign) ∨
    ∃ m e positive, x.toModel.unpack = .finite .positive m e positive := by
  cases unpacked : x.toModel.unpack with
  | zero sign => exact .inl ⟨sign, rfl⟩
  | finite sign m e positive =>
    rw [unpacked] at unsigned
    obtain rfl : sign = .positive := unsigned
    exact .inr ⟨m, e, positive, rfl⟩
  | _ =>
    rw [unpacked] at finite
    cases finite

/-- A real that is read as an integer loses what stands behind the point. -/
theorem truncate_eq_floor (m : Nat) (e : Int) : Exact.truncate m e = ⌊(m * 2 ^ e : ℝ)⌋ := by
  unfold Exact.truncate
  split
  · rename_i above
    obtain ⟨places, rfl⟩ := Int.eq_ofNat_of_zero_le above
    have whole : (m * 2 ^ (places : Int) : ℝ) = ((m * Number.twoTo places : Nat) : ℝ) := by
      rw [zpow_natCast, Nat.cast_mul]
      exact congrArg ((m : ℝ) * ·) (Nat.cast_pow 2 places).symm
    rw [whole, Int.floor_natCast, Int.toNat_natCast, Nat.cast_mul]
  · obtain ⟨places, is⟩ := Int.eq_ofNat_of_zero_le (show 0 ≤ -e by omega)
    obtain rfl : e = -(places : Int) := by omega
    have share : (m * 2 ^ (-(places : Int)) : ℝ) = (m : ℝ) / (Number.twoTo places : Nat) := by
      rw [zpow_neg, zpow_natCast, ← div_eq_mul_inv]
      exact congrArg ((m : ℝ) / ·) (Nat.cast_pow 2 places).symm
    rw [share, Int.floor_div_natCast, Int.floor_natCast, neg_neg, Int.toNat_natCast,
      Int.tdiv_eq_ediv_of_nonneg (Int.natCast_nonneg m)]

theorem toInteger_eq_floor (unsigned : NotNegative x.toModel.unpack)
    (finite : x.toModel.unpack.isFinite = true) :
    Number.toInteger Exact.truncate x = .ok ⌊value x⌋ := by
  unfold Number.toInteger Exact.ofReal
  rcases finite_cases unsigned finite with ⟨sign, unpacked⟩ | ⟨m, e, positive, unpacked⟩
  · rw [unpacked, value_of_zero unpacked, Int.floor_zero]
    rfl
  · rw [unpacked, value_of_finite unpacked, ← truncate_eq_floor]

theorem value_nonneg (unsigned : NotNegative x.toModel.unpack)
    (finite : x.toModel.unpack.isFinite = true) : 0 ≤ value x := by
  rcases finite_cases unsigned finite with ⟨sign, unpacked⟩ | ⟨m, e, positive, unpacked⟩
  · rw [value_of_zero unpacked]
  · rw [value_of_finite unpacked]
    positivity

theorem isFinite_share (above : 0 ≤ x) (below : x < 1) : x.toModel.unpack.isFinite = true := by
  rcases share_of_lt_one above below with ⟨sign, is⟩ | ⟨sign, share, positive, places, is, small⟩
  · rw [is]
    rfl
  · rw [is]
    rfl

/-- A share is a real from zero on and below one. -/
theorem value_share (above : 0 ≤ x) (below : x < 1) : value x ∈ Set.Ico (0 : ℝ) 1 := by
  have unsigned := notNegative_of_le above
  refine ⟨value_nonneg unsigned (isFinite_share above below), ?_⟩
  rcases share_of_lt_one above below with ⟨sign, is⟩ | ⟨sign, share, positive, places, is, small⟩
  · rw [value_of_zero is]
    exact one_pos
  · rw [is] at unsigned
    obtain rfl : sign = .positive := unsigned
    rw [value_of_finite is, zpow_neg, zpow_natCast, ← div_eq_mul_inv, div_lt_one (by positivity)]
    exact_mod_cast small

/-- Reals are in the order of their exponents, and with the same exponent in that of their
mantissas, because a mantissa only lacks a leading digit if the exponent is the least one. -/
theorem scaled_le_scaled {m n : Nat} {e f : Int} (first : Canonical m e) (second : Canonical n f)
    (some : 0 < n) (order : e < f ∨ e = f ∧ m ≤ n) : (m * 2 ^ e : ℝ) ≤ n * 2 ^ f := by
  rcases order with lower | ⟨rfl, le⟩
  · rw [Canonical, targetExponent_eq, totalExponent] at first second
    have short : m ≤ 2 ^ 53 :=
      Nat.lt_log2_self.le.trans (Nat.pow_le_pow_right Nat.two_pos (by omega))
    have long : 2 ^ 52 ≤ n :=
      (Nat.pow_le_pow_right Nat.two_pos (by omega)).trans (Nat.log2_self_le some.ne')
    calc (m * 2 ^ e : ℝ) ≤ 2 ^ 53 * 2 ^ e :=
          mul_le_mul_of_nonneg_right (by exact_mod_cast short) (zpow_nonneg two_pos.le e)
      _ ≤ 2 ^ 52 * 2 ^ f := top_le_bottom lower
      _ ≤ n * 2 ^ f :=
        mul_le_mul_of_nonneg_right (by exact_mod_cast long) (zpow_nonneg two_pos.le f)
  · exact mul_le_mul_of_nonneg_right (by exact_mod_cast le) (zpow_nonneg two_pos.le e)

/-- Shares are ordered as the reals that they are. -/
theorem value_mono (above : 0 ≤ x) (below : x < 1) (beyond : 0 ≤ y) (under : y < 1) (le : x ≤ y) :
    value x ≤ value y := by
  have order : (x.toModel.unpack.le y.toModel.unpack) = true := of_decide_eq_true le
  rcases finite_cases (notNegative_of_le above) (isFinite_share above below) with
    ⟨sign, is⟩ | ⟨m, e, positive, is⟩
  · rw [value_of_zero is]
    exact (value_share beyond under).1
  · rcases finite_cases (notNegative_of_le beyond) (isFinite_share beyond under) with
      ⟨sign, second⟩ | ⟨n, f, some, second⟩
    · rw [is, second] at order
      cases order
    · rw [value_of_finite is, value_of_finite second]
      refine scaled_le_scaled (unpack_canonical _ is) (unpack_canonical _ second) some ?_
      rw [is, second] at order
      change ((compare e f).then (compare m n)).isLE = true at order
      rcases Int.lt_trichotomy e f with lower | rfl | higher
      · exact .inl lower
      · rw [compare_eq_iff_eq.2 rfl] at order
        exact .inr ⟨rfl, Nat.isLE_compare.1 order⟩
      · rw [compare_gt_iff_gt.2 higher] at order
        cases order

/-- The product of a share with a real is rounded once. -/
theorem value_mul (above : 0 ≤ x) (below : x < 1) (unsigned : NotNegative y.toModel.unpack)
    (finite : y.toModel.unpack.isFinite = true) : value (x * y) = rounded (value x * value y) := by
  have product : (x * y).toModel.unpack = (Float.Model.pack (UnpackedFloat.mul Format.binary64
    x.toModel.unpack y.toModel.unpack)).unpack := rfl
  rcases share_of_lt_one above below with ⟨sign, is⟩ | ⟨sign, share, positive, places, is, small⟩
  · rw [value_of_zero is, zero_mul, rounded_zero]
    rcases finite_cases unsigned finite with ⟨other, second⟩ | ⟨m, e, some, second⟩ <;>
      rw [is, second] at product <;>
      exact value_of_zero (product.trans (unpack_packed_zero _))
  · have plus := notNegative_of_le above
    rw [is] at plus
    obtain rfl : sign = .positive := plus
    rw [value_of_finite is]
    rcases finite_cases unsigned finite with ⟨other, second⟩ | ⟨m, e, some, second⟩
    · rw [is, second] at product
      rw [value_of_zero second, mul_zero, rounded_zero]
      exact value_of_zero (product.trans (unpack_packed_zero _))
    · rw [is, second] at product
      have canonical := unpack_canonical _ second
      have nonzero : 0 < share * m := Nat.mul_pos positive some
      have long : e - (places : Int) ≤ Format.binary64.targetExponent
          (totalExponent (share * m) (e - places)) := by
        have digits : m.log2 ≤ (share * m).log2 := log2_mono (Nat.le_mul_of_pos_left m positive)
        rw [Canonical, targetExponent_eq, totalExponent] at canonical
        rw [targetExponent_eq, totalExponent]
        omega
      have exact : (share * 2 ^ (-(places : Int)) * (m * 2 ^ e) : ℝ) =
          (share * m : Nat) * 2 ^ (e - places) := by
        rw [zpow_sub₀ two_ne_zero, zpow_neg, Nat.cast_mul]
        ring
      change _ = (Float.Model.pack (roundWithAccuracy Format.binary64 .positive (share * m)
        (-(places : Int) + e) .exact)).unpack at product
      rw [Int.add_comm, ← Int.sub_eq_add_neg] at product
      rw [value_of_finite second, exact]
      rcases roundWithAccuracy_eq nonzero long .positive with ⟨result, none⟩ |
        ⟨n, f, _, result, settled, same⟩
      · rw [result] at product
        rw [none]
        exact value_of_zero (product.trans (unpack_packed_zero _))
      · have low : f ≤ 971 :=
          (exponent_share_le small some canonical result).trans (exponent_le_of_unpack second)
        rw [result, unpack_packed settled low] at product
        rw [value_of_finite product, same]

end

end Real64
end DiceNotation
