import DiceNotation.Proofs.Number.Negation

namespace DiceNotation

/-!
# Amounts in order

Every number but the undefined real stands for an extended real, and numbers are compared as these
are.  So they are totally ordered, whether they are integers or reals, and two numbers can be the
same amount.  A number with the other sign stands for the amount with the other sign: to pack a
negated real and to unpack it again changes nothing, because a real has no more digits with a minus
sign than without one.  So to subtract the magnitude of a negative integer is to add the integer.
-/

open Float.Model Float.Model.UnpackedFloat

namespace Real64

/-! ## Packing what was unpacked -/

/-- The real with a sign, an exponent and a mantissa. -/
def ofComponents (sign : Sign) (exponent : BitVec Format.binary64.exponentBits)
    (mantissa : BitVec Format.binary64.mantissaBitsWithoutImplicit) : UnpackedFloat :=
  UnpackedFloat.unpack Format.binary64 (packComponents Format.binary64 sign exponent mantissa)

/-- What bits unpack to is told by their components. -/
theorem unpack_eq_ofComponents (bits : BitVec Format.binary64.numBits) :
    UnpackedFloat.unpack Format.binary64 bits =
      ofComponents (Sign.ofBitVec (unpackSign bits)) (unpackExponent bits) (unpackMantissa bits) := by
  simp only [ofComponents, UnpackedFloat.unpack, unpackExponent_packComponents,
    unpackMantissa_packComponents, unpackSign_packComponents, Sign.ofBitVec_toBitVec]

variable (sign : Sign) (exponent : BitVec Format.binary64.exponentBits)
  (mantissa : BitVec Format.binary64.mantissaBitsWithoutImplicit)

theorem neg_ofComponents :
    (ofComponents sign exponent mantissa).neg = ofComponents (-sign) exponent mantissa := by
  simp only [ofComponents, UnpackedFloat.unpack, unpackExponent_packComponents,
    unpackMantissa_packComponents, unpackSign_packComponents, Sign.ofBitVec_toBitVec]
  split
  · split <;> rfl
  · split
    · split <;> rfl
    · rfl

/-- A subnormal number is packed without an exponent: its mantissa has fewer digits than the
format. -/
theorem pack_subnormal {e : Int} (least : e = -1074) (positive : 0 < mantissa.toNat) :
    UnpackedFloat.pack Format.binary64 (.finite sign mantissa.toNat e positive) =
      packComponents Format.binary64 sign 0#_ mantissa := by
  have digits : mantissa.toNat.log2 < 52 := (Nat.log2_lt positive.ne').2 mantissa.isLt
  have short : ¬ mantissa.toNat.log2 + 1 = Format.binary64.mantissaBits := by
    change ¬ mantissa.toNat.log2 + 1 = 53
    omega
  subst least
  unfold UnpackedFloat.pack
  dsimp only
  rw [if_neg (by decide), if_neg short, BitVec.ofNat_toNat, BitVec.setWidth_eq]

/-- A normal number is packed without its leading digit. -/
theorem pack_normal {e : Int} (biased : e + 1023 + 52 = exponent.toNat)
    (room : exponent.toNat + 1 < 2 ^ 11) {whole : Nat} (leads : whole = 2 ^ 52 + mantissa.toNat)
    (positive : 0 < whole) :
    UnpackedFloat.pack Format.binary64 (.finite sign whole e positive) =
      packComponents Format.binary64 sign exponent mantissa := by
  have short : mantissa.toNat < 2 ^ 52 := mantissa.isLt
  have digits : whole.log2 + 1 = Format.binary64.mantissaBits := by
    refine congrArg (· + 1) ?_
    rw [Nat.log2_eq_iff positive.ne']
    omega
  have shifted : (e + Format.binary64.exponentBias +
      Format.binary64.mantissaBitsWithoutImplicit).toNat = exponent.toNat :=
    congrArg Int.toNat biased
  have rest : BitVec.ofNat Format.binary64.mantissaBitsWithoutImplicit whole = mantissa := by
    apply BitVec.eq_of_toNat_eq
    rw [BitVec.toNat_ofNat, leads]
    change (2 ^ 52 + mantissa.toNat) % 2 ^ 52 = mantissa.toNat
    rw [Nat.add_mod_left, Nat.mod_eq_of_lt short]
  unfold UnpackedFloat.pack
  dsimp only
  rw [shifted, if_neg (Nat.not_le.2 room), if_pos digits, rest, BitVec.ofNat_toNat,
    BitVec.setWidth_eq]

/-- The components are found again in what is packed. -/
theorem pack_ofComponents (number : ofComponents sign exponent mantissa ≠ .notANumber) :
    UnpackedFloat.pack Format.binary64 (ofComponents sign exponent mantissa) =
      packComponents Format.binary64 sign exponent mantissa := by
  simp only [ofComponents, UnpackedFloat.unpack, unpackExponent_packComponents,
    unpackMantissa_packComponents, unpackSign_packComponents, Sign.ofBitVec_toBitVec] at number ⊢
  split
  · rename_i top
    subst top
    split
    · rename_i none
      subst none
      rfl
    · rename_i some
      rw [if_pos rfl, if_neg some] at number
      exact absurd rfl number
  · rename_i notTop
    split
    · rename_i least
      subst least
      split
      · rename_i none
        subst none
        rfl
      · exact pack_subnormal sign mantissa rfl _
    · have bias : (Format.binary64.exponentBias : Int) = 1023 := rfl
      have width : (Format.binary64.mantissaBitsWithoutImplicit : Int) = 52 := rfl
      have room : exponent.toNat + 1 < 2 ^ 11 := by
        have bound : exponent.toNat < 2 ^ 11 := exponent.isLt
        have top : exponent.toNat ≠ 2 ^ 11 - 1 := fun is => notTop (BitVec.eq_of_toNat_eq is)
        omega
      refine pack_normal sign exponent mantissa (by rw [bias, width]; omega) room ?_ _
      rw [BitVec.toNat_append, ← Nat.shiftLeft_add_eq_or_of_lt mantissa.isLt]
      rfl

/-- A real that is negated unpacks to what it was, but for the sign. -/
theorem unpack_neg (x : Float) : (-x).toModel.unpack = x.toModel.unpack.neg := by
  change UnpackedFloat.unpack Format.binary64 (UnpackedFloat.pack Format.binary64
    (UnpackedFloat.unpack Format.binary64 x.toModel.toBits.toBitVec).neg) =
      (UnpackedFloat.unpack Format.binary64 x.toModel.toBits.toBitVec).neg
  rw [unpack_eq_ofComponents x.toModel.toBits.toBitVec, neg_ofComponents]
  cases number : ofComponents _ _ _ with
  | notANumber => simp only [UnpackedFloat.pack, unpack_packedNaN]
  | _ =>
    rw [← number, pack_ofComponents _ _ _ (by rw [number]; exact nofun)]
    rfl

/-- To add with the other sign is to subtract. -/
theorem add_neg (x y : UnpackedFloat) :
    UnpackedFloat.add Format.binary64 x y.neg = UnpackedFloat.sub Format.binary64 x y := by
  cases y with
  | finite sign mantissa exponent positive =>
    cases x with
    | finite =>
      have opposite (n : Int) : (-sign).apply n = -sign.apply n := by
        cases sign with
        | positive => rfl
        | negative => exact (Int.neg_neg n).symm
      simp only [UnpackedFloat.neg, UnpackedFloat.add, UnpackedFloat.sub, opposite,
        Int.sub_eq_add_neg]
    | _ => rfl
  | _ => cases x <;> rfl

end Real64

namespace Exact

/-! ## Extended reals -/

/-- The extended real that a value is. -/
noncomputable def amount : Exact → EReal
  | .finite m e => ((m * 2 ^ e : ℝ) : EReal)
  | .infinite true => ⊥
  | .infinite false => ⊤
  | .undefined => 0

/-- The value with the other sign. -/
def neg : Exact → Exact
  | .finite m e => .finite (-m) e
  | .infinite negative => .infinite (!negative)
  | .undefined => .undefined

theorem amount_neg (a : Exact) : a.neg.amount = -a.amount := by
  cases a with
  | finite m e =>
    change (((-m : Int) * 2 ^ e : ℝ) : EReal) = -((m * 2 ^ e : ℝ) : EReal)
    rw [← EReal.coe_neg, Int.cast_neg, neg_mul]
  | infinite negative => cases negative <;> rfl
  | undefined => exact neg_zero.symm

theorem neg_ne_undefined {a : Exact} (number : a ≠ .undefined) : a.neg ≠ .undefined := by
  cases a with
  | undefined => exact absurd rfl number
  | _ => exact nofun

theorem ofReal_neg (x : Float) : ofReal (-x) = (ofReal x).neg := by
  unfold ofReal
  rw [Real64.unpack_neg]
  cases x.toModel.unpack with
  | notANumber => rfl
  | infinity sign => cases sign <;> rfl
  | zero sign => rfl
  | finite sign mantissa exponent positive =>
    cases sign with
    | positive => rfl
    | negative => exact congrArg (Exact.finite · exponent) (Int.neg_neg _).symm

/-- Digits are only moved when values are brought to a common exponent. -/
theorem shifted (m e least : Int) (below : least ≤ e) :
    ((m * Number.twoTo (e - least).toNat : Int) : ℝ) * 2 ^ least = m * 2 ^ e := by
  have places : ((e - least).toNat : Int) = e - least := Int.toNat_of_nonneg (by omega)
  have power : (((Number.twoTo (e - least).toNat : Nat) : Int) : ℝ) = 2 ^ (e - least) := by
    rw [← places, zpow_natCast]
    exact_mod_cast Nat.cast_pow 2 _
  rw [Int.cast_mul, power, mul_assoc, ← zpow_add₀ two_ne_zero, sub_add_cancel]

/-- Finite values are compared as the reals that they are. -/
theorem align_lt (m e n f : Int) :
    (align m e n f).1 < (align m e n f).2 ↔ (m * 2 ^ e : ℝ) < n * 2 ^ f := by
  have scale : (0 : ℝ) < 2 ^ min e f := zpow_pos two_pos _
  rw [← shifted m e _ (Int.min_le_left e f), ← shifted n f _ (Int.min_le_right e f),
    mul_lt_mul_iff_left₀ scale, Int.cast_lt]
  rfl

theorem align_eq (m e n f : Int) :
    (align m e n f).1 = (align m e n f).2 ↔ (m * 2 ^ e : ℝ) = n * 2 ^ f := by
  have scale : (2 : ℝ) ^ min e f ≠ 0 := (zpow_pos two_pos _).ne'
  rw [← shifted m e _ (Int.min_le_left e f), ← shifted n f _ (Int.min_le_right e f),
    mul_left_inj' scale, Int.cast_inj]
  rfl

variable {a b : Exact} (first : a ≠ .undefined) (second : b ≠ .undefined)
include first second

theorem compare?_eq_lt : compare? a b = some .lt ↔ a.amount < b.amount := by
  match a, b with
  | .undefined, _ => exact absurd rfl first
  | _, .undefined => exact absurd rfl second
  | .infinite negative, .infinite other =>
    cases negative <;> cases other <;> simp [compare?, amount]
  | .infinite negative, .finite n f => cases negative <;> simp [compare?, amount, -EReal.coe_mul]
  | .finite m e, .infinite negative => cases negative <;> simp [compare?, amount, -EReal.coe_mul]
  | .finite m e, .finite n f =>
    simp only [compare?, amount, Option.some.injEq, compare_lt_iff_lt, align_lt,
      EReal.coe_lt_coe_iff]

theorem compare?_eq_eq : compare? a b = some .eq ↔ a.amount = b.amount := by
  match a, b with
  | .undefined, _ => exact absurd rfl first
  | _, .undefined => exact absurd rfl second
  | .infinite negative, .infinite other =>
    cases negative <;> cases other <;> simp [compare?, amount]
  | .infinite negative, .finite n f => cases negative <;> simp [compare?, amount, -EReal.coe_mul]
  | .finite m e, .infinite negative => cases negative <;> simp [compare?, amount, -EReal.coe_mul]
  | .finite m e, .finite n f =>
    simp only [compare?, amount, Option.some.injEq, compare_eq_iff_eq, align_eq,
      EReal.coe_eq_coe_iff]

end Exact

namespace Number

/-! ## Negative summands -/

/-- To add a negated real is to subtract the real. -/
theorem real_add_neg (x y : Float) : x + -y = x - y := by
  have models : (x + -y).toModel = (x - y).toModel := by
    change Float.Model.pack (UnpackedFloat.add Format.binary64 x.toModel.unpack
      (-y).toModel.unpack) = Float.Model.pack (UnpackedFloat.sub Format.binary64 x.toModel.unpack
        y.toModel.unpack)
    rw [Real64.unpack_neg, Real64.add_neg]
  exact congrArg Float.ofModel models

theorem isInf_neg (x : Float) : (-x).isInf = x.isInf := by
  change (-x).toModel.unpack.isInf = x.toModel.unpack.isInf
  rw [Real64.unpack_neg]
  cases x.toModel.unpack <;> rfl

/-- A negative integer is converted as its magnitude is, but for the sign. -/
theorem toReal_negSucc (n : Nat) :
    (int (Int.negSucc n)).toReal = (int (n + 1 : Nat)).toReal.map (- ·) := by
  have opposite : Float.ofInt (Int.negSucc n) = -Float.ofInt (n + 1 : Nat) := rfl
  change (if (Float.ofInt (Int.negSucc n)).isInf then _ else _) = _
  rw [opposite, isInf_neg]
  simp only [toReal]
  split <;> rfl

/-- To add a negative integer is to subtract its magnitude. -/
theorem sub_natAbs (m : Number) {a : Int} (negative : a < 0) :
    m.sub (int a.natAbs) = m.add (int a) := by
  obtain ⟨n, rfl⟩ := Int.eq_negSucc_of_lt_zero negative
  cases m with
  | int b => rfl
  | real x =>
    change (do
      let y ← (int (n + 1 : Nat)).toReal
      return real (x - y)) = (do
      let y ← (int (Int.negSucc n)).toReal
      return real (x + y))
    rw [toReal_negSucc]
    cases (int (n + 1 : Nat)).toReal with
    | error fault => rfl
    | ok y => exact congrArg (fun z => Except.ok (real z)) (real_add_neg x y).symm

/-! ## Numbers in order -/

/-- The extended real that a number is. -/
noncomputable def amount (n : Number) : EReal := n.exact.amount

theorem exact_neg (n : Number) : n.neg.exact = n.exact.neg := by
  cases n with
  | int a => rfl
  | real x => exact Exact.ofReal_neg x

theorem amount_neg (n : Number) : n.neg.amount = -n.amount :=
  (congrArg Exact.amount n.exact_neg).trans (Exact.amount_neg _)

variable {m n : Number} (first : m.exact ≠ .undefined) (second : n.exact ≠ .undefined)
include first second

theorem below_iff : m.below n = true ↔ m.amount < n.amount :=
  beq_iff_eq.trans (Exact.compare?_eq_lt first second)

theorem same_iff : m.same n = true ↔ m.amount = n.amount :=
  beq_iff_eq.trans (Exact.compare?_eq_eq first second)

end Number
end DiceNotation
