import DiceNotation.Proofs.Number.Rounding
import DiceNotation.Proofs.Roll.Ranges

namespace DiceNotation

/-!
# Equal shares

A uniform value is multiplied by the number of results, and the integer part of the product says
how far above the least result the picked one lies.  The product may be rounded, even up to the
number of results, where only the bound on the steps keeps the result in the range.

So the product is left open here.  Dice pick by any steps; the steps of a real are those of its
rounded product, for whatever rounding keeps the order and the integers.  Without any rounding each
result is picked on an interval, and the intervals have the same length.  Reals in double precision
are one of these roundings, as long as the format has all digits of the number of results.  Where it
has not, the number is rounded before it is multiplied, which keeps the order and the range.
-/

/-! ## Dice with known faces -/

/-- The dice whose number of faces is known: coins, fate dice, and numbered dice with at least one
face.  Dice without faces are refused, at the latest when they are to be rolled. -/
inductive DiceOf.HasFaces (ledger : Ledger) (dice : Dice) : Nat → Prop
  | numbered {faces : Nat} (kind : dice.kind = .numbered)
    (known : ledger.amount dice.faces = .ok (.ofInt faces)) (some : 0 < faces) :
    HasFaces ledger dice faces
  | coin (kind : dice.kind = .coin) : HasFaces ledger dice 2
  | fate (kind : dice.kind = .fate) : HasFaces ledger dice 3

namespace Number

/-- The steps above the least result to which a uniform value leads. -/
def steps (u size : Number) : Except NumberFault Number := do
  (← u.mul size).integerPart Exact.truncate

/-- The integer next to a real on the side of zero. -/
noncomputable def towardZero (x : ℝ) : Int := if 0 ≤ x then ⌊x⌋ else ⌈x⌉

/-- The steps to which a real leads if its product with the number of results is rounded. -/
noncomputable def roundedSteps (round : ℝ → ℝ) (u : ℝ) (size : Number) :
    Except NumberFault Number :=
  .ok (.int (towardZero (round (u * size.amount.toReal))))

end Number

namespace Ledger

/-- The result of dice to which steps lead that depend on the number of results. -/
def pickBy (ledger : Ledger) (dice : Dice) (steps : Number → Except NumberFault Number) :
    Except Fault Json := do
  let maximum ← ledger.maximumValue dice
  match maximum.number? with
  | none => .error .wrongKind
  | some maximum =>
    (liftNumber do
      let size ← rangeSize dice.kind.minimum maximum
      pickResult dice.kind.minimum size (← steps size)).map .number

/-- The result of dice that a real picks if its product with the number of results is rounded. -/
noncomputable def mapRounded (ledger : Ledger) (round : ℝ → ℝ) (dice : Dice) (u : ℝ) :
    Except Fault Json := ledger.pickBy dice (Number.roundedSteps round u)

/-- A uniform value picks by its own steps. -/
theorem mapUniform_eq (ledger : Ledger) (dice : Dice) (u : Number) :
    ledger.mapUniform dice (.number u) = ledger.pickBy dice u.steps := by
  unfold mapUniform pickBy
  cases ledger.maximumValue dice with
  | error fault => rfl
  | ok greatest =>
    change (match greatest.number? with | none => _ | some maximum => _) =
      match greatest.number? with | none => _ | some maximum => _
    cases greatest.number? with
    | none => rfl
    | some maximum =>
      unfold pickUniform Number.steps
      dsimp only
      cases rangeSize dice.kind.minimum maximum with
      | error fault => rfl
      | ok size =>
        have together := bind_assoc (u.mul size) (Number.integerPart Exact.truncate)
          (pickResult dice.kind.minimum size)
        exact congrArg (fun picked => (liftNumber picked).map Json.number) together.symm

end Ledger

/-! ## Order -/

/-- Whether a rounding keeps the order, and integers as they are. -/
structure IsRounding (round : ℝ → ℝ) : Prop where
  monotone : Monotone round
  integers : ∀ n : Int, round n = n

/-- Whether uniform values pick integers between two others, and greater ones never pick less. -/
def PicksInOrder {U : Type} [LE U] [LT U] [OfNat U 0] [OfNat U 1] (pick : U → Except Fault Json)
    (least greatest : Int) : Prop :=
  ∀ u v : U, 0 ≤ u → u < 1 → 0 ≤ v → v < 1 → u ≤ v →
    ∃ a b : Int, pick u = .ok (.ofInt a) ∧ pick v = .ok (.ofInt b) ∧
      least ≤ a ∧ a ≤ b ∧ b ≤ greatest

namespace DiceOf.HasFaces

variable {ledger : Ledger} {dice : Dice} {faces : Nat} (has : dice.HasFaces ledger faces)
include has

theorem pos : 0 < faces := by
  cases has with
  | numbered _ _ some => exact some
  | coin => decide
  | fate => decide

/-- There are as many results as faces. -/
theorem maximumValue_eq :
    ledger.maximumValue dice = .ok (.ofInt (dice.kind.minimum + faces - 1)) := by
  cases has with
  | numbered kind known some =>
    rw [maximumValue_numbered kind known, kind]
    exact congrArg (fun n => Except.ok (Json.ofInt n)) (add_sub_cancel_left 1 (faces : Int)).symm
  | coin kind =>
    unfold Ledger.maximumValue
    rw [kind]
    rfl
  | fate kind =>
    unfold Ledger.maximumValue
    rw [kind]
    rfl

/-- Dice pick the result that lies the steps above the least one, but none above the greatest. -/
theorem pickBy_eq {steps : Number → Except NumberFault Number} {count : Int}
    (leads : steps (.int faces) = .ok (.int count)) :
    ledger.pickBy dice steps = .ok (.ofInt (dice.kind.minimum + min count (faces - 1))) := by
  have size : rangeSize dice.kind.minimum (.int (dice.kind.minimum + faces - 1)) =
      .ok (.int faces) := by
    change Except.ok (Number.int (dice.kind.minimum + faces - 1 - dice.kind.minimum + 1)) = _
    congr 2
    ring
  have picked : pickResult dice.kind.minimum (.int faces) (.int count) =
      .ok (.int (dice.kind.minimum + min count (faces - 1))) := by
    change Number.add (.int dice.kind.minimum) (Number.least (.int count) [.int (faces - 1)]) = _
    rw [Number.least_int]
    rfl
  unfold Ledger.pickBy
  rw [has.maximumValue_eq]
  change (liftNumber (rangeSize dice.kind.minimum (.int (dice.kind.minimum + faces - 1)) >>=
    fun size => steps size >>= pickResult dice.kind.minimum size)).map Json.number = _
  rw [size]
  change (liftNumber (steps (.int faces) >>= pickResult dice.kind.minimum (.int faces))).map
    Json.number = _
  rw [leads]
  change (liftNumber (pickResult dice.kind.minimum (.int faces) (.int count))).map Json.number = _
  rw [picked]
  rfl

/-! ## Rounded products -/

theorem mapRounded_eq {round : ℝ → ℝ} {u : ℝ} (above : 0 ≤ round (u * faces)) :
    ledger.mapRounded round dice u =
      .ok (.ofInt (dice.kind.minimum + min ⌊round (u * faces)⌋ (faces - 1))) := by
  have amount : (Number.int faces).amount.toReal = faces := by
    change (((faces : Int) * 2 ^ (0 : Int) : ℝ) : EReal).toReal = faces
    rw [EReal.toReal_coe, zpow_zero, mul_one, Int.cast_natCast]
  refine has.pickBy_eq ?_
  rw [Number.roundedSteps, amount, Number.towardZero, if_pos above]

/-- Rounding that keeps the order picks in order, and the bound on the steps keeps the range. -/
theorem mapRounded_inOrder {round : ℝ → ℝ} (monotone : MonotoneOn round (Set.Ici 0))
    (start : 0 ≤ round 0) : PicksInOrder (ledger.mapRounded round dice) dice.kind.minimum
      (dice.kind.minimum + faces - 1) := by
  intro u v above _ beyond _ le
  have some := has.pos
  have first : 0 ≤ u * faces := mul_nonneg above (Nat.cast_nonneg faces)
  have second : 0 ≤ v * faces := mul_nonneg beyond (Nat.cast_nonneg faces)
  have order : round (u * faces) ≤ round (v * faces) :=
    monotone first second (mul_le_mul_of_nonneg_right le (Nat.cast_nonneg faces))
  have low : 0 ≤ round (u * faces) := start.trans (monotone Set.self_mem_Ici first first)
  have steps : 0 ≤ ⌊round (u * faces)⌋ := Int.floor_nonneg.2 low
  have floors : ⌊round (u * faces)⌋ ≤ ⌊round (v * faces)⌋ := Int.floor_mono order
  refine ⟨_, _, has.mapRounded_eq low, has.mapRounded_eq (low.trans order), ?_, ?_, ?_⟩ <;> omega

/-- Without rounding the interval of a result begins where its fraction lies. -/
theorem picks_iff {f : Int} {u : ℝ} (share : u ∈ Set.Ico (0 : ℝ) 1) :
    ledger.mapRounded id dice u = .ok (.ofInt f) ↔
      u ∈ Set.Ico ((f - dice.kind.minimum) / faces : ℝ) ((f - dice.kind.minimum + 1) / faces) := by
  have some : (0 : ℝ) < faces := Nat.cast_pos.2 has.pos
  have last : ⌊u * faces⌋ ≤ faces - 1 := by
    refine Int.le_sub_one_of_lt (Int.floor_lt.2 ?_)
    exact_mod_cast mul_lt_of_lt_one_left some share.2
  have steps : dice.kind.minimum + min ⌊u * faces⌋ (faces - 1) = f ↔
      ⌊u * faces⌋ = f - dice.kind.minimum := by
    rw [min_eq_left last]
    omega
  have low : 0 ≤ id (u * faces) := mul_nonneg share.1 some.le
  rw [has.mapRounded_eq low]
  change Except.ok (Json.number (.int _)) = Except.ok (Json.number (.int _)) ↔ _
  rw [Except.ok.injEq, Json.number.injEq, Number.int.injEq]
  rw [id, steps, Int.floor_eq_iff, Set.mem_Ico, div_le_iff₀ some, lt_div_iff₀ some]
  push_cast
  rfl

section

variable {f : Int} (above : dice.kind.minimum ≤ f) (below : f ≤ dice.kind.minimum + faces - 1)
include above below

/-- Each result is picked by the fraction that leads to it. -/
theorem exists_picks {round : ℝ → ℝ} (rounding : IsRounding round) :
    ∃ u ∈ Set.Ico (0 : ℝ) 1, ledger.mapRounded round dice u = .ok (.ofInt f) := by
  have some : (0 : ℝ) < faces := Nat.cast_pos.2 has.pos
  have product : ((f - dice.kind.minimum : Int) / faces * faces : ℝ) =
      (f - dice.kind.minimum : Int) := div_mul_cancel₀ _ some.ne'
  have low : (0 : ℝ) ≤ (f - dice.kind.minimum : Int) := by exact_mod_cast Int.sub_nonneg.2 above
  refine ⟨(f - dice.kind.minimum : Int) / faces, ⟨div_nonneg low some.le, ?_⟩, ?_⟩
  · rw [div_lt_one some]
    exact_mod_cast show f - dice.kind.minimum < faces by omega
  · rw [has.mapRounded_eq] <;> rw [product, rounding.integers]
    · rw [Int.floor_intCast, min_eq_left (by omega), add_sub_cancel]
    · exact low

/-- The interval of a result. -/
theorem setOf_picks : {u ∈ Set.Ico (0 : ℝ) 1 | ledger.mapRounded id dice u = .ok (.ofInt f)} =
    Set.Ico ((f - dice.kind.minimum) / faces : ℝ) ((f - dice.kind.minimum + 1) / faces) := by
  have some : (0 : ℝ) < faces := Nat.cast_pos.2 has.pos
  have within : Set.Ico ((f - dice.kind.minimum) / faces : ℝ)
      ((f - dice.kind.minimum + 1) / faces) ⊆ Set.Ico 0 1 := by
    refine Set.Ico_subset_Ico (div_nonneg ?_ some.le) ((div_le_one some).2 ?_)
    · exact_mod_cast Int.sub_nonneg.2 above
    · exact_mod_cast show f - dice.kind.minimum + 1 ≤ faces by omega
  ext u
  constructor
  · rintro ⟨share, picks⟩
    exact (has.picks_iff share).1 picks
  · intro inside
    exact ⟨within inside, (has.picks_iff (within inside)).2 inside⟩

end

end DiceOf.HasFaces

/-! ## Reals in double precision -/

/-- What becomes of an exact product if the number of results is rounded to a real first. -/
noncomputable def roundedTwice (faces : Nat) (y : Float) (x : ℝ) : ℝ :=
  Real64.rounded (x / faces * Real64.value y)

namespace Number

variable {faces : Nat} {y : Float} (converted : (int faces).toReal = .ok y)
include converted

/-- The steps of a real in double precision are those of a product that is rounded once. -/
theorem steps_real {u : Float} (above : 0 ≤ u) (below : u < 1) : (real u).steps (.int faces) =
    .ok (.int ⌊Real64.rounded (Real64.value u * Real64.value y)⌋) := by
  have unsigned := notNegative_of_toReal converted
  have finite := isFinite_of_toReal converted
  have read : toInteger Exact.truncate (u * y) = .ok ⌊Real64.value (u * y)⌋ :=
    Real64.toInteger_eq_floor ((Real64.notNegative_of_le above).mul unsigned).packed
      (Real64.isFinite_mul_share above below finite)
  unfold steps
  rw [mul_real_int u converted]
  change (toInteger Exact.truncate (u * y)).map int = _
  rw [read, Real64.value_mul above below unsigned finite]
  rfl

/-- The product that is rounded is not negative. -/
theorem value_nonneg_of_toReal : 0 ≤ Real64.value y :=
  Real64.value_nonneg (notNegative_of_toReal converted) (isFinite_of_toReal converted)

end Number

namespace DiceOf.HasFaces

variable {ledger : Ledger} {dice : Dice} {faces : Nat} (has : dice.HasFaces ledger faces)
  {y : Float} (converted : (Number.int faces).toReal = .ok y)
include has converted

/-- A uniform value picks what the real picks that it is, if the rounding is that of its product. -/
theorem mapUniform_eq {round : ℝ → ℝ} {u : Float} (above : 0 ≤ u) (below : u < 1)
    (agrees : round (Real64.value u * faces) = Real64.rounded (Real64.value u * Real64.value y)) :
    ledger.mapUniform dice (.number (.real u)) =
      ledger.mapRounded round dice (Real64.value u) := by
  have start := (Real64.value_share above below).1
  have low : 0 ≤ round (Real64.value u * faces) := by
    rw [agrees]
    exact Real64.rounded_nonneg (mul_nonneg start (Number.value_nonneg_of_toReal converted))
  rw [has.mapRounded_eq low, agrees, Ledger.mapUniform_eq]
  exact has.pickBy_eq (Number.steps_real converted above below)

/-- Also where the number of results is rounded before it is multiplied, greater values never pick
less. -/
theorem mapUniform_inOrder : PicksInOrder (fun u : Float => ledger.mapUniform dice
    (.number (.real u))) dice.kind.minimum (dice.kind.minimum + faces - 1) := by
  have some : (0 : ℝ) < faces := Nat.cast_pos.2 has.pos
  have whole := Number.value_nonneg_of_toReal converted
  have picks {u : Float} (above : 0 ≤ u) (below : u < 1) : ledger.mapUniform dice
      (.number (.real u)) = ledger.mapRounded (roundedTwice faces y) dice (Real64.value u) := by
    refine has.mapUniform_eq converted above below ?_
    rw [roundedTwice, mul_div_cancel_right₀ _ some.ne']
  have monotone : MonotoneOn (roundedTwice faces y) (Set.Ici 0) := by
    intro x start z _ le
    refine Real64.rounded_mono (mul_nonneg (div_nonneg start some.le) whole) ?_
    exact mul_le_mul_of_nonneg_right (div_le_div_of_nonneg_right le some.le) whole
  have zero : 0 ≤ roundedTwice faces y 0 := by
    rw [roundedTwice, zero_div, zero_mul, Real64.rounded_zero]
  intro u v above below beyond under le
  obtain ⟨first, last⟩ := Real64.value_share above below
  obtain ⟨second, further⟩ := Real64.value_share beyond under
  dsimp only
  rw [picks above below, picks beyond under]
  exact has.mapRounded_inOrder monotone zero _ _ first last second further
    (Real64.value_mono above below beyond under le)

end DiceOf.HasFaces

/-! ## The rounding of the format -/

/-- The rounding of the format, up to where it has all digits of integers. -/
noncomputable def shortRounded (x : ℝ) : ℝ :=
  if 0 ≤ x ∧ x < (2 ^ 53 : Nat) then Real64.rounded x else x

theorem shortRounded_eq (x : ℝ) :
    shortRounded x = if 0 ≤ x ∧ x < 2 ^ 53 then Real64.rounded x else x := by
  have power : ((2 ^ 53 : Nat) : ℝ) = 2 ^ 53 := Nat.cast_pow 2 53
  rw [← power, shortRounded]

theorem isRounding_shortRounded : IsRounding shortRounded where
  monotone := by
    intro x y le
    rw [shortRounded_eq, shortRounded_eq]
    split
    · rename_i first
      split
      · exact Real64.rounded_mono first.1 le
      · rename_i outside
        have large : 2 ^ 53 ≤ y := by
          by_contra small
          exact outside ⟨first.1.trans le, not_le.1 small⟩
        exact (Real64.rounded_le_two_pow first.1 first.2).trans large
    · rename_i outside
      split
      · rename_i second
        have negative : x < 0 := by
          by_contra above
          exact outside ⟨not_lt.1 above, le.trans_lt second.2⟩
        exact negative.le.trans (Real64.rounded_nonneg second.1)
      · exact le
  integers := by
    intro n
    rw [shortRounded_eq]
    split
    · rename_i short
      exact Real64.rounded_intCast (by exact_mod_cast short.1) (by exact_mod_cast short.2)
    · rfl

namespace DiceOf.HasFaces

variable {ledger : Ledger} {dice : Dice} {faces : Nat} (has : dice.HasFaces ledger faces)
include has

/-- Reals in double precision pick by this rounding if the format has all digits of the number of
results. -/
theorem mapUniform_eq_shortRounded (short : faces ≤ 2 ^ 53) {u : Float} (above : 0 ≤ u)
    (below : u < 1) : ledger.mapUniform dice (.number (.real u)) =
      ledger.mapRounded shortRounded dice (Real64.value u) := by
  have isReal : Number.IsReal faces := by
    rcases short.eq_or_lt with rfl | short
    · exact .of_natAbs (m := 1) (k := 53) rfl (by decide) (by decide)
    · exact .of_natAbs (m := faces) (k := 0) (by simp) short (by decide)
  obtain ⟨y, _, _, converted, stands, _⟩ := isReal.toReal_stands
  have whole : Real64.value y = faces := by
    rw [Real64.value_of_stands stands, Int.cast_natCast]
  refine has.mapUniform_eq converted above below ?_
  obtain ⟨first, last⟩ := Real64.value_share above below
  have some : (0 : ℝ) < faces := Nat.cast_pos.2 has.pos
  have bound : (faces : ℝ) ≤ 2 ^ 53 := by exact_mod_cast short
  rw [whole, shortRounded_eq, if_pos]
  exact ⟨mul_nonneg first some.le, (mul_lt_of_lt_one_left some last).trans_le bound⟩

open MeasureTheory in
/-- Coins, fate dice and numbered dice with any number of faces pick in order and within their
range, and they pick each of their results, whichever way the product is rounded.  Without rounding
each result is picked on an interval of its own, and all of these are equally long.  Reals in double
precision pick in order and within the range as long as the number of results can be converted at
all, and they are a case of such a rounding as long as the format has all its digits. -/
theorem equal_shares :
    let least := dice.kind.minimum
    let greatest := least + faces - 1
    ledger.maximumValue dice = .ok (.ofInt greatest) ∧
    (∀ u : Number, ledger.mapUniform dice (.number u) = ledger.pickBy dice u.steps) ∧
    (∀ round, IsRounding round →
      PicksInOrder (ledger.mapRounded round dice) least greatest ∧
      ∀ f, least ≤ f → f ≤ greatest →
        ∃ u ∈ Set.Ico (0 : ℝ) 1, ledger.mapRounded round dice u = .ok (.ofInt f)) ∧
    (PicksInOrder (ledger.mapRounded id dice) least greatest ∧
      ∀ f, least ≤ f → f ≤ greatest →
        {u ∈ Set.Ico (0 : ℝ) 1 | ledger.mapRounded id dice u = .ok (.ofInt f)} =
          Set.Ico ((f - least) / faces : ℝ) ((f - least + 1) / faces) ∧
        volume {u ∈ Set.Ico (0 : ℝ) 1 | ledger.mapRounded id dice u = .ok (.ofInt f)} =
          ENNReal.ofReal (1 / faces)) ∧
    ((∃ y, (Number.int faces).toReal = .ok y) →
      PicksInOrder (fun u : Float => ledger.mapUniform dice (.number (.real u))) least greatest) ∧
    (faces ≤ 2 ^ 53 → ∃ round, IsRounding round ∧ ∀ u : Float, 0 ≤ u → u < 1 →
      Real64.value u ∈ Set.Ico (0 : ℝ) 1 ∧ ledger.mapUniform dice (.number (.real u)) =
        ledger.mapRounded round dice (Real64.value u)) := by
  intro least greatest
  refine ⟨has.maximumValue_eq, ledger.mapUniform_eq dice,
    fun round rounding => ⟨?_, fun f above below => ?_⟩, ⟨?_, fun f above below => ?_⟩,
    fun ⟨y, converted⟩ => has.mapUniform_inOrder converted,
    fun short => ⟨shortRounded, isRounding_shortRounded, fun u above below => ?_⟩⟩
  · have zero : round 0 = 0 := by exact_mod_cast rounding.integers 0
    exact has.mapRounded_inOrder (rounding.monotone.monotoneOn _) zero.ge
  · exact has.exists_picks above below rounding
  · exact has.mapRounded_inOrder (monotone_id.monotoneOn _) le_rfl
  · have interval := has.setOf_picks above below
    refine ⟨interval, ?_⟩
    have long : ((f - least + 1) / faces - (f - least) / faces : ℝ) = 1 / faces := by ring
    rw [interval, Real.volume_Ico, long]
  · exact ⟨Real64.value_share above below, has.mapUniform_eq_shortRounded short above below⟩

end DiceOf.HasFaces

/-- One die of six faces. -/
def sixSided : Dice := ⟨⟨0, []⟩, .numbered, .known 1, .known 6, []⟩

open MeasureTheory in
/-- A six is picked on the last sixth of the uniform values, and what is picked by reals in double
precision lies between one and six, in order, by a rounding that keeps order and integers. -/
theorem equal_shares_of_sixSided :
    sixSided.HasFaces Ledger.empty 6 ∧
    {u ∈ Set.Ico (0 : ℝ) 1 | Ledger.empty.mapRounded id sixSided u = .ok (.ofInt 6)} =
      Set.Ico (5 / 6) 1 ∧
    volume {u ∈ Set.Ico (0 : ℝ) 1 | Ledger.empty.mapRounded id sixSided u = .ok (.ofInt 6)} =
      ENNReal.ofReal (1 / 6) ∧
    PicksInOrder (fun u : Float => Ledger.empty.mapUniform sixSided (.number (.real u))) 1 6 ∧
    ∃ round, IsRounding round ∧ Ledger.empty.mapUniform sixSided (.number (.real 0.5)) =
      Ledger.empty.mapRounded round sixSided (Real64.value 0.5) := by
  have has : sixSided.HasFaces Ledger.empty 6 := .numbered rfl rfl (by decide)
  obtain ⟨_, _, _, ⟨_, exact⟩, ordered, real⟩ := has.equal_shares
  obtain ⟨interval, share⟩ := exact 6 (by decide) (by decide)
  obtain ⟨round, rounding, same⟩ := real (by decide)
  have ends : Set.Ico (((6 : Int) - (1 : Int)) / (6 : Nat) : ℝ)
      (((6 : Int) - (1 : Int) + 1) / (6 : Nat)) = Set.Ico (5 / 6) 1 := by norm_num
  refine ⟨has, interval.trans ends, ?_, ordered ⟨_, rfl⟩, round, rounding, (same 0.5 ?_ ?_).2⟩
  · rw [share]
    norm_num
  · decide
  · decide

end DiceNotation
