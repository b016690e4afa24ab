import DiceNotation.Proofs.Number.Decimals
import DiceNotation.Proofs.Roll.Built

namespace DiceNotation

/-!
# Dice with known ranges

The outside names dice by the key of their kind, and does not know more about them.
This is enough once the faces of the dice are known: dice with the same key show the
same values.  Faces that are computed by a bracketed roll are known when the roll has
been evaluated, and what has been evaluated stays as it is.
-/

/-! ## Integers in order -/

theorem Number.compare?_int (m n : Int) :
    Number.compare? (.int m) (.int n) = some (compareOfLessAndEq m n) := by
  change some (compare (m * (Number.twoTo 0 : Int)) (n * (Number.twoTo 0 : Int))) = _
  have one : (Number.twoTo 0 : Int) = 1 := rfl
  rw [one, Int.mul_one, Int.mul_one]
  rfl

theorem Number.atMost_int (m n : Int) : Number.atMost (.int m) (.int n) = decide (m ≤ n) := by
  unfold Number.atMost Number.below Number.same
  rw [Number.compare?_int]
  unfold compareOfLessAndEq
  split
  · rename_i below
    exact (decide_eq_true (Int.le_of_lt below)).symm
  · split
    · rename_i same
      exact (decide_eq_true (Int.le_of_eq same)).symm
    · exact (decide_eq_false (by omega)).symm

/-! ## What lasts -/

namespace Ledger

/-- What has been evaluated stays as it is. -/
structure Lasts (before after : Ledger) : Prop where
  term : ∀ id, (before.term id).phase = .evaluated → (after.term id).phase = .evaluated
  roll : ∀ id, (before.roll id).phase = .evaluated → after.roll id = before.roll id

/-- Besides, the rolls whose evaluation has begun are left alone. -/
structure Firm (before after : Ledger) : Prop where
  term : ∀ id, (before.term id).phase = .evaluated → (after.term id).phase = .evaluated
  roll : ∀ id, (before.roll id).phase ≠ .unevaluated → after.roll id = before.roll id

variable {before after last : Ledger}

theorem Firm.refl (ledger : Ledger) : Firm ledger ledger := ⟨fun _ done => done, fun _ _ => rfl⟩

theorem Firm.trans (firm : Firm before after) (further : Firm after last) : Firm before last where
  term id done := further.term id (firm.term id done)
  roll id begun := by
    have same := firm.roll id begun
    rw [further.roll id (by rwa [same]), same]

theorem Firm.lasts (firm : Firm before after) : Lasts before after where
  term := firm.term
  roll id done := firm.roll id (by rw [done]; exact nofun)

/-- The phase of a term may become that of an evaluated one, or change as long as it is
not that. -/
theorem Firm.updateTerm (ledger : Ledger) {id : Identity} {change : TermState → TermState}
    (kept : (ledger.term id).phase = .evaluated → (change (ledger.term id)).phase = .evaluated) :
    Firm ledger (ledger.updateTerm id change) where
  term other done := by
    rw [term_updateTerm]
    split
    · rename_i same
      subst same
      exact kept done
    · exact done
  roll _ _ := rfl

/-- A roll may change whose evaluation has not begun. -/
theorem Firm.updateRoll {ledger : Ledger} {id : Identity}
    (untouched : (ledger.roll id).phase = .unevaluated) (change : RollState → RollState) :
    Firm ledger (ledger.updateRoll id change) where
  term _ done := done
  roll other begun := by
    rw [roll_updateRoll, if_neg]
    rintro rfl
    exact begun untouched

/-- A roll may get its total that is being evaluated. -/
theorem Lasts.updateRoll {ledger : Ledger} {id : Identity}
    (unfinished : (ledger.roll id).phase ≠ .evaluated) (change : RollState → RollState) :
    Lasts ledger (ledger.updateRoll id change) where
  term _ done := done
  roll other done := by
    rw [roll_updateRoll, if_neg]
    rintro rfl
    exact unfinished done

/-- An amount that is an integer stays the same. -/
theorem Lasts.amount (lasts : Lasts before after) {amount : Operand Term}
    (bracketed : amount.IsBracketed) {n : Int} (known : before.amount amount = .ok (.ofInt n)) :
    after.amount amount = .ok (.ofInt n) := by
  cases amount with
  | known m => exact known
  | computed term =>
    rcases bracketed with ⟨tag, roll, rfl⟩
    cases done : before.isEvaluated (.group tag roll) with
    | false =>
      simp only [Ledger.amount, Ledger.total, done] at known
      cases known
    | true =>
      have still : after.isEvaluated (.group tag roll) = true :=
        beq_iff_eq.2 (lasts.term _ (beq_iff_eq.1 done))
      simp only [Ledger.amount, Ledger.total, done, still, if_true, totalOf] at known ⊢
      cases ended : before.isRollEvaluated roll with
      | false =>
        rw [Ledger.rollTotal, ended] at known
        cases known
      | true =>
        have same := lasts.roll roll.id (beq_iff_eq.1 ended)
        rw [← known, Ledger.rollTotal, Ledger.rollTotal, Ledger.isRollEvaluated,
          Ledger.isRollEvaluated, same]

end Ledger

/-! ## Ranges -/

/-- Whether it is known which values dice can show. -/
structure DiceOf.IsRanged (ledger : Ledger) (dice : Dice) : Prop where
  bracketed : dice.faces.IsBracketed
  known : dice.kind = .coin ∨ dice.kind = .fate ∨
    dice.kind = .numbered ∧ ∃ n : Int, ledger.amount dice.faces = .ok (.ofInt n)

/-- The least and the greatest value of each kind of dice, found by the key by which the
outside names the kind. -/
inductive KeyRange : String → Int → Int → Prop
  | coin : KeyRange "dc" 0 1
  | fate : KeyRange "df" (-1) 1
  | numbered (n : Int) : KeyRange ("d" ++ toString n) 1 n

/-- A key names one range only. -/
theorem KeyRange.unique {key : String} {least greatest low high : Int}
    (range : KeyRange key least greatest) (further : KeyRange key low high) :
    least = low ∧ greatest = high := by
  have apart {n : Int} {c : Char} (letter : c.isDigit = false) (sign : c ≠ '-') :
      "d" ++ toString n ≠ "d" ++ String.ofList [c] := fun same =>
    Text.toString_ne_letter letter sign ((String.append_right_inj _).1 same)
  have coin (n : Int) : "d" ++ toString n ≠ "dc" := apart (c := 'c') rfl (by decide)
  have fate (n : Int) : "d" ++ toString n ≠ "df" := apart (c := 'f') rfl (by decide)
  generalize again : key = other at further
  cases range with
  | coin =>
    cases further with
    | coin => exact ⟨rfl, rfl⟩
    | fate => exact absurd again (by decide)
    | numbered => exact absurd again.symm (coin _)
  | fate =>
    cases further with
    | coin => exact absurd again (by decide)
    | fate => exact ⟨rfl, rfl⟩
    | numbered => exact absurd again.symm (fate _)
  | numbered =>
    cases further with
    | coin => exact absurd again (coin _)
    | fate => exact absurd again (fate _)
    | numbered => exact ⟨rfl, Text.toString_injective ((String.append_right_inj _).1 again)⟩

/-- The key of dice, and the least and the greatest value that they can show. -/
structure DiceOf.Shows (ledger : Ledger) (dice : Dice) (key : String) (least greatest : Int) :
    Prop where
  key : ledger.denomination dice = .ok key
  least : dice.kind.minimum = least
  greatest : ledger.maximumValue dice = .ok (.ofInt greatest)

namespace DiceOf

variable {ledger : Ledger} {dice other : Dice}

/-- Sound dice are ranged as soon as their faces are a known integer. -/
theorem IsSound.isRanged (sound : dice.IsSound) {n : Int}
    (known : ledger.amount dice.faces = .ok (.ofInt n)) : dice.IsRanged ledger where
  bracketed := sound.facesBracketed
  known := by
    cases kind : dice.kind with
    | coin => exact .inl rfl
    | fate => exact .inr (.inl rfl)
    | numbered => exact .inr (.inr ⟨rfl, n, known⟩)
    | plain =>
      have numbered := sound.numbered (by rw [kind]; rfl)
      rw [kind] at numbered
      cases numbered

theorem IsRanged.of_lasts {later : Ledger} (ranged : dice.IsRanged ledger)
    (lasts : Ledger.Lasts ledger later) : dice.IsRanged later where
  bracketed := ranged.bracketed
  known := by
    rcases ranged.known with coin | fate | ⟨numbered, n, known⟩
    · exact .inl coin
    · exact .inr (.inl fate)
    · exact .inr (.inr ⟨numbered, n, lasts.amount ranged.bracketed known⟩)

/-- The key of numbered dice begins with a letter, followed by the number of faces. -/
theorem denomination_numbered (numbered : dice.kind = .numbered) {n : Int}
    (known : ledger.amount dice.faces = .ok (.ofInt n)) :
    ledger.denomination dice = .ok ("d" ++ toString n) := by
  unfold Ledger.denomination
  rw [numbered, known]
  rfl

theorem maximumValue_numbered (numbered : dice.kind = .numbered) {n : Int}
    (known : ledger.amount dice.faces = .ok (.ofInt n)) :
    ledger.maximumValue dice = .ok (.ofInt n) := by
  unfold Ledger.maximumValue
  rw [numbered]
  exact known

theorem IsRanged.shows (ranged : dice.IsRanged ledger) :
    ∃ key least greatest, KeyRange key least greatest ∧ dice.Shows ledger key least greatest := by
  rcases ranged.known with coin | fate | ⟨numbered, n, known⟩
  · refine ⟨_, _, _, .coin, ?_, ?_, ?_⟩ <;>
      simp only [Ledger.denomination, Ledger.maximumValue, coin] <;> rfl
  · refine ⟨_, _, _, .fate, ?_, ?_, ?_⟩ <;>
      simp only [Ledger.denomination, Ledger.maximumValue, fate] <;> rfl
  · exact ⟨_, _, _, .numbered n, denomination_numbered numbered known, by rw [numbered]; rfl,
      maximumValue_numbered numbered known⟩

/-- Dice show the integers from the least to the greatest value, and nothing else. -/
theorem Shows.accepts {key : String} {least greatest : Int}
    (range : dice.Shows ledger key least greatest) (value : Json) :
    ledger.accepts dice value = .ok (match value with
      | .number (.int n) => decide (least ≤ n ∧ n ≤ greatest)
      | _ => false) := by
  unfold Ledger.accepts
  split
  · rename_i n
    rw [range.least, range.greatest]
    split
    · rename_i below
      refine congrArg Except.ok (decide_eq_false ?_).symm
      exact fun both => Int.not_le.2 below both.1
    · rename_i above
      change Json.atMost (.number (.int n)) (.number (.int greatest)) = _
      rw [Json.atMost_number, Number.atMost_int]
      have least_le := Int.not_lt.1 above
      simp only [least_le, true_and]
  · rename_i other
    cases value with
    | number n =>
      cases n with
      | int n => exact absurd rfl (other n)
      | real x => rfl
    | _ => rfl

/-- Ranged dice with the same key show the same values. -/
theorem IsRanged.accepts_congr (ranged : dice.IsRanged ledger) (further : other.IsRanged ledger)
    (same : ledger.denomination dice = ledger.denomination other) (value : Json) :
    ledger.accepts dice value = ledger.accepts other value := by
  rcases ranged.shows with ⟨key, least, greatest, range, shown⟩
  rcases further.shows with ⟨_, _, _, rangeToo, shownToo⟩
  cases shown.key.symm.trans (same.trans shownToo.key)
  rcases range.unique rangeToo with ⟨rfl, rfl⟩
  rw [shown.accepts, shownToo.accepts]

end DiceOf
end DiceNotation
