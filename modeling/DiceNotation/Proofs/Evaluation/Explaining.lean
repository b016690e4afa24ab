import DiceNotation.Proofs.Evaluation.Settled
import DiceNotation.Proofs.Formula.Overflows
import DiceNotation.Proofs.Roll.Built
import DiceNotation.Roll.Explanation

namespace DiceNotation

/-!
# Explanations of evaluated rolls

Every roll that has been evaluated can be explained.  Its total was computed from the totals
of its operands, so each of them has one, and what is inside a term was settled before the
term.  Therefore all dice and pools have totals, and each line of the explanation can be
written.
-/

/-- Whether a term has a total if it is an operand. -/
def Term.HasTotal (ledger : Ledger) (term : Term) : Prop :=
  term.isOperand = true → ∃ value, ledger.total term = .ok value

variable {ledger : Ledger}

theorem Term.HasTotal.totalOf {term : Term} (has : term.HasTotal ledger)
    (operand : term.isOperand = true) (evaluated : ledger.isEvaluated term = true) :
    ∃ value, ledger.totalOf term = .ok value := by
  rcases has operand with ⟨value, total⟩
  unfold Ledger.total at total
  rw [if_pos evaluated] at total
  exact ⟨value, total⟩

/-- The operands of an evaluated roll have totals. -/
theorem RollOf.IsSettled.totals {roll : Roll} (settled : roll.IsSettled ledger) :
    ∀ term ∈ roll.terms, term.HasTotal ledger :=
  settled.sound.totals_of_totalOfTerms settled.total

/-- Groups have a total at any time. -/
theorem Term.hasTotal_group (tag : Tag) (roll : Roll) : (Term.group tag roll).HasTotal ledger := by
  intro _
  unfold Ledger.total
  split
  · exact ⟨_, rfl⟩
  · exact ⟨_, rfl⟩

/-! ## Everything inside a settled roll has a total -/

mutual

/-- If a settled term has a total, so has everything in it. -/
theorem Term.Settled.totals : (term : Term) → term.Settled ledger → term.HasTotal ledger →
    term.Throughout Term.IsSound (fun _ => True) →
    term.Throughout (Term.HasTotal ledger) fun _ => True
  | .numeric _ _, _, has, _ => has
  | .operator _ _, _, has, _ => has
  | .text _ _, _, has, _ => has
  | .group _ roll, ⟨_, around, row⟩, has, ⟨_, _, sound⟩ =>
    ⟨has, trivial, RowSettled.totals roll.terms row around.totals sound⟩
  | .function _ _ rolls, ⟨_, inside⟩, has, ⟨_, sound⟩ =>
    ⟨has, RollsSettled.totals rolls inside sound⟩
  | .dice d, ⟨_, number, faces⟩, has, ⟨here, numbers, sides⟩ =>
    ⟨has, AmountSettled.totals d.number number here.numberBracketed numbers,
      AmountSettled.totals d.faces faces here.facesBracketed sides⟩
  | .pool p, ⟨_, inside⟩, has, ⟨_, sound⟩ => ⟨has, RollsSettled.totals p.rolls inside sound⟩

/-- If the terms of a settled row have totals, so has everything in them. -/
theorem RowSettled.totals : (terms : List Term) → RowSettled ledger terms →
    (∀ term ∈ terms, term.HasTotal ledger) → RowThroughout Term.IsSound (fun _ => True) terms →
    RowThroughout (Term.HasTotal ledger) (fun _ => True) terms
  | [], _, _, _ => trivial
  | term :: rest, ⟨settled, later⟩, totals, ⟨sound, others⟩ =>
    have ⟨here, more⟩ := List.forall_mem_cons.1 totals
    ⟨Term.Settled.totals term settled here sound, RowSettled.totals rest later more others⟩

/-- Everything in settled rolls has a total. -/
theorem RollsSettled.totals : (rolls : List Roll) → RollsSettled ledger rolls →
    RollsThroughout Term.IsSound (fun _ => True) rolls →
    RollsThroughout (Term.HasTotal ledger) (fun _ => True) rolls
  | [], _, _ => trivial
  | roll :: rest, ⟨around, row, later⟩, ⟨_, sound, others⟩ =>
    ⟨trivial, RowSettled.totals roll.terms row around.totals sound,
      RollsSettled.totals rest later others⟩

/-- Everything in a settled amount has a total. -/
theorem AmountSettled.totals : (amount : Operand Term) → AmountSettled ledger amount →
    amount.IsBracketed → AmountThroughout Term.IsSound (fun _ => True) amount →
    AmountThroughout (Term.HasTotal ledger) (fun _ => True) amount
  | .known _, _, _, _ => trivial
  | .computed term, settled, bracketed, sound => by
    refine Term.Settled.totals term settled ?_ sound
    rcases bracketed with ⟨tag, roll, rfl⟩
    exact Term.hasTotal_group tag roll

end

/-! ## The parts of an explanation -/

theorem mapM_ok {α β : Type} {f : α → Except Fault β} {list : List α}
    (each : ∀ a ∈ list, ∃ b, f a = .ok b) : ∃ results, list.mapM f = .ok results := by
  induction list with
  | nil => exact ⟨[], rfl⟩
  | cons a rest ih =>
    rcases List.forall_mem_cons.1 each with ⟨⟨b, here⟩, later⟩
    rcases ih later with ⟨results, more⟩
    refine ⟨b :: results, ?_⟩
    rw [List.mapM_cons, here, more]
    rfl

namespace Ledger

/-- A term is shown in a result once it has a total. -/
theorem resultPart_ok {term : Term} (has : term.HasTotal ledger) :
    ∃ part, ledger.resultPart term = .ok part := by
  unfold resultPart
  split
  · rename_i evaluated
    have value : ∃ value, ledger.totalOf term = .ok value := by
      by_cases operand : term.isOperand = true
      · exact has.totalOf operand evaluated
      · cases term with
        | operator tag op => exact ⟨_, rfl⟩
        | _ => exact absurd rfl operand
    rcases value with ⟨value, total⟩
    rw [total]
    exact ⟨_, rfl⟩
  · exact ⟨_, rfl⟩

theorem diceLine_ok {dice : Dice} (has : (Term.dice dice).HasTotal ledger) :
    ∃ line, ledger.diceLine dice = .ok line := by
  rcases has rfl with ⟨value, total⟩
  unfold diceLine
  rw [total]
  exact ⟨_, rfl⟩

theorem poolLine_ok {pool : Pool} (has : (Term.pool pool).HasTotal ledger) :
    ∃ line, ledger.poolLine pool = .ok line := by
  rcases has rfl with ⟨value, total⟩
  unfold poolLine
  rw [total]
  exact ⟨_, rfl⟩

theorem mem_of_mem_poolsAmong {terms : List Term} {pool : Pool} (member : pool ∈ poolsAmong terms) :
    Term.pool pool ∈ terms := by
  rcases List.mem_filterMap.1 member with ⟨term, inside, found⟩
  cases term with
  | pool p =>
    obtain rfl := Option.some.inj found
    exact inside
  | _ => cases found

section

variable {roll : Roll} (settled : roll.Settled ledger)
include settled

/-- The result of a settled roll can be written. -/
theorem result_ok : ∃ text, ledger.result roll = .ok text := by
  rcases mapM_ok fun term member => resultPart_ok (settled.around.totals term member) with
    ⟨parts, found⟩
  unfold result
  rw [found]
  exact ⟨_, rfl⟩

/-- A settled roll can be explained. -/
theorem explanation_ok (sound : RowThroughout Term.IsSound (fun _ => True) roll.terms) :
    ∃ text, ledger.explanation roll = .ok text := by
  have all := RowSettled.totals roll.terms settled.row settled.around.totals sound
  rcases mapM_ok fun dice member => diceLine_ok (all.diceFrom dice member) with ⟨dice, rolled⟩
  have pools : ∀ pool ∈ poolsAmong roll.terms, ∃ line, ledger.poolLine pool = .ok line :=
    fun pool member => poolLine_ok (settled.around.totals _ (mem_of_mem_poolsAmong member))
  rcases mapM_ok pools with ⟨lines, pooled⟩
  rcases result_ok settled with ⟨text, written⟩
  unfold explanation RollOf.dice
  rw [if_pos settled.around.evaluated, rolled, pooled, written]
  exact ⟨_, rfl⟩

end

end Ledger
end DiceNotation
