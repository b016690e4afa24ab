import DiceNotation.Proofs.Evaluation.Handling

namespace DiceNotation

/-!
# The round trip of records

A roll is restored from its record, be it that nothing in it has been evaluated yet or
that it was evaluated with success.  In both cases each roll in it is evaluated exactly
when its terms are, and has the total that they give.  So the record can be restored,
whatever it says about the total of the roll itself, and what is restored cannot be
told from the roll.
-/

/-! ## What can be seen -/

/-- A term and its copy look the same, each in its ledger. -/
structure Term.LooksLike (ledger other : Ledger) (term copy : Term) : Prop where
  record : other.record copy = ledger.record term
  formula : copy.formula = term.formula
  evaluated : other.isEvaluated copy = ledger.isEvaluated term
  total : other.total copy = ledger.total term

/-- A roll and its copy look the same, each in its ledger. -/
structure RollOf.LooksLike (ledger other : Ledger) (roll copy : Roll) : Prop where
  record : other.recordOfRoll copy = ledger.recordOfRoll roll
  formula : copy.formula = roll.formula
  evaluated : other.isRollEvaluated copy = ledger.isRollEvaluated roll
  total : other.rollTotal copy = ledger.rollTotal roll
  result : other.result copy = ledger.result roll
  outcomes : (copy.dice.map fun dice => other.outcomes dice.tag.id) =
    roll.dice.map fun dice => ledger.outcomes dice.tag.id

section

variable {f : Identity → Identity} {ledger other : Ledger}

theorem Term.Copied.looksLike {term : Term} (copied : term.Copied f ledger other) :
    term.LooksLike ledger other (term.renumber f) where
  record := copied.record
  formula := Term.formula_renumber f term
  evaluated := copied.here.evaluated
  total := copied.total

theorem RollOf.Copied.looksLike {roll : Roll} (copied : roll.Copied f ledger other) :
    roll.LooksLike ledger other (roll.renumber f) where
  record := copied.record
  formula := RollOf.formula_renumber f roll
  evaluated := copied.around.evaluated
  total := copied.around.total
  result := copied.result
  outcomes := copied.diceOutcomes

/-- All that is in a copied row looks the same. -/
theorem RowCopied.looksLike {terms : List Term} {first stop : Nat}
    (copied : RowCopied f ledger other terms) (spans : RowSpans terms first stop) :
    RowThroughout (fun term => term.LooksLike ledger other (term.renumber f))
      (fun roll => roll.LooksLike ledger other (roll.renumber f)) terms := by
  refine RowThroughout.imp spans ?_ ?_ copied.nested
  · exact fun term _ _ inside => Term.Copied.looksLike inside
  · exact fun roll _ _ inside => RollOf.Copied.looksLike ⟨inside.1, inside.2⟩

end

/-! ## What is complete can be restored -/

namespace RollOf

variable {ledger : Ledger} {roll : Roll} {first stop : Nat}

/-- A roll that is settled is faithful. -/
theorem IsSettled.isFaithful (settled : roll.IsSettled ledger)
    (row : RowSettled ledger roll.terms) : roll.IsFaithful ledger := by
  refine ⟨?_, fun _ => settled.total⟩
  rw [settled.evaluated, eq_comm, List.all_eq_true]
  intro term member
  exact (row.of_mem member).here

/-- A roll that is not being evaluated is restorable with every roll in it. -/
theorem Stage.restorable (stage : roll.Stage first stop ledger)
    (complete : (ledger.roll roll.id).phase ≠ .evaluating) (spans : roll.Spans first stop)
    (sound : roll.IsSound) (row : RowThroughout (fun _ => True) RollOf.IsSound roll.terms) :
    roll.IsRestorable ledger ∧
      RowThroughout (fun _ => True) (RollOf.IsRestorable ledger) roll.terms := by
  cases stage with
  | waiting waits =>
    refine ⟨⟨sound, sound.faithful_of_waits spans waits⟩, ?_⟩
    refine RowThroughout.imp_spans spans.1 (fun _ _ _ _ _ _ given => given) ?_ row
    intro inner low high above below inside sound
    exact ⟨sound, sound.faithful_of_waits inside
      (waits.mono above (Nat.le_trans below (Nat.le_of_lt spans.bounds.2)))⟩
  | begun phase => exact absurd phase complete
  | ended settled =>
    refine ⟨⟨sound, settled.around.isFaithful settled.row⟩, ?_⟩
    refine RowThroughout.imp spans.1 (fun _ _ _ _ => trivial) ?_ settled.row.nested
    exact fun inner _ _ inside => ⟨inside.1.sound, inside.1.isFaithful inside.2⟩

end RollOf

namespace Build

variable {setup : Setup}

end Build
end DiceNotation
