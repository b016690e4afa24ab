import DiceNotation.Proofs.Evaluation.Arithmetic
import DiceNotation.Proofs.Formula.Polynomials
import DiceNotation.Proofs.Formula.References
import DiceNotation.Proofs.Roll.Formulas

namespace DiceNotation

/-!
# Rolling written arithmetic

From the text to the total: a formula of arithmetic is parsed as a tree with its
value, the terms of the tree can always be built, and evaluating them gives the
value of the tree.  So the total of a roll is the value of what was written.
-/

namespace Build

variable {setup : Setup}

mutual

/-- The term of an arithmetic clause can be built, and it can stand in a row. -/
theorem clause_builds (setup : Setup) : (part : Clause) → part.IsArithmetic → (ledger : Ledger) →
    ∃ term last, clause setup part ledger = .ok (term, last) ∧ term.isWritten = true
  | .numeric value flavor raw, _, ledger => ⟨_, _, numeric_eq_ok.2 ⟨rfl, rfl⟩, rfl⟩
  | .group inner flavor raw, arithmetic, ledger => by
    obtain ⟨terms, middle, inside, written⟩ := terms_build setup inner arithmetic ledger
    obtain ⟨grown, spans, _⟩ := terms_built inner inside
    obtain ⟨row, rfl, proper, _⟩ := termRow_of_terms inside
    have around := roll_builds grown spans (TermRow.checkRow_terms proper written) [] []
    exact ⟨_, _, group_eq_ok.2 ⟨row.terms, middle, _, _, inside, around, rfl, rfl⟩, rfl⟩
  | .dice _ _ _ _ _, arithmetic, _ => absurd arithmetic id
  | .function _ _ _ _, arithmetic, _ => absurd arithmetic id
  | .pool _ _ _ _, arithmetic, _ => absurd arithmetic id
  | .text _ _ _, arithmetic, _ => absurd arithmetic id

/-- The terms of an arithmetic tree can be built. -/
theorem terms_build (setup : Setup) : (tree : Tree Clause) → TreeIsArithmetic tree →
    (ledger : Ledger) → ∃ row last, terms setup tree ledger = .ok (row, last) ∧
      ∀ term ∈ row, term.isWritten = true
  | .leaf part, arithmetic, ledger => by
    obtain ⟨term, last, built, written⟩ := clause_builds setup part arithmetic ledger
    refine ⟨[term], last, leaf_eq_ok.2 ⟨term, built, rfl⟩, ?_⟩
    intro other member
    obtain rfl := List.mem_singleton.1 member
    exact written
  | .node op left right, arithmetic, ledger => by
    obtain ⟨before, middle, first, written⟩ := terms_build setup left arithmetic.1 ledger
    obtain ⟨behind, last, second, writtenMore⟩ :=
      terms_build setup right arithmetic.2 middle.allot
    refine ⟨_, last, node_eq_ok.2 ⟨before, middle, behind, first, second, rfl⟩, ?_⟩
    intro term member
    rcases List.mem_append.1 member with member | member
    · exact written term member
    rcases List.mem_cons.1 member with rfl | member
    · rfl
    · exact writtenMore term member

end

end Build

namespace Arithmetic

/-- A formula can be rolled, and wherever nothing can be waited for its total is the
given number, or its evaluation fails if there is none. -/
def RollsTo (setup : Setup) (formula : String) (value : Option Number) : Prop :=
  ∀ ledger, ∃ roll last, Build.ofFormula setup { formula := formula } ledger = .ok (roll, last) ∧
    ∀ (options : Options) (surroundings : Surroundings) (progress : Progress),
      surroundings.setup = setup → surroundings.synchronous = true → progress.ledger = last →
      ∃ result later, roll.run options surroundings progress = (result, later) ∧
        Follows result (fun n => later.ledger.rollTotal roll = .number n) value

/-- An input can be rolled, and wherever nothing can be waited for its total is the given number,
or its evaluation fails if there is none. -/
def RollsWith (setup : Setup) (input : Build.RollInput) (value : Option Number) : Prop :=
  ∀ ledger, ∃ roll last, Build.ofFormula setup input ledger = .ok (roll, last) ∧
    ∀ (options : Options) (surroundings : Surroundings) (progress : Progress),
      surroundings.setup = setup → surroundings.synchronous = true → progress.ledger = last →
      ∃ result later, roll.run options surroundings progress = (result, later) ∧
        Follows result (fun n => later.ledger.rollTotal roll = .number n) value

/-- Wherever nothing can be waited for, the total of a roll as it was made is the given number, or
its evaluation fails if there is none. -/
def EvaluatesTo (setup : Setup) (roll : Roll) (made : Ledger) (value : Option Number) : Prop :=
  ∀ (options : Options) (surroundings : Surroundings) (progress : Progress),
    surroundings.setup = setup → surroundings.synchronous = true → progress.ledger = made →
    ∃ result later, roll.run options surroundings progress = (result, later) ∧
      Follows result (fun n => later.ledger.rollTotal roll = .number n) value

/-- A roll around the terms of an arithmetic tree can be made, and it has the total that the tree
amounts to. -/
theorem evaluatesTo_of_tree {setup : Setup} {settings : Settings}
    (valid : setup.settings = .ok settings) {tree : Tree Clause} (arithmetic : TreeIsArithmetic tree)
    (ledger : Ledger) : ∃ terms middle, Build.terms setup tree ledger = .ok (terms, middle) ∧
      ∀ options data, ∃ roll last, Build.roll options data terms middle = .ok (roll, last) ∧
        EvaluatesTo setup roll last (treeAmount tree) := by
  obtain ⟨terms, middle, inside, written⟩ := Build.terms_build setup tree arithmetic ledger
  obtain ⟨grown, spans, _⟩ := Build.terms_built tree inside
  obtain ⟨row, rfl, proper, _⟩ := Build.termRow_of_terms inside
  refine ⟨row.terms, middle, inside, fun given data => ?_⟩
  let roll : Roll := { id := middle.next, options := given, data := data, terms := row.terms }
  have around : Build.roll given data row.terms middle = .ok (roll, middle.allot) :=
    Build.roll_builds grown spans (TermRow.checkRow_terms proper written) _ _
  refine ⟨roll, middle.allot, around, ?_⟩
  rintro options surroundings progress rfl synchronous same
  -- the context of the roll, and the roll waiting in its ledger
  have opened : options.forRoll surroundings = .ok (options.contextWith surroundings
      (options.lenient.getD settings.lenientModifiers)
      (options.maxChainRolls.getD settings.maxChainRolls)) := by
    rw [Options.forRoll, valid]
    rfl
  let context := options.contextWith surroundings
    (options.lenient.getD settings.lenientModifiers)
    (options.maxChainRolls.getD settings.maxChainRolls)
  have waits : progress.ledger.Waits ledger.next (middle.next + 1) := by
    rw [same]
    exact .of_fresh (grown.trans (Ledger.Grown.allot middle)).fresh (Nat.le_refl _)
  have low : ledger.next ≤ middle.next := rowSpans_le spans
  have deeper : (progress.starting roll).ledger.Waits ledger.next middle.next := by
    have around : Between middle.next (middle.next + 1) roll.id :=
      ⟨Nat.le_refl _, Nat.lt_succ_self _⟩
    refine (waits.mono (Nat.le_refl _) (Nat.le_succ _)).of_touched
      (progress.touched_starting around) ?_
    intro id _ below inside
    exact absurd inside.1 (Nat.not_le.2 below)
  obtain ⟨other, sameRow, properToo, evaluates⟩ := Build.terms_evaluate context tree arithmetic inside
  obtain ⟨_, after, run, follows⟩ := evaluates (progress.starting roll) deeper
  obtain ⟨result, last, rolled, good⟩ := Build.ofRoll_follows context roll sameRow properToo
    (waits.rollPhase low (Nat.lt_succ_self _)) run follows
  have whole : roll.run options surroundings progress = (result, last) := by
    rw [RollOf.run, if_pos synchronous, RollOf.evaluateNow, opened]
    change (context.evaluateRoll roll progress).now roll.formula = _
    rw [rolled]
    rfl
  refine ⟨result, last, whole, ?_⟩
  change Follows result _ ((rowAmounts tree).bind fun found => numbers.total found.1 found.2)
  revert good
  cases (rowAmounts tree).bind fun found => numbers.total found.1 found.2 with
  | none => exact id
  | some n =>
    rintro ⟨good, total⟩
    refine ⟨good, ?_⟩
    rw [Ledger.rollTotal, Ledger.isRollEvaluated, total]
    rfl

/-- If the references of an input are replaced by an arithmetic text, then its roll has the total
that the tree of this text amounts to. -/
theorem rollsWith_of_parse {setup : Setup} {settings : Settings} (valid : setup.settings = .ok settings)
    (input : Build.RollInput) (plain : input.method = .null) {text : String}
    (replaced : Reference.replaceText input.formula input.data none = .ok text) {tree : Tree Clause}
    (parsed : Build.parseFormula setup text none = .ok tree) (arithmetic : TreeIsArithmetic tree) :
    RollsWith setup input (treeAmount tree) := by
  intro ledger
  obtain ⟨terms, middle, inside, rolls⟩ := evaluatesTo_of_tree valid arithmetic ledger
  obtain ⟨roll, last, around, evaluates⟩ := rolls input.options input.data
  have kept : last = Build.withGivenMethod input.method roll last := by
    rw [plain]
    rfl
  have built : Build.ofFormula setup input ledger = .ok (roll, last) :=
    Build.ofFormula_eq_ok.2 ⟨text, tree, terms, middle, last, replaced, parsed, inside, around,
      fun given => absurd plain given, kept⟩
  exact ⟨roll, last, built, evaluates⟩

/-- The roll of an arithmetic tree has the total that the tree amounts to. -/
theorem rollsTo_of_parse {setup : Setup} {settings : Settings} (valid : setup.settings = .ok settings)
    {formula : String} {tree : Tree Clause}
    (parsed : Build.parseFormula setup formula none = .ok tree) (arithmetic : TreeIsArithmetic tree) :
    RollsTo setup formula (treeAmount tree) :=
  rollsWith_of_parse valid { formula := formula } rfl
    (Reference.replaceText_nothing formula) parsed arithmetic

/-- Written arithmetic is rolled as it is read.  If every row of operators in it has
a meaning and not too many brackets are open at once, the total is the value of the
expression, and the evaluation fails where the expression has no value.  Without
quotients and remainders the total is the exact integer.  If some row of operators
has no meaning, the formula is refused. -/
theorem Expression.roll_eq_value {expression : Expression} (shape : expression.HasShape)
    {formula : String} (writes : expression.Writes formula) {setup : Setup} {settings : Settings}
    (valid : setup.settings = .ok settings) :
    (expression.IsMeaningful → expression.depth ≤ settings.maxNesting →
      RollsTo setup formula expression.value ∧
      (expression.IsPolynomial →
        ∃ n, expression.integer = some n ∧ RollsTo setup formula (some (.int n)))) ∧
    (¬expression.IsMeaningful →
      ∀ ledger, IsRefused (Build.ofFormula setup { formula := formula } ledger)) := by
  let source : Source := { text := formula.toList, imputeNumber := settings.imputeNumber,
                           maxNesting := settings.maxNesting }
  have reads : Build.parseFormula setup formula none = source.parse := by
    rw [Build.parseFormula, valid]
    rfl
  constructor
  · intro meaningful deep
    obtain ⟨tree, found, arithmetic, amount⟩ :=
      Expression.parse_found shape meaningful writes source rfl deep
    have rolls := rollsTo_of_parse valid (reads.trans found) arithmetic
    rw [amount] at rolls
    refine ⟨rolls, fun polynomial => ?_⟩
    obtain ⟨n, integer, value⟩ := Expression.value_of_polynomial meaningful polynomial
    rw [value] at rolls
    exact ⟨n, integer, rolls⟩
  · intro meaningless ledger
    obtain ⟨reason, text, part, place, refused⟩ :=
      Expression.parse_refused shape meaningless writes source rfl
    refine ⟨reason, text, part, place, ?_⟩
    rw [Build.ofFormula]
    change (Build.lift (Reference.replaceText formula [] none) >>= _) ledger = _
    rw [Reference.replaceText_nothing, Build.lift_ok_bind, reads, refused]
    rfl

/-- Twice the opposite of a difference, and one more behind two minus signs. -/
def sample : Expression :=
  .run [] (.literal ['2']) [
    (['*', '-'], .group (.run [] (.literal ['3']) [(['-'], .literal ['5'])])),
    (['-', '-'], .literal ['1'])]

theorem sample_writes : sample.Writes "2*-(3 - 5) --1" := by
  refine ⟨"2*-(3 - 5) --1".toList, [], ?_, by simp, by simp⟩
  have blank : ∀ c ∈ [' '], Text.isBlank c = true := Text.forall_of_all (by decide)
  have none : ∀ c ∈ ([] : List Char), Text.isBlank c = true := by simp
  exact .cons none <| .cons none <| .cons none <| .cons none <| .cons none <| .cons blank <|
    .cons blank <| .cons none <| .cons blank <| .cons none <| .cons none .nil

/-- The sample rolls to five. -/
theorem sample_rollsTo :
    RollsTo ⟨.ok {}, .standard⟩ "2*-(3 - 5) --1" (some (.int 5)) := by
  have shape : sample.HasShape := by
    simp only [sample, Expression.HasShape, Operand.HasShape, JoinedHaveShape,
      List.forall_mem_cons, List.not_mem_nil, false_implies, implies_true]
    decide
  have meaningful : sample.IsMeaningful := by
    simp only [sample, Expression.IsMeaningful, Operand.IsMeaningful, JoinedAreMeaningful,
      List.not_mem_nil, false_implies, implies_true]
    decide
  have valid : (Setup.mk (.ok {}) .standard).settings = .ok {} := rfl
  have rolls := (Expression.roll_eq_value shape sample_writes valid).1 meaningful (by decide)
  have value : sample.value = some (.int 5) := rfl
  rw [value] at rolls
  exact rolls.1

end Arithmetic
end DiceNotation
