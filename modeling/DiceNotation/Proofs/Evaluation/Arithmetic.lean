import DiceNotation.Proofs.Evaluation.Frame
import DiceNotation.Proofs.Formula.ArithmeticScan
import DiceNotation.Proofs.Formula.Totals
import DiceNotation.Proofs.Roll.Built

namespace DiceNotation

/-!
# Evaluating written arithmetic

The terms of arithmetic can be built and evaluated without waiting for anything.
What comes out is what the clauses amount to: the evaluation succeeds if there is
such an amount, and fails if there is none.  The proof follows the clauses and trees
from the inside to the outside.  The evaluation of one operand leaves the others
alone, so what was found out about an operand stays true until the row is summed up.
-/

/-! ## Evaluations that are done at once -/

namespace Evaluation

/-- A term is evaluated if what is inside it can be evaluated. -/
theorem ofTerm_of_done {term : Term} {work : Evaluation Unit} {progress later : Progress}
    {result : Except Fault Unit}
    (untouched : (progress.ledger.term term.id).phase = .unevaluated)
    (run : work (progress.entering term .evaluating) = .done result later) :
    ofTerm term work progress = match result with
      | .ok () => .done (.ok ()) (later.entering term .evaluated)
      | .error fault => .done (.error fault) later := by
  rw [ofTerm_of_unevaluated untouched]
  cases result with
  | ok =>
    rw [bind_done run]
    rfl
  | error fault => rw [bind_failed run]

/-- A roll is evaluated if its terms can be evaluated and have a total. -/
theorem ofRoll_of_done {roll : Roll} {work : Evaluation Unit} {progress later : Progress}
    {result : Except Fault Unit}
    (untouched : (progress.ledger.roll roll.id).phase = .unevaluated)
    (run : work (progress.starting roll) = .done result later) :
    ofRoll roll work progress = match result, later.ledger.totalOfTerms roll.terms with
      | .ok (), .ok total => .done (.ok ()) (later.finishing roll total)
      | .ok (), .error fault => .done (.error fault) later
      | .error fault, _ => .done (.error fault) later := by
  rw [ofRoll_of_unevaluated untouched]
  cases result with
  | error fault => rw [bind_failed run]
  | ok =>
    rw [bind_done run, sumUp]
    cases later.ledger.totalOfTerms roll.terms <;> rfl

end Evaluation

/-- Brackets that are evaluated have the total of the roll in them. -/
theorem Progress.total_brackets (progress : Progress) (tag : Tag) {roll : Roll} {total : Json}
    (known : progress.ledger.roll roll.id = ⟨.evaluated, total⟩) :
    (progress.entering (.group tag roll) .evaluated).ledger.total (.group tag roll) =
      .ok total := by
  have same : (progress.entering (.group tag roll) .evaluated).ledger.roll roll.id =
      ⟨.evaluated, total⟩ := known
  rw [Ledger.total, progress.isEvaluated_entering, if_pos rfl, Ledger.totalOf, Ledger.rollTotal,
    Ledger.isRollEvaluated, same]
  rfl

/-- Rows are evaluated one behind the other. -/
theorem Context.evaluateTerms_append (context : Context) (front back : List Term) :
    context.evaluateTerms (front ++ back) = (do
      context.evaluateTerms front
      context.evaluateTerms back) := by
  induction front with
  | nil =>
    rw [List.nil_append, Context.evaluateTerms]
    exact (pure_bind _ _).symm
  | cons term rest ih =>
    rw [List.cons_append, Context.evaluateTerms, Context.evaluateTerms, ih, bind_assoc]

/-! ## Rows that amount to numbers -/

/-- An evaluation succeeds with what holds of a value, or fails if there is no value. -/
def Follows {α : Type} (result : Except Fault Unit) (holds : α → Prop) : Option α → Prop
  | some value => result = .ok () ∧ holds value
  | none => ∃ fault, result = .error fault

/-- The number that a term amounts to. -/
def Ledger.numberOf (ledger : Ledger) (term : Term) : Number :=
  match ledger.total term with
  | .ok (.number n) => n
  | _ => .int 0

theorem Ledger.numberOf_of_total {ledger : Ledger} {term : Term} {n : Number}
    (total : ledger.total term = .ok (.number n)) : ledger.numberOf term = n := by
  rw [Ledger.numberOf, total]

/-- What the operands of a row amount to, with the operators between them. -/
def TermRow.amounts (row : TermRow) (value : Term → Number) :
    Number × List (Operator × Number) :=
  (value row.first, row.joined.map fun next => (next.1, value next.2))

/-- Every operand of a row amounts to a number, and these are the given ones. -/
structure TermRow.AmountsTo (row : TermRow) (ledger : Ledger)
    (amounts : Number × List (Operator × Number)) : Prop where
  known : ∀ term ∈ row.operands, ledger.total term = .ok (.number (ledger.numberOf term))
  same : amounts = row.amounts ledger.numberOf

namespace TermRow

theorem AmountsTo.append {row other : TermRow} {ledger : Ledger}
    {before behind : Number × List (Operator × Number)} (first : row.AmountsTo ledger before)
    (second : other.AmountsTo ledger behind) (tag : Tag) (op : Operator) :
    (row.append tag op other).AmountsTo ledger
      (before.1, before.2 ++ (op, behind.1) :: behind.2) where
  known := by
    intro term member
    rw [operands_append] at member
    rcases List.mem_append.1 member with member | member
    · exact first.known term member
    · exact second.known term member
  same := by
    rw [first.same, second.same, amounts, amounts, amounts, joined_append]
    simp [TermRow.append]

/-- What a row amounts to stays true while its terms are left alone. -/
theorem AmountsTo.of_same {row : TermRow} {ledger other : Ledger}
    {amounts : Number × List (Operator × Number)} (holds : row.AmountsTo ledger amounts)
    (same : ∀ term ∈ row.operands, ledger.total term = other.total term) :
    row.AmountsTo other amounts := by
  have number : ∀ term ∈ row.operands, ledger.numberOf term = other.numberOf term := by
    intro term member
    rw [Ledger.numberOf, same term member]
    rfl
  constructor
  · intro term member
    rw [← same term member, ← number term member]
    exact holds.known term member
  · rw [holds.same, TermRow.amounts, TermRow.amounts, number row.first List.mem_cons_self]
    refine congrArg (Prod.mk _) (List.map_congr_left fun next member => ?_)
    obtain ⟨whole, inside, rfl⟩ := List.mem_map.1 member
    have operand : whole.2.2 ∈ row.operands := List.mem_cons_of_mem _ (List.mem_map_of_mem inside)
    rw [number _ operand]

/-- The total of a row of numbers is what the numbers amount to. -/
theorem AmountsTo.total {row : TermRow} {ledger : Ledger}
    {amounts : Number × List (Operator × Number)} (proper : row.IsProper)
    (holds : row.AmountsTo ledger amounts) :
    Arithmetic.Gives (ledger.totalOfTerms row.terms)
      (Arithmetic.numbers.total amounts.1 amounts.2) := by
  have tree := treeOfTerms_terms proper (formulaOf row.terms)
  have total : Arithmetic.Gives
      ((Tree.ofRun (.leaf row.first) (Tree.singles row.joined)).total ledger.total
        (formulaOf row.terms))
      ((Tree.ofRun (.leaf row.first) (Tree.singles row.joined)).amount Arithmetic.numbers
        ledger.numberOf) := by
    refine Tree.total_gives (formulaOf row.terms) fun term member => ?_
    rw [leaves_tree] at member
    exact holds.known term member
  rw [Tree.amount_ofRun] at total
  rw [Ledger.totalOfTerms, tree, holds.same]
  exact total

end TermRow

namespace Build

open Arithmetic (Gives numbers)

variable {setup : Setup} (context : Context)

/-- A roll whose terms follow the amounts of a tree follows the amount of the tree. -/
theorem ofRoll_follows (roll : Roll) {row : TermRow} (same : roll.terms = row.terms)
    (proper : row.IsProper) {progress later : Progress} {result : Except Fault Unit}
    {amounts : Option (Number × List (Operator × Number))}
    (untouched : (progress.ledger.roll roll.id).phase = .unevaluated)
    (run : context.evaluateTerms roll.terms (progress.starting roll) = .done result later)
    (follows : Follows result (fun found => row.AmountsTo later.ledger found) amounts) :
    ∃ result last, context.evaluateRoll roll progress = .done result last ∧
      Follows result (fun n => last.ledger.roll roll.id = ⟨.evaluated, .number n⟩)
        (amounts.bind fun found => numbers.total found.1 found.2) := by
  have evaluated := Evaluation.ofRoll_of_done untouched run
  change context.evaluateRoll roll progress = _ at evaluated
  cases amounts with
  | none =>
    obtain ⟨fault, rfl⟩ := follows
    exact ⟨_, later, evaluated, fault, rfl⟩
  | some found =>
    obtain ⟨rfl, holds⟩ := follows
    have total := holds.total proper
    rw [← same] at total
    change ∃ result last, _ ∧ Follows result _ (numbers.total found.1 found.2)
    cases sum : numbers.total found.1 found.2 with
    | none =>
      rw [sum] at total
      obtain ⟨fault, refused⟩ := total
      rw [refused] at evaluated
      exact ⟨_, later, evaluated, fault, rfl⟩
    | some n =>
      rw [sum] at total
      change later.ledger.totalOfTerms roll.terms = .ok (.number n) at total
      rw [total] at evaluated
      refine ⟨_, later.finishing roll (.number n), evaluated, rfl, ?_⟩
      exact later.roll_finishing roll _

mutual

/-- The term of an arithmetic clause evaluates to what the clause amounts to. -/
theorem clause_evaluates : (part : Clause) → part.IsArithmetic → {ledger last : Ledger} →
    {term : Term} → clause setup part ledger = .ok (term, last) → (progress : Progress) →
    progress.ledger.Waits ledger.next last.next →
    ∃ result later, context.evaluateTerm term progress = .done result later ∧
      Follows result (fun n => later.ledger.total term = .ok (.number n)) part.amount
  | .numeric value flavor raw, _, ledger, last, term, built, progress, waits => by
    obtain ⟨rfl, rfl⟩ := numeric_eq_ok.1 built
    have here := waits.phase (Nat.le_refl _) (Nat.lt_succ_self _)
    refine ⟨.ok (), _, Evaluation.ofTerm_of_done here rfl, rfl, ?_⟩
    simp [Ledger.total, Ledger.totalOf, Ledger.isEvaluated, Progress.entering,
      Progress.updateLedger, Ledger.term_updateTerm]
  | .group inner flavor raw, arithmetic, ledger, last, term, built, progress, waits => by
    obtain ⟨terms, middle, roll, later, inside, around, rfl, rfl⟩ := group_eq_ok.1 built
    obtain ⟨grown, spans, _⟩ := terms_built inner inside
    obtain ⟨rfl, rfl, checked⟩ := roll_of_fresh grown spans around
    obtain ⟨row, rfl, proper, evaluates⟩ := terms_evaluate inner arithmetic inside
    let roll : Roll := { id := middle.next, options := [], data := [], terms := row.terms }
    let tag : Tag := ⟨middle.next + 1, flavorOptions flavor⟩
    have low : ledger.next ≤ middle.next := rowSpans_le spans
    have untouched := waits.phase (Nat.le_succ_of_le low) (Nat.lt_succ_self (middle.next + 1))
    have here : Between (middle.next + 1) (middle.next + 2) (Term.group tag roll).id :=
      ⟨Nat.le_refl _, Nat.lt_succ_self _⟩
    have around : Between middle.next (middle.next + 1) roll.id :=
      ⟨Nat.le_refl _, Nat.lt_succ_self _⟩
    -- the term and then the roll are marked, and what is inside them still waits
    let entered := progress.entering (.group tag roll) .evaluating
    have outer : entered.ledger.Waits ledger.next (middle.next + 1) := by
      refine (waits.mono (Nat.le_refl _) (Nat.le_succ _)).of_touched
        (progress.touched_entering here _) ?_
      intro id _ below inside
      exact absurd inside.1 (Nat.not_le.2 below)
    have deeper : (entered.starting roll).ledger.Waits ledger.next middle.next := by
      refine (outer.mono (Nat.le_refl _) (Nat.le_succ _)).of_touched
        (entered.touched_starting around) ?_
      intro id _ below inside
      exact absurd inside.1 (Nat.not_le.2 below)
    obtain ⟨_, after, run, follows⟩ := evaluates (entered.starting roll) deeper
    have unrolled := outer.rollPhase low (Nat.lt_succ_self middle.next)
    obtain ⟨result, final, rolled, good⟩ := ofRoll_follows context roll rfl proper unrolled run follows
    have not : entered.ledger.isRollEvaluated roll = false := by
      rw [Ledger.isRollEvaluated, unrolled]
      rfl
    have work := Evaluation.unlessRollEvaluated_of_not not (context.evaluateRoll roll)
    rw [rolled] at work
    have evaluated := Evaluation.ofTerm_of_done untouched work
    change context.evaluateTerm (.group tag roll) progress = _ at evaluated
    change ∃ result later, context.evaluateTerm (.group tag roll) progress = .done result later ∧ _
    rw [evaluated, Clause.amount]
    revert good
    cases (rowAmounts inner).bind fun found => numbers.total found.1 found.2 with
    | none =>
      rintro ⟨fault, rfl⟩
      exact ⟨_, final, rfl, fault, rfl⟩
    | some n =>
      rintro ⟨rfl, total⟩
      exact ⟨_, _, rfl, rfl, final.total_brackets tag total⟩
  | .dice _ _ _ _ _, arithmetic, _, _, _, _, _, _ => absurd arithmetic id
  | .function _ _ _ _, arithmetic, _, _, _, _, _, _ => absurd arithmetic id
  | .pool _ _ _ _, arithmetic, _, _, _, _, _, _ => absurd arithmetic id
  | .text _ _ _, arithmetic, _, _, _, _, _, _ => absurd arithmetic id

/-- The terms of an arithmetic tree evaluate to what its operands amount to. -/
theorem terms_evaluate : (tree : Tree Clause) → TreeIsArithmetic tree → {ledger last : Ledger} →
    {terms : List Term} → Build.terms setup tree ledger = .ok (terms, last) →
    ∃ row : TermRow, terms = row.terms ∧ row.IsProper ∧ ∀ progress : Progress,
      progress.ledger.Waits ledger.next last.next →
      ∃ result later, context.evaluateTerms terms progress = .done result later ∧
        Follows result (fun amounts => row.AmountsTo later.ledger amounts) (rowAmounts tree)
  | .leaf part, arithmetic, ledger, last, terms, built => by
    obtain ⟨term, single, rfl⟩ := leaf_eq_ok.1 built
    obtain ⟨_, spans, _⟩ := clause_built part single
    refine ⟨⟨term, []⟩, rfl, ?_, fun progress waits => ?_⟩
    · intro operand member
      obtain rfl := List.mem_singleton.1 member
      exact isOperand_of_clause single
    obtain ⟨result, later, run, follows⟩ := clause_evaluates part arithmetic single progress waits
    have work := Evaluation.unlessEvaluated_of_not
      (waits.isEvaluated spans.first_le spans.id_lt) (context.evaluateTerm term)
    rw [run] at work
    change ∃ result later, (Evaluation.unlessEvaluated term (context.evaluateTerm term) >>=
      fun _ => context.evaluateTerms []) progress = .done result later ∧
      Follows result _ (part.amount.bind fun n => some (n, []))
    revert follows
    cases part.amount with
    | none =>
      rintro ⟨fault, rfl⟩
      exact ⟨_, later, Evaluation.bind_failed work, fault, rfl⟩
    | some n =>
      rintro ⟨rfl, total⟩
      refine ⟨.ok (), later, Evaluation.bind_done work, rfl, ?_⟩
      have number := Ledger.numberOf_of_total total
      constructor
      · intro operand member
        obtain rfl := List.mem_singleton.1 member
        rw [number]
        exact total
      · exact congrArg (fun m => (m, [])) number.symm
  | .node op left right, arithmetic, ledger, last, terms, built => by
    obtain ⟨before, middle, behind, first, second, rfl⟩ := node_eq_ok.1 built
    obtain ⟨_, spans, _⟩ := terms_built left first
    obtain ⟨_, spansMore, _⟩ := terms_built right second
    obtain ⟨row, rfl, proper, evaluates⟩ := terms_evaluate left arithmetic.1 first
    obtain ⟨other, rfl, properMore, evaluatesMore⟩ := terms_evaluate right arithmetic.2 second
    let joining : Term := .operator ⟨middle.next, []⟩ op
    have low : ledger.next ≤ middle.next := rowSpans_le spans
    have high : middle.next + 1 ≤ last.next := rowSpans_le spansMore
    refine ⟨row.append ⟨middle.next, []⟩ op other, (TermRow.terms_append ..).symm,
      proper.append properMore _ op, fun progress waits => ?_⟩
    rw [context.evaluateTerms_append]
    -- the operands on the left are evaluated, and what is behind them waits
    obtain ⟨result, later, run, follows⟩ := evaluates progress
      (waits.mono (Nat.le_refl _) (Nat.le_trans (Nat.le_succ _) high))
    have touched : (context.evaluateTerms row.terms progress).Keeps (FrameRule.touched _) progress :=
      Context.keeps_evaluateTerms context.follows_touched row.terms spans.inside progress
    rw [run] at touched
    change progress.Touched (Between ledger.next middle.next) later at touched
    have rest : later.ledger.Waits middle.next last.next :=
      (waits.mono low (Nat.le_refl _)).of_touched touched
        fun id above _ inside => absurd inside.2 (Nat.not_lt.2 above)
    rw [rowAmounts]
    revert follows
    cases rowAmounts left with
    | none =>
      rintro ⟨fault, rfl⟩
      exact ⟨_, later, Evaluation.bind_failed run, fault, rfl⟩
    | some found =>
      rintro ⟨rfl, holds⟩
      rw [Evaluation.bind_done run]
      -- then the operator, which amounts to nothing
      have here := rest.phase (Nat.le_refl _) high
      have not : later.ledger.isEvaluated joining = false := rest.isEvaluated (Nat.le_refl _) high
      have reached := Evaluation.unlessEvaluated_of_not not (context.evaluateTerm joining)
      have joined : context.evaluateTerm joining later = _ := Evaluation.ofTerm_of_done here rfl
      rw [joined] at reached
      change ∃ result last, (Evaluation.unlessEvaluated joining (context.evaluateTerm joining) >>=
        fun _ => context.evaluateTerms other.terms) later = .done result last ∧ _
      rw [Evaluation.bind_done reached]
      let between := (later.entering joining .evaluating).entering joining .evaluated
      have own : Between middle.next (middle.next + 1) joining.id :=
        ⟨Nat.le_refl _, Nat.lt_succ_self _⟩
      have entered : later.Touched (Between middle.next (middle.next + 1)) between :=
        Ledger.Touched.trans (later.touched_entering own _)
          ((later.entering joining .evaluating).touched_entering own _)
      have behind : between.ledger.Waits (middle.next + 1) last.next :=
        (rest.mono (Nat.le_succ _) (Nat.le_refl _)).of_touched entered
          fun id above _ inside => absurd inside.2 (Nat.not_lt.2 above)
      -- then the operands on the right, which leaves those on the left alone
      obtain ⟨result, final, runMore, follows⟩ := evaluatesMore between behind
      have keeps := Context.keeps_evaluateTerms context.follows_touched other.terms spansMore.inside
      have touchedMore := keeps between
      rw [runMore] at touchedMore
      change between.Touched (Between (middle.next + 1) last.next) final at touchedMore
      have since : later.Touched (Between middle.next last.next) final :=
        Ledger.Touched.trans
          (Ledger.Touched.mono entered fun id inside => ⟨inside.1, Nat.lt_of_lt_of_le inside.2 high⟩)
          (Ledger.Touched.mono touchedMore fun id inside => ⟨Nat.le_of_succ_le inside.1, inside.2⟩)
      refine ⟨result, final, runMore, ?_⟩
      revert follows
      cases rowAmounts right with
      | none => exact id
      | some more =>
        rintro ⟨rfl, holdsMore⟩
        have same : Ledger.SameOn later.ledger final.ledger ledger.next middle.next :=
          Ledger.Touched.sameOn since
            (Nat.le_trans (Nat.le_trans (Nat.le_succ _) high) rest.used)
            fun id _ below inside => absurd inside.1 (Nat.not_le.2 below)
        refine ⟨rfl, TermRow.AmountsTo.append (holds.of_same fun term member => ?_) holdsMore _ op⟩
        obtain ⟨from_, upTo, above, below, inside⟩ :=
          spans.of_mem (TermRow.mem_terms_of_mem_operands member)
        exact (same.mono above below).total inside

end

end Build
end DiceNotation
