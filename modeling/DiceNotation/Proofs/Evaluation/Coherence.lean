import DiceNotation.Proofs.Evaluation.Explaining
import DiceNotation.Proofs.Evaluation.Handling
import DiceNotation.Proofs.Formula.Grouping
import DiceNotation.Proofs.Formula.Totals
import DiceNotation.Proofs.Fulfillment.Finality

namespace DiceNotation

/-!
# Evaluated rolls add up

The total of a roll is kept when it is evaluated, while those of dice, pools and functions are
computed from what is inside them whenever they are read.  In an evaluated roll both agree at
every depth: everything in it is evaluated and has a total, and each roll has kept what its
precedence tree gives.  Totals are numbers or texts, so none of them can be taken for a total
that is missing.

The outside must leave the roll alone once its evaluation has begun.  A resolver that was asked
for dice in the middle of their evaluation, and not by it, appends values to dice whose total
has been used already.
-/

/-! ## Totals that are there -/

namespace Json

/-- Whether a value is a number or a text. -/
def IsScalar : Json → Prop
  | .number _ => True
  | .string _ => True
  | _ => False

theorem isScalar_of_number {value : Json} (number : ∃ n, value = .number n) : value.IsScalar := by
  rcases number with ⟨n, rfl⟩
  trivial

theorem combine_eq_ok {operation : Number → Number → Except NumberFault Number} {a b value : Json}
    (found : combine operation a b = .ok value) : ∃ n, value = .number n := by
  unfold combine at found
  split at found
  · rename_i m n _ _
    cases computed : liftNumber (operation m n) with
    | error fault =>
      rw [computed] at found
      cases found
    | ok result =>
      rw [computed] at found
      exact ⟨result, (Except.ok.inj found).symm⟩
  · cases found

/-- A sum is a number. -/
theorem total_eq_ok {values : List Json} {value : Json} (found : total values = .ok value) :
    ∃ n, value = .number n := by
  have from_ (values : List Json) (start : Number)
      (found : values.foldlM add (.number start) = .ok value) : ∃ n, value = .number n := by
    induction values generalizing start with
    | nil => exact ⟨start, (Except.ok.inj found).symm⟩
    | cons first rest ih =>
      rw [List.foldlM_cons] at found
      rcases result_bind found with ⟨sum, added, more⟩
      rcases combine_eq_ok added with ⟨next, rfl⟩
      exact ih next more
  exact from_ values (.int 0) found

/-- What is chosen is one of the values. -/
theorem mem_of_first {before : Json → Json → Except Fault Bool} {best value : Json}
    {rest : List Json} (chosen : first before best rest = .ok value) : value ∈ best :: rest := by
  induction rest generalizing best with
  | nil => exact Except.ok.inj chosen ▸ List.mem_cons_self
  | cons next rest ih =>
    unfold first at chosen
    rcases result_bind chosen with ⟨comes, _, chosen⟩
    cases comes with
    | true => exact List.mem_cons_of_mem _ (ih chosen)
    | false =>
      rcases List.mem_cons.1 (ih chosen) with rfl | later
      · exact List.mem_cons_self
      · exact List.mem_cons_of_mem _ (List.mem_cons_of_mem _ later)

/-- The elements of a number or a text are texts. -/
theorem IsScalar.elements {value : Json} (scalar : value.IsScalar) {parts : List Json}
    (found : value.elements = .ok parts) : ∀ part ∈ parts, part.IsScalar := by
  cases value with
  | string text =>
    cases found
    intro part member
    rcases List.mem_map.1 member with ⟨c, _, rfl⟩
    trivial
  | number n => cases found
  | _ => exact scalar.elim

end Json

/-- Numbers are joined to a number, and a text is refused. -/
theorem Operator.apply_eq_ok {op : Operator} {formula : String} {left right value : Json}
    (first : left.IsScalar) (second : right.IsScalar)
    (found : op.apply formula left right = .ok value) : ∃ n, value = .number n := by
  cases left with
  | string text => cases found
  | number m =>
    cases right with
    | string text => cases found
    | number n =>
      have gives := Arithmetic.apply_gives op formula m n
      cases joined : Arithmetic.joinNumbers op m n with
      | none =>
        rw [joined] at gives
        rcases gives with ⟨fault, refused⟩
        cases found.symm.trans refused
      | some result =>
        rw [joined] at gives
        exact ⟨result, Except.ok.inj (found.symm.trans gives)⟩
    | _ => exact second.elim
  | _ => exact first.elim

theorem Tree.isScalar_total {α : Type} {totalOf : α → Except Fault Json} {formula : String}
    {tree : Tree α}
    (scalar : ∀ a ∈ tree.leaves, ∀ value, totalOf a = .ok value → value.IsScalar) {value : Json}
    (found : tree.total totalOf formula = .ok value) : value.IsScalar := by
  induction tree generalizing value with
  | leaf a => exact scalar a (List.mem_singleton.2 rfl) value found
  | node op left right left_ih right_ih =>
    rcases result_bind found with ⟨before, first, found⟩
    rcases result_bind found with ⟨behind, second, found⟩
    have one := left_ih (fun a member => scalar a (List.mem_append_left _ member)) first
    have other := right_ih (fun a member => scalar a (List.mem_append_right _ member)) second
    exact Json.isScalar_of_number (Operator.apply_eq_ok one other found)

namespace Function

theorem isScalar_choose {fn : Function} {best value : Json} {rest : List Json}
    (scalar : ∀ argument ∈ best :: rest, argument.IsScalar)
    (found : fn.choose best rest = .ok value) : value.IsScalar := by
  cases fn with
  | max => exact scalar value (Json.mem_of_first found)
  | min => exact scalar value (Json.mem_of_first found)
  | _ => cases found

theorem isScalar_chooseWithin {fn : Function} {argument value : Json} (scalar : argument.IsScalar)
    (found : fn.chooseWithin argument = .ok value) : value.IsScalar := by
  rcases result_bind found with ⟨parts, taken, found⟩
  cases parts with
  | nil => cases found
  | cons first rest => exact isScalar_choose (scalar.elements taken) found

/-- A function of numbers and texts is a number or a text. -/
theorem isScalar_value {fn : Function} {arguments : List Json} {value : Json}
    (scalar : ∀ argument ∈ arguments, argument.IsScalar) (found : fn.value arguments = .ok value) :
    value.IsScalar := by
  match arguments with
  | [] => cases found
  | a :: b :: rest => exact isScalar_choose scalar found
  | [a] =>
    have single := scalar a List.mem_cons_self
    have computed (n : Number) (found : (liftNumber (fn.value1 n)).map Json.number = .ok value) :
        value.IsScalar := by
      cases lifted : liftNumber (fn.value1 n) with
      | error fault =>
        rw [lifted] at found
        cases found
      | ok result =>
        rw [lifted] at found
        exact Json.isScalar_of_number ⟨result, (Except.ok.inj found).symm⟩
    cases fn with
    | max => exact isScalar_chooseWithin single found
    | min => exact isScalar_chooseWithin single found
    | _ =>
      cases a with
      | number n => exact computed n found
      | string text => cases found
      | _ => exact single.elim

end Function

/-! ## The tree of a row of terms -/

namespace TermRow

theorem bare_joinedTerms {rest : List (Tag × Operator × Term)}
    (proper : ∀ next ∈ rest, next.2.2.isOperand = true) :
    ((joinedTerms rest).map Term.item).map Item.bare =
      (Item.joined (rest.map (·.2))).map Item.asLeaf := by
  induction rest with
  | nil => rfl
  | cons next rest ih =>
    rcases next with ⟨tag, op, term⟩
    have operand := proper _ List.mem_cons_self
    have later := ih fun other member => proper other (List.mem_cons_of_mem _ member)
    change Item.bare (Term.operator tag op).item :: Item.bare term.item ::
      ((joinedTerms rest).map Term.item).map Item.bare = _
    rw [later, Term.item_of_isOperand operand]
    rfl

/-- The precedence tree of a row is written as the row. -/
theorem bare_items {row : TermRow} (proper : row.IsProper) :
    (row.terms.map Term.item).map Item.bare =
      (Tree.ofRun (.leaf row.first) (Tree.singles row.joined)).flatten.map Item.asLeaf := by
  have others : ∀ next ∈ row.rest, next.2.2.isOperand = true := fun next member =>
    proper _ (List.mem_cons_of_mem _ (List.mem_map_of_mem member))
  change Item.bare row.first.item :: ((joinedTerms row.rest).map Term.item).map Item.bare = _
  rw [Tree.flatten_eq_row, Tree.row_ofRun, bare_joinedTerms others,
    Term.item_of_isOperand (proper row.first List.mem_cons_self)]
  rfl

end TermRow

/-! ## Terms and rolls that add up -/

/-- A term is evaluated and has a total.  That of dice and pools is the sum of what their active
results are worth. -/
structure Term.IsComplete (ledger : Ledger) (term : Term) : Prop where
  evaluated : ledger.isEvaluated term = true
  total : ∃ value, ledger.total term = .ok value ∧ value.IsScalar
  dice : ∀ d, term = .dice d → ledger.total term =
    Json.total (((ledger.outcomes d.tag.id).filter Outcome.isActive).map Outcome.worth)
  pool : ∀ p, term = .pool p → ledger.total term =
    Json.total (((ledger.outcomes p.tag.id).filter Outcome.isActive).map Outcome.worth)

/-- A roll is evaluated and has a total, which is that of the tree that precedence prescribes
for its terms. -/
structure RollOf.IsCoherent (ledger : Ledger) (roll : Roll) : Prop where
  evaluated : ledger.isRollEvaluated roll = true
  scalar : (ledger.rollTotal roll).IsScalar
  total : ∃ tree : Tree Term, tree.IsGrouped ∧
    (roll.terms.map Term.item).map Item.bare = tree.flatten.map Item.asLeaf ∧
    tree.total ledger.total roll.formula = .ok (ledger.rollTotal roll)

variable {ledger : Ledger}

/-- Evaluated terms whose totals are numbers or texts are complete. -/
theorem Term.IsComplete.of_scalar {term : Term} (evaluated : ledger.isEvaluated term = true)
    {value : Json} (found : ledger.totalOf term = .ok value) (scalar : value.IsScalar) :
    term.IsComplete ledger := by
  have total : ledger.total term = ledger.totalOf term := if_pos evaluated
  refine ⟨evaluated, ⟨value, total.trans found, scalar⟩, ?_, ?_⟩
  · rintro d rfl
    exact total
  · rintro p rfl
    exact total

/-- A settled roll whose terms are complete adds up. -/
theorem RollOf.IsSettled.isCoherent {roll : Roll} (settled : roll.IsSettled ledger)
    (complete : ∀ term ∈ roll.terms, term.IsComplete ledger) : roll.IsCoherent ledger := by
  rcases settled.sound.alternates with ⟨row, same, proper⟩
  have found : (Tree.ofRun (.leaf row.first) (Tree.singles row.joined)).total ledger.total
      roll.formula = .ok (ledger.rollTotal roll) := by
    have whole := settled.total
    rw [Ledger.totalOfTerms, same, TermRow.treeOfTerms_terms proper] at whole
    rw [RollOf.formula, same]
    exact whole
  refine ⟨settled.evaluated, Tree.isScalar_total (fun term member value total => ?_) found,
    _, Tree.isGrouped_ofRun _ _, by rw [same, TermRow.bare_items proper], found⟩
  rw [TermRow.leaves_tree] at member
  have inside : term ∈ roll.terms := same ▸ TermRow.mem_terms_of_mem_operands member
  rcases (complete term inside).total with ⟨known, given, scalar⟩
  cases given.symm.trans total
  exact scalar

/-- What is known of a term in an evaluated roll. -/
structure Term.IsReady (ledger : Ledger) (term : Term) : Prop where
  evaluated : ledger.isEvaluated term = true
  has : term.HasTotal ledger
  sound : term.IsSound

theorem Term.IsReady.totalOf {term : Term} (ready : term.IsReady ledger)
    (operand : term.isOperand = true) : ∃ value, ledger.totalOf term = .ok value :=
  ready.has.totalOf operand ready.evaluated

/-- Dice and pools amount to numbers. -/
theorem Term.IsReady.of_outcomes {term : Term} (ready : term.IsReady ledger)
    (operand : term.isOperand = true) {id : Identity}
    (sum : ledger.totalOf term = ledger.outcomeTotal id) : term.IsComplete ledger := by
  rcases ready.totalOf operand with ⟨value, found⟩
  exact .of_scalar ready.evaluated found
    (Json.isScalar_of_number (Json.total_eq_ok (sum.symm.trans found)))

mutual

/-- A term in an evaluated roll is complete, and so is everything in it. -/
theorem Term.complete : (term : Term) →
    term.Throughout (Term.IsReady ledger) (RollOf.IsSettled ledger) →
    term.Throughout (Term.IsComplete ledger) (RollOf.IsCoherent ledger)
  | .numeric tag value, ready => by
    rcases ready.sound with ⟨n, rfl⟩
    exact .of_scalar ready.evaluated rfl trivial
  | .operator tag op, ready => .of_scalar ready.evaluated rfl trivial
  | .text tag word, ready => by
    rcases ready.sound with ⟨text, rfl⟩
    exact .of_scalar ready.evaluated rfl trivial
  | .group tag roll, ⟨here, around, row⟩ => by
    have inside := rowComplete roll.terms row
    have coherent := around.isCoherent fun term member => (inside.of_mem member).here
    exact ⟨.of_scalar here.evaluated rfl coherent.scalar, coherent, inside⟩
  | .function tag fn rolls, ⟨here, parts⟩ => by
    have inside := rollsComplete rolls parts
    rcases here.totalOf rfl with ⟨value, found⟩
    refine ⟨.of_scalar here.evaluated found (Function.isScalar_value ?_ found), inside.1⟩
    intro argument member
    rcases List.mem_map.1 member with ⟨roll, among, rfl⟩
    exact (inside.2 roll among).scalar
  | .dice d, ⟨here, number, faces⟩ =>
    ⟨here.of_outcomes rfl rfl, amountComplete d.number number, amountComplete d.faces faces⟩
  | .pool p, ⟨here, parts⟩ => ⟨here.of_outcomes rfl rfl, (rollsComplete p.rolls parts).1⟩

theorem rowComplete : (terms : List Term) →
    RowThroughout (Term.IsReady ledger) (RollOf.IsSettled ledger) terms →
    RowThroughout (Term.IsComplete ledger) (RollOf.IsCoherent ledger) terms
  | [], _ => trivial
  | term :: rest, ⟨here, later⟩ => ⟨Term.complete term here, rowComplete rest later⟩

theorem rollsComplete : (rolls : List Roll) →
    RollsThroughout (Term.IsReady ledger) (RollOf.IsSettled ledger) rolls →
    RollsThroughout (Term.IsComplete ledger) (RollOf.IsCoherent ledger) rolls ∧
      ∀ roll ∈ rolls, roll.IsCoherent ledger
  | [], _ => ⟨trivial, fun _ member => absurd member List.not_mem_nil⟩
  | roll :: rest, ⟨around, row, later⟩ => by
    have inside := rowComplete roll.terms row
    have coherent := around.isCoherent fun term member => (inside.of_mem member).here
    have others := rollsComplete rest later
    exact ⟨⟨coherent, inside, others.1⟩, List.forall_mem_cons.2 ⟨coherent, others.2⟩⟩

theorem amountComplete : (amount : Operand Term) →
    AmountThroughout (Term.IsReady ledger) (RollOf.IsSettled ledger) amount →
    AmountThroughout (Term.IsComplete ledger) (RollOf.IsCoherent ledger) amount
  | .known _, _ => trivial
  | .computed term, inside => Term.complete term inside

end

/-- In a settled roll everything adds up. -/
theorem RollOf.Settled.coherent {roll : Roll} {first stop : Nat} (settled : roll.Settled ledger)
    (spans : roll.Spans first stop)
    (sound : RowThroughout Term.IsSound (fun _ => True) roll.terms) :
    roll.IsCoherent ledger ∧
      RowThroughout (Term.IsComplete ledger) (RollOf.IsCoherent ledger) roll.terms := by
  have totals := RowSettled.totals roll.terms settled.row settled.around.totals sound
  have ready : RowThroughout (Term.IsReady ledger) (RollOf.IsSettled ledger) roll.terms := by
    refine RowThroughout.imp spans.1 ?_ ?_ ((settled.row.and totals).and sound)
    · exact fun _ _ _ ⟨⟨evaluated, has⟩, sound⟩ => ⟨evaluated, has, sound⟩
    · exact fun _ _ _ given => given.1.1
  have inside := rowComplete roll.terms ready
  exact ⟨settled.around.isCoherent fun term member => (inside.of_mem member).here, inside⟩

/-! ## Attempts that succeed -/

namespace RollOf

open Evaluation

variable {roll : Roll} {others : Progress → Progress → Prop} {progress last : Progress}

theorem evaluated_of_evaluateRoll {context : Context}
    (reaches : (context.evaluateRoll roll progress).Reaches others (some (.ok ())) last) :
    last.ledger.isRollEvaluated roll = true := by
  by_cases untouched : (progress.ledger.roll roll.id).phase = .unevaluated
  · rw [Context.evaluateRoll, ofRoll_of_unevaluated untouched] at reaches
    rcases Step.Reaches.of_andThen reaches with ⟨result, middle, _, rest⟩ | ⟨waits, _⟩
    · cases result with
      | error fault => cases (Step.Reaches.of_done rest).1
      | ok done =>
        change (sumUp roll middle).Reaches _ _ _ at rest
        unfold sumUp at rest
        split at rest
        · obtain ⟨_, rfl⟩ := Step.Reaches.of_done rest
          rw [Ledger.isRollEvaluated, middle.roll_finishing]
          rfl
        · cases (Step.Reaches.of_done rest).1
    · cases waits
  · rw [evaluateRoll_of_begun context untouched] at reaches
    cases (Step.Reaches.of_done reaches).1

theorem evaluated_of_evaluateWith {surroundings : Surroundings} {context : Context}
    (reaches : (evaluateWith surroundings roll context progress).Reaches others (some (.ok ()))
      last) : last.ledger.isRollEvaluated roll = true := by
  unfold evaluateWith at reaches
  cases given : surroundings.resolver with
  | none =>
    rw [given] at reaches
    exact evaluated_of_evaluateRoll reaches
  | some resolver =>
    rw [given] at reaches
    rcases Step.Reaches.of_andThen reaches with ⟨result, later, body, rest⟩ | ⟨waits, _⟩
    · obtain ⟨same, rfl⟩ := Step.Reaches.of_done rest
      cases Option.some.inj same
      rw [resolver.ledger_close]
      rcases Step.Reaches.of_andThen body with ⟨passed, middle, _, rest⟩ | ⟨waits, _⟩
      · cases passed with
        | error fault => cases (Step.Reaches.of_done rest).1
        | ok done => exact evaluated_of_evaluateRoll rest
      · cases waits
    · cases waits

/-- An attempt that succeeds leaves the roll evaluated. -/
theorem evaluated_of_attempt {options : Options} {surroundings : Surroundings}
    (reaches : (roll.attempt options surroundings progress).Reaches others (some (.ok ())) last) :
    last.ledger.isRollEvaluated roll = true := by
  unfold attempt at reaches
  split at reaches
  · unfold evaluateNow at reaches
    cases given : options.forRoll surroundings with
    | error fault =>
      rw [given] at reaches
      cases (Step.Reaches.of_done reaches).1
    | ok context =>
      rw [given] at reaches
      exact evaluated_of_evaluateRoll reaches
  · by_cases untouched : (progress.ledger.roll roll.id).phase = .unevaluated
    · rw [evaluate_of_unevaluated options surroundings untouched] at reaches
      cases given : options.forRoll surroundings with
      | error fault =>
        rw [given] at reaches
        cases (Step.Reaches.of_done reaches).1
      | ok context =>
        rw [given] at reaches
        exact evaluated_of_evaluateWith reaches
    · rw [evaluate_of_begun options surroundings untouched] at reaches
      cases (Step.Reaches.of_done reaches).1

/-- An attempt at what has begun fails at once. -/
theorem attempt_of_begun (options : Options) (surroundings : Surroundings)
    (begun : (progress.ledger.roll roll.id).phase ≠ .unevaluated) :
    ∃ fault, roll.attempt options surroundings progress = .done (.error fault) progress := by
  unfold attempt
  split
  · unfold evaluateNow
    cases given : options.forRoll surroundings with
    | error fault => exact ⟨fault, rfl⟩
    | ok context => exact ⟨_, evaluateRoll_of_begun context begun⟩
  · exact ⟨_, evaluate_of_begun options surroundings begun⟩

/-- What is settled stays settled, whatever is tried. -/
theorem Settled.of_tried {first stop : Nat} (settled : roll.Settled progress.ledger)
    (spans : roll.Spans first stop)
    (tried : roll.Tried (Progress.Elsewhere roll first stop) progress last) :
    roll.Settled last.ledger := by
  have begun {progress : Progress} (settled : roll.Settled progress.ledger) :
      (progress.ledger.roll roll.id).phase ≠ .unevaluated := by
    rw [beq_iff_eq.1 settled.around.evaluated]
    exact nofun
  induction tried with
  | untouched => exact settled
  | attempt _ options surroundings reaches ih =>
    rcases attempt_of_begun options surroundings (begun ih) with ⟨fault, failed⟩
    rw [failed] at reaches
    obtain ⟨_, rfl⟩ := Step.Reaches.of_done reaches
    exact ih
  | elsewhere _ meanwhile ih => exact ih.of_same spans (meanwhile.same (begun ih))

end RollOf

namespace Build

variable {setup : Setup}

/-- Whatever was tried before and whatever is tried later: once an attempt to evaluate a roll has
succeeded, with any options and with a resolver or without, everything in the roll is evaluated
and has a total, every roll in it has the total that its precedence tree gives, and dice and
pools amount to the sum of what their active results are worth.  The roll has a result and can be
explained. -/
theorem coherent_of_attempt {input : RollInput} {ledger made : Ledger} {roll : Roll}
    (built : ofFormula setup input ledger = .ok (roll, made)) {start between last later : Progress}
    (begins : start.ledger = made)
    (tried : roll.Tried (Progress.Elsewhere roll ledger.next made.next) start between)
    {options : Options} {surroundings : Surroundings}
    (succeeds : (roll.attempt options surroundings between).Reaches
      (Progress.Elsewhere roll ledger.next made.next) (some (.ok ())) last)
    (further : roll.Tried (Progress.Elsewhere roll ledger.next made.next) last later) :
    roll.IsCoherent later.ledger ∧
    RowThroughout (Term.IsComplete later.ledger) (RollOf.IsCoherent later.ledger) roll.terms ∧
    (∃ text, later.ledger.result roll = .ok text) ∧
    ∃ text, later.ledger.explanation roll = .ok text := by
  have isMade := ofFormula_isMade built
  have rows : RowThroughout (fun _ => True) RollOf.IsSound roll.terms :=
    RowThroughout.imp isMade.spans.1 (fun _ _ _ _ => trivial) (fun _ _ _ sound => sound) isMade.row
  have sound : RowThroughout Term.IsSound (fun _ => True) roll.terms :=
    RowThroughout.imp isMade.spans.1 (fun _ _ _ restorable => restorable.sound)
      (fun _ _ _ _ => trivial) isMade.row
  have waits : start.ledger.Waits ledger.next made.next := begins ▸ isMade.waits
  have stage := (tried.attempt options surroundings succeeds).stage isMade.spans isMade.sound rows
    waits
  have settled := stage.settled isMade.spans (RollOf.evaluated_of_attempt succeeds)
  have still := settled.of_tried isMade.spans further
  rcases still.coherent isMade.spans sound with ⟨coherent, complete⟩
  exact ⟨coherent, complete, Ledger.result_ok still, Ledger.explanation_ok still sound⟩

/-- Two dice in brackets that are rolled as low as can be, and one more, add up. -/
theorem coherent_of_lowest : ∃ roll made, lowRoll = .ok (roll, made) ∧
    (roll.attempt { minimize := true } (Service.quiet usual) (.ofLedger made)).Reaches
      (Progress.Elsewhere roll Ledger.empty.next made.next) (some (.ok ())) (lowest roll made) ∧
    ((lowest roll made).ledger.rollTotal roll).whole? = some 2 ∧
    roll.IsCoherent (lowest roll made).ledger ∧
    RowThroughout (Term.IsComplete (lowest roll made).ledger)
      (RollOf.IsCoherent (lowest roll made).ledger) roll.terms ∧
    ∃ text, (lowest roll made).ledger.explanation roll = .ok text := by
  have computed : (do
      let start ← lowRoll
      let attempt := start.1.attempt { minimize := true } (Service.quiet usual) (.ofLedger start.2)
      return attempt.outcome.any Except.isOk &&
        ((lowest start.1 start.2).ledger.rollTotal start.1).whole? == some 2).toOption =
          some true := by decide +kernel
  rcases result_bind (result_of_toOption computed) with ⟨⟨roll, made⟩, built, rest⟩
  rcases Bool.and_eq_true_iff.1 (Except.ok.inj rest) with ⟨well, two⟩
  have succeeds := @Step.Reaches.progress _ (Progress.Elsewhere roll Ledger.empty.next made.next)
    (roll.attempt { minimize := true } (Service.quiet usual) (.ofLedger made))
  have outcome : (roll.attempt { minimize := true } (Service.quiet usual)
      (.ofLedger made)).outcome = some (.ok ()) := by
    cases outcome : (roll.attempt { minimize := true } (Service.quiet usual)
        (.ofLedger made)).outcome with
    | none =>
      rw [outcome] at well
      cases well
    | some result =>
      rw [outcome] at well
      cases result with
      | error fault => cases well
      | ok done => rfl
  rw [outcome] at succeeds
  rcases coherent_of_attempt built rfl .untouched succeeds .untouched with
    ⟨coherent, complete, _, explained⟩
  exact ⟨roll, made, built, succeeds, beq_iff_eq.1 two, coherent, complete, explained⟩

end Build

/-! ## Values that come too late -/

namespace Schedule

/-- A die in brackets whose number is computed, and another one like it. -/
def nestedPair : Except Fault (Roll × Ledger) :=
  Build.ofFormula Build.usual { formula := "((1)d6) + (1)d6", method := .string "manual" } .empty

/-- The roll of the first term, if that is a group. -/
def firstGroup (roll : Roll) : Except Fault Roll :=
  match roll.terms.head? with
  | some (.group _ inner) => .ok inner
  | _ => .error .wrongKind

/-- While the evaluation of two dice waits for the first, that die is asked for once more.  It
takes another value after its brackets have been summed up.  The evaluation succeeds with the
total eight, although its die amounts to seven in brackets that amount to three. -/
theorem incoherent_with_late_value : ∃ roll made dice inner asked first second last,
    nestedPair = .ok (roll, made) ∧ dice ∈ roll.dice ∧ firstGroup roll = .ok inner ∧
    (waitingFor roll made).addTerm ⟨0, roll⟩ dice = .ok asked ∧
    asked.handIn ⟨0, roll⟩ (.string "manual") (.string "d6") (.ofNat 3) = .ok first ∧
    first.handIn ⟨0, roll⟩ (.string "manual") (.string "d6") (.ofNat 4) = .ok second ∧
    second.handIn ⟨0, roll⟩ (.string "manual") (.string "d6") (.ofNat 5) = .ok last ∧
    last.progress.ledger.isRollEvaluated roll = true ∧
    (last.progress.ledger.rollTotal roll).whole? = some 8 ∧
    last.progress.ledger.shown dice = ([some 3, some 4], some 7) ∧
    (last.progress.ledger.rollTotal inner).whole? = some 3 ∧
    (last.progress.ledger.totalOfTerms inner.terms).toOption.bind Json.whole? = some 7 := by
  have computed : (do
      let start ← nestedPair
      let dice ← start.1.dice.head?.elim (.error Fault.wrongKind) .ok
      let inner ← firstGroup start.1
      let asked ← (waitingFor start.1 start.2).addTerm ⟨0, start.1⟩ dice
      let first ← asked.handIn ⟨0, start.1⟩ (.string "manual") (.string "d6") (.ofNat 3)
      let second ← first.handIn ⟨0, start.1⟩ (.string "manual") (.string "d6") (.ofNat 4)
      let last ← second.handIn ⟨0, start.1⟩ (.string "manual") (.string "d6") (.ofNat 5)
      return last.progress.ledger.isRollEvaluated start.1 &&
        ((last.progress.ledger.rollTotal start.1).whole? == some 8 &&
        (last.progress.ledger.shown dice == ([some 3, some 4], some 7) &&
        ((last.progress.ledger.rollTotal inner).whole? == some 3 &&
        (last.progress.ledger.totalOfTerms inner.terms).toOption.bind Json.whole? ==
          some 7)))).toOption = some true := by
    decide +kernel
  rcases result_bind (result_of_toOption computed) with ⟨⟨roll, made⟩, built, rest⟩
  rcases result_bind rest with ⟨dice, head, rest⟩
  rcases result_bind rest with ⟨inner, group, rest⟩
  rcases result_bind rest with ⟨asked, asks, rest⟩
  rcases result_bind rest with ⟨first, one, rest⟩
  rcases result_bind rest with ⟨second, two, rest⟩
  rcases result_bind rest with ⟨last, three, shown⟩
  rcases Bool.and_eq_true_iff.1 (Except.ok.inj shown) with ⟨done, shown⟩
  rcases Bool.and_eq_true_iff.1 shown with ⟨total, shown⟩
  rcases Bool.and_eq_true_iff.1 shown with ⟨die, shown⟩
  rcases Bool.and_eq_true_iff.1 shown with ⟨kept, now⟩
  exact ⟨roll, made, dice, inner, asked, first, second, last, built, mem_of_head head, group, asks,
    one, two, three, done, beq_iff_eq.1 total, beq_iff_eq.1 die, beq_iff_eq.1 kept,
    beq_iff_eq.1 now⟩

end Schedule
end DiceNotation
