import DiceNotation.Proofs.Dice.Scores
import DiceNotation.Proofs.Evaluation.Leniency

namespace DiceNotation

/-!
# Counted totals

The modifiers that keep, drop, roll again and explode decide which results are active, and with
them it is still open whether successes are counted.  A success count that comes after them counts
every active result anew, and a failure count behind it is paired with it.  So the total of the dice
or the pool is the score of its active results, whatever was drawn and whichever results were there
before.
-/

/-- Whether an action only decides which results are active. -/
def Action.shapes (action : Action) : Bool := action.rolls || action == keep || action == drop

theorem Criterion.IsSuccess.rolls {command : Command} {action : Action} {success : Criterion}
    (counts : success.IsSuccess command action) : action.rolls = false := by
  cases counts <;> rfl

theorem Criterion.IsFailure.rolls {command : Command} {action : Action} {failure : Option Criterion}
    (counts : Criterion.IsFailure command action failure) : action.rolls = false := by
  have still : ∀ other ∈ [Action.countFailures, .deductFailures], other.rolls = false := by decide
  cases counts with
  | compared paired aimed => exact still action paired
  | bare paired unaimed => exact still action paired

namespace Context

open Evaluation

/-- A modifier that only decides which results are active. -/
def Modified.Shapes (modified : Modified) (raw : Json) : Prop :=
  ∃ command action, modified.Reads raw command action ∧ action.shapes = true

/-- Modifiers that count: successes, with failures behind them or without, or only failures. -/
inductive Modified.Counts (modified : Modified) : List Json → Scoring → Prop
  | successes {raw : Json} {command : Command} {action : Action} {success : Criterion}
    (reads : modified.Reads raw command action) (counts : success.IsSuccess command action) :
    Counts modified [raw] (.successes success)
  | paired {raw other : Json} {command behind : Command} {action next : Action}
    {success failure : Criterion} (reads : modified.Reads raw command action)
    (counts : success.IsSuccess command action) (later : modified.Reads other behind next)
    (fails : Criterion.IsFailure behind next (some failure)) :
    Counts modified [raw, other] (.paired success failure)
  | balanced {raw other : Json} {command behind : Command} {action next : Action}
    {success : Criterion} (reads : modified.Reads raw command action)
    (counts : success.IsSuccess command action) (later : modified.Reads other behind next)
    (fails : Criterion.IsFailure behind next none) :
    Counts modified [raw, other] (.balanced success)
  | failures {raw : Json} {command : Command} (reads : modified.Reads raw command .countFailures)
    {target : Int} (aimed : command.target = some target) :
    Counts modified [raw] (.failures (.compared (command.comparator.getD .equal) target))

/-! ## Modifiers that count -/

section

variable {context : Context} {modified : Modified} {start last : Progress}

/-- A modifier that rolls nothing carries out its tally. -/
theorem runModifier_of_reads {raw : Json} {command : Command} {action : Action}
    (reads : modified.Reads raw command action) (still : action.rolls = false) (start : Progress) :
    runModifier modified raw start =
      .done ((tallyIn start modified.term.id).carryOut action command
        modified.term.formula).2 (start.tallying modified.term action command) := by
  have read : Evaluation.lift (Command.ofData raw modified.term.formula) start =
      .done (.ok command) start := congrArg (Step.done · start) reads.read
  unfold runModifier
  rw [Evaluation.bind_done read, reads.known]
  cases action with
  | reroll once => cases still
  | explode once => cases still
  | _ => rfl

theorem tally_tallying (progress : Progress) (term : Term) (action : Action) (command : Command) :
    tallyIn (progress.tallying term action command) term.id =
      ((tallyIn progress term.id).carryOut action command term.formula).1 := by
  unfold tallyIn Progress.tallying Progress.updateLedger
  rw [Ledger.term_updateTerm, if_pos rfl]

/-- A modifier that counts is carried out or refuses a value, but it is not skipped. -/
theorem tally_of_tryModifier {raw : Json} {command : Command} {action : Action}
    (reads : modified.Reads raw command action) (still : action.rolls = false)
    {change : Tally.Change}
    (carries : (tallyIn start modified.term.id).carryOut action command
      modified.term.formula = change)
    (mismatched : Mismatched change.2)
    (reaches : (context.tryModifier modified raw start).Reaches (Progress.Spares modified.term.id)
      (some (.ok ())) last) :
    change = (tallyIn last modified.term.id, .ok ()) := by
  have tries : context.tryModifier modified raw start =
      context.afterModifier modified.term raw (start.ledger.term modified.term.id).outcomes
        change.2 (start.tallying modified.term action command) := by
    rw [tryModifier_eq, runModifier_of_reads reads still, carries]
    rfl
  rw [tries] at reaches
  cases ended : change.2 with
  | error fault =>
    rw [ended] at reaches
    cases mismatched fault ended
    cases (Step.Reaches.of_done reaches).1
  | ok done =>
    rw [ended] at reaches
    obtain ⟨_, rfl⟩ := Step.Reaches.of_done reaches
    rw [tally_tallying, carries]
    exact Prod.ext rfl ended

/-- A success count marks all active results. -/
theorem marks_of_success {raw : Json} {command : Command} {action : Action} {success : Criterion}
    (reads : modified.Reads raw command action) (counts : success.IsSuccess command action)
    (reaches : (context.tryModifier modified raw start).Reaches (Progress.Spares modified.term.id)
      (some (.ok ())) last) :
    (last.ledger.term modified.term.id).counting = true ∧
      (tallyIn last modified.term.id).Marks success :=
  Tally.countSuccesses_marks (tally_of_tryModifier reads counts.rolls (Tally.carryOut_success counts)
    (Tally.failsOnly_countSuccesses _ success.mismatched_test) reaches)

/-- Modifiers that count leave results that count for their points. -/
theorem settled_of_counts {modifiers : List Json} {scoring : Scoring}
    (counts : modified.Counts modifiers scoring)
    (fresh : (start.ledger.term modified.term.id).counting = false)
    (reaches : (context.runModifiers modified modifiers start).Reaches
      (Progress.Spares modified.term.id) (some (.ok ())) last) :
    scoring.IsSettled (last.ledger.outcomes modified.term.id) := by
  cases counts with
  | successes reads counts =>
    rcases succeeds_of_runModifiers_cons reaches with ⟨middle, tries, ended⟩
    obtain ⟨_, rfl⟩ := Step.Reaches.of_done ended
    exact (marks_of_success reads counts tries).2.settled
  | @paired raw other command behind action next success failure reads counts later fails =>
    rcases succeeds_of_runModifiers_cons reaches with ⟨middle, tries, rest⟩
    rcases marks_of_success reads counts tries with ⟨counting, marks⟩
    rcases succeeds_of_runModifiers_cons rest with ⟨worked, deducts, ended⟩
    obtain ⟨_, rfl⟩ := Step.Reaches.of_done ended
    exact Tally.deductIf_settled marks (tally_of_tryModifier later fails.rolls
      (Tally.carryOut_compared fails counting)
      (Tally.failsOnly_mapActive _ fun outcome => (failure.mismatched_test outcome.value).map _)
      deducts)
  | balanced reads counts later fails =>
    rcases succeeds_of_runModifiers_cons reaches with ⟨middle, tries, rest⟩
    rcases marks_of_success reads counts tries with ⟨counting, marks⟩
    rcases succeeds_of_runModifiers_cons rest with ⟨worked, deducts, ended⟩
    obtain ⟨_, rfl⟩ := Step.Reaches.of_done ended
    exact Tally.deductUnsuccessful_settled marks (tally_of_tryModifier later fails.rolls
      (Tally.carryOut_bare fails counting) (Tally.failsOnly_mapActive _ fun _ => .ok _) deducts)
  | failures reads aimed =>
    rcases succeeds_of_runModifiers_cons reaches with ⟨middle, tries, ended⟩
    obtain ⟨_, rfl⟩ := Step.Reaches.of_done ended
    exact Tally.markFailure_settled (tally_of_tryModifier reads rfl
      (Tally.carryOut_alone aimed fresh)
      (Tally.failsOnly_mapActive _ fun outcome =>
        (Criterion.mismatched_test _ outcome.value).map _) tries)

/-! ## Modifiers before them -/

theorem revises_runModifier_of_shapes (terms : modified.IsTerm context) {raw : Json}
    (shapes : modified.Shapes raw) : (runModifier modified raw).Revises modified.term.id := by
  rcases shapes with ⟨command, action, reads, shapes⟩
  intro start last result
  refine revises_of_runModifier terms fun _ _ found still _ => ?_
  obtain ⟨rfl, rfl⟩ := reads.unique found
  cases action with
  | keep => exact Tally.counting_select _ command _ _ _
  | drop => exact Tally.counting_select _ command _ _ _
  | reroll once => cases still
  | explode once => cases still
  | _ => cases shapes

/-- Whether a modifier is skipped or not, it revises outcomes if it does so where it is tried. -/
theorem revises_tryModifier {raw : Json}
    (revises : (runModifier modified raw).Revises modified.term.id) :
    (context.tryModifier modified raw).Revises modified.term.id := by
  intro start last result reaches
  rw [tryModifier_eq] at reaches
  rcases Step.Reaches.of_andThen reaches with ⟨given, tried, runs, rest⟩ | ⟨none, _⟩
  · refine (revises runs).trans ?_
    have skipped (message : String) : tried.Revises modified.term.id
        (tried.undoing modified.term (start.ledger.term modified.term.id).outcomes raw message) :=
      .updateTerm tried fun _ => (start.ledger.term modified.term.id).outcomes
    unfold afterModifier at rest
    split at rest
    · dsimp only at rest
      split at rest
      · obtain ⟨_, rfl⟩ := Step.Reaches.of_done rest
        exact skipped _
      · obtain ⟨_, rfl⟩ := Step.Reaches.of_done rest
        exact .of_spares (.refl _)
    · obtain ⟨_, rfl⟩ := Step.Reaches.of_done rest
      exact .of_spares (.refl _)
  · cases none

/-- Modifiers that only decide which results are active leave it open whether successes are
counted. -/
theorem after_shaping (terms : modified.IsTerm context) {earlier final : List Json}
    (shaping : ∀ raw ∈ earlier, modified.Shapes raw)
    (reaches : (context.runModifiers modified (earlier ++ final) start).Reaches
      (Progress.Spares modified.term.id) (some (.ok ())) last) :
    ∃ middle, start.Revises modified.term.id middle ∧
      (context.runModifiers modified final middle).Reaches (Progress.Spares modified.term.id)
        (some (.ok ())) last := by
  induction earlier generalizing start with
  | nil => exact ⟨start, .of_spares (.refl _), reaches⟩
  | cons raw rest ih =>
    rcases List.forall_mem_cons.1 shaping with ⟨shapes, later⟩
    rcases succeeds_of_runModifiers_cons reaches with ⟨next, tries, behind⟩
    have revised := revises_tryModifier (revises_runModifier_of_shapes terms shapes) tries
    rcases ih later behind with ⟨middle, revises, ended⟩
    exact ⟨middle, revised.trans revises, ended⟩

end

/-! ## Evaluation up to the modifiers -/

/-- A term that takes modifiers, with none in it that has its identity. -/
inductive Takes (context : Context) : Term → Modified → List Json → Prop
  | dice {dice : Dice}
    (number : AmountThroughout (fun inner => inner.id ≠ dice.tag.id)
      (fun roll => roll.id ≠ dice.tag.id) dice.number)
    (faces : AmountThroughout (fun inner => inner.id ≠ dice.tag.id)
      (fun roll => roll.id ≠ dice.tag.id) dice.faces) :
    Takes context (.dice dice) (context.modifiedDice dice) dice.modifiers
  | pool {pool : Pool}
    (rolls : RollsThroughout (fun inner => inner.id ≠ pool.tag.id)
      (fun roll => roll.id ≠ pool.tag.id) pool.rolls) :
    Takes context (.pool pool) (modifiedPool pool) pool.modifiers

section

variable (context : Context)

/-- What has another identity than a term spares the term. -/
theorem follows_sparing (id : Identity) : context.Follows (FrameRule.sparing id)
    (fun inner => inner.id ≠ id) fun roll => roll.id ≠ id where
  term apart := apart
  roll apart := apart
  dice apart := context.keeps_rollDice (fun _ _ => trivial) apart

theorem revises_rollUpTo (dice : Dice) (number rolls : Nat) :
    (context.rollUpTo dice number rolls).Revises dice.tag.id := by
  induction rolls with
  | zero => exact .of_keeps (Keeps.pure _)
  | succ rolls ih =>
    refine .bind (.of_keeps (Keeps.read _)) fun present => ?_
    by_cases less : present < number
    · rw [if_pos less]
      exact .bind (context.revises_rollOne dice false false) fun _ => ih
    · rw [if_neg less]
      exact .of_keeps (Keeps.pure _)

theorem revises_collect (pool : Pool) (roll : Roll) : (collect pool roll).Revises pool.tag.id :=
  .bind (.of_keeps (keeps_totalButText roll _)) fun total =>
    .change (· ++ [{ value := total }])

theorem revises_evaluateRolls (pool : Pool) {rolls : List Roll}
    (apart : RollsThroughout (fun inner => inner.id ≠ pool.tag.id)
      (fun roll => roll.id ≠ pool.tag.id) rolls) :
    (context.evaluateRolls (collect pool) rolls).Revises pool.tag.id := by
  induction rolls with
  | nil =>
    unfold evaluateRolls
    exact .of_keeps (Keeps.pure _)
  | cons roll rest ih =>
    rcases apart with ⟨around, row, later⟩
    have follows := context.follows_sparing pool.tag.id
    unfold evaluateRolls
    refine .bind (.of_keeps (keeps_unlessRollEvaluated
      (keeps_ofRoll (follows.roll around) (keeps_evaluateTerms follows roll.terms row)))) fun _ => ?_
    exact .bind (revises_collect pool roll) fun _ => ih later

end

/-- What comes first has revised outcomes when the rest succeeds. -/
theorem revised_of_bind {α β : Type} {id : Identity} {first : Evaluation α} {next : α → Evaluation β}
    {start last : Progress} {b : β} (revises : first.Revises id)
    (reaches : ((first >>= next) start).Reaches (Progress.Spares id) (some (.ok b)) last) :
    ∃ a middle, start.Revises id middle ∧
      (next a middle).Reaches (Progress.Spares id) (some (.ok b)) last := by
  rcases Step.Reaches.of_bind reaches with ⟨_, is, _⟩ | ⟨a, middle, runs, rest⟩
  · cases is
  · exact ⟨a, middle, revises runs, rest⟩

theorem state_entering (progress : Progress) (term : Term) (phase : Phase) :
    (progress.entering term phase).ledger.term term.id =
      { progress.ledger.term term.id with phase := phase } := by
  unfold Progress.entering Progress.updateLedger
  rw [Ledger.term_updateTerm, if_pos rfl]

/-- A term that is evaluated was not before, and what is inside it has succeeded. -/
theorem worked_of_ofTerm {term : Term} {work : Evaluation Unit} {start last : Progress}
    {others : Progress → Progress → Prop}
    (reaches : (ofTerm term work start).Reaches others (some (.ok ())) last) :
    ∃ worked, (work (start.entering term .evaluating)).Reaches others (some (.ok ())) worked ∧
      last = worked.entering term .evaluated := by
  by_cases untouched : (start.ledger.term term.id).phase = .unevaluated
  · rw [ofTerm_of_unevaluated untouched] at reaches
    rcases Step.Reaches.of_bind reaches with ⟨_, is, _⟩ | ⟨done, worked, runs, leaves⟩
    · cases is
    · exact ⟨worked, runs, (Step.Reaches.of_done leaves).2⟩
  · rw [ofTerm_of_begun untouched] at reaches
    cases (Step.Reaches.of_done reaches).1

section

variable {context : Context} {term : Term} {modified : Modified} {modifiers : List Json}
  {start last : Progress} (takes : context.Takes term modified modifiers)
include takes

theorem Takes.isTerm : modified.IsTerm context ∧ modified.term = term := by
  cases takes with
  | dice number faces => exact ⟨.dice _, rfl⟩
  | pool rolls => exact ⟨.pool _, rfl⟩

theorem Takes.totalOf (ledger : Ledger) :
    ledger.totalOf term = Outcome.total (ledger.outcomes term.id) := by
  cases takes <;> rfl

/-- Before its modifiers are carried out, nothing but the outcomes of a term is changed. -/
theorem Takes.modifies
    (reaches : (context.evaluateTerm term start).Reaches (Progress.Spares term.id) (some (.ok ()))
      last) :
    ∃ begun worked, (start.entering term .evaluating).Revises term.id begun ∧
      (context.runModifiers modified modifiers begun).Reaches (Progress.Spares term.id)
        (some (.ok ())) worked ∧
      last = worked.entering term .evaluated := by
  cases takes with
  | @dice dice number faces =>
    have follows := context.follows_sparing dice.tag.id
    unfold evaluateTerm at reaches
    rcases worked_of_ofTerm reaches with ⟨worked, inside, rfl⟩
    rcases revised_of_bind (.of_keeps (keeps_evaluateAmount follows dice.number number)) inside with
      ⟨_, counted, first, inside⟩
    rcases revised_of_bind (.of_keeps (keeps_evaluateAmount follows dice.faces faces)) inside with
      ⟨_, sided, second, inside⟩
    rcases revised_of_bind (.of_keeps (keeps_requireInteger dice _ _ _)) inside with
      ⟨amount, present, third, inside⟩
    rcases revised_of_bind (.of_keeps (keeps_requireInteger dice _ _ _)) inside with
      ⟨_, checked, fourth, inside⟩
    rcases revised_of_bind (context.revises_rollUpTo dice amount amount) inside with
      ⟨_, rolled, fifth, inside⟩
    exact ⟨rolled, worked, (((first.trans second).trans third).trans fourth).trans fifth, inside, rfl⟩
  | @pool pool rolls =>
    unfold evaluateTerm at reaches
    rcases worked_of_ofTerm reaches with ⟨worked, inside, rfl⟩
    rcases revised_of_bind (context.revises_evaluateRolls pool rolls) inside with
      ⟨_, collected, revises, inside⟩
    exact ⟨collected, worked, revises, inside, rfl⟩

end

/-- Dice or a pool whose modifiers first decide which results are active and then count them have
the score of the active results as their total: how many of them match the success count, less those
that match the failure count behind it or, if that is bare, less all others; or how many match a
failure count that stands alone. -/
theorem total_of_counted {context : Context} {term : Term} {modified : Modified}
    {earlier final : List Json} (takes : context.Takes term modified (earlier ++ final))
    (shaping : ∀ raw ∈ earlier, modified.Shapes raw) {scoring : Scoring}
    (counts : modified.Counts final scoring) {start last : Progress}
    (fresh : (start.ledger.term term.id).counting = false)
    (reaches : (context.evaluateTerm term start).Reaches (Progress.Spares term.id) (some (.ok ()))
      last) :
    last.ledger.total term = .ok (.ofInt (scoring.score (last.ledger.outcomes term.id))) := by
  rcases takes.modifies reaches with ⟨begun, worked, revises, runs, rfl⟩
  rcases takes.isTerm with ⟨terms, rfl⟩
  rcases after_shaping terms shaping runs with ⟨middle, revised, rest⟩
  have uncounted : (middle.ledger.term modified.term.id).counting = false := by
    have before := (revises.trans revised).counting
    rw [state_entering] at before
    exact before.trans fresh
  have settled := settled_of_counts counts uncounted rest
  have outcomes : (worked.entering modified.term .evaluated).ledger.outcomes modified.term.id =
      worked.ledger.outcomes modified.term.id := by
    rw [Ledger.outcomes, state_entering]
    rfl
  rw [Ledger.total, if_pos (worked.isEvaluated_entering modified.term), takes.totalOf, outcomes,
    settled.total]

/-- Three dice that explode, and of which the high results count against the ones. -/
def countedDice : Dice :=
  ⟨⟨0, []⟩, .numbered, .known 3, .known 6, [.string "x", .string "cs>=4", .string "cf1"]⟩

/-- The dice before they are rolled. -/
def uncounted : Progress :=
  .ofLedger (Ledger.empty.updateTerm 0 fun state => { state with method := .string "random" })

/-- How the dice are counted. -/
def highAgainstOnes : Scoring := .paired (.compared .atLeast 4) (.compared .equal 1)

/-- The six is a success and explodes into a one, and there are two more ones. -/
theorem total_of_countedDice :
    (uncounted.ledger.term countedDice.tag.id).counting = false ∧
    ∃ last, sixThenOnes.evaluateTerm (.dice countedDice) uncounted = .done (.ok ()) last ∧
      highAgainstOnes.score (last.ledger.outcomes countedDice.tag.id) = -2 ∧
      last.ledger.total (.dice countedDice) = .ok (.ofInt (-2)) := by
  have takes : sixThenOnes.Takes (.dice countedDice) (sixThenOnes.modifiedDice countedDice)
      ([.string "x"] ++ [.string "cs>=4", .string "cf1"]) := .dice trivial trivial
  have explodes : (sixThenOnes.modifiedDice countedDice).Reads (.string "x") ⟨"x", "x", none, none⟩
      (.explode false) := ⟨rfl, rfl⟩
  have counts : (sixThenOnes.modifiedDice countedDice).Reads (.string "cs>=4")
      ⟨"cs>=4", "cs", some .atLeast, some 4⟩ .countSuccesses := ⟨rfl, rfl⟩
  have deducts : (sixThenOnes.modifiedDice countedDice).Reads (.string "cf1")
      ⟨"cf1", "cf", none, some 1⟩ .countFailures := ⟨rfl, rfl⟩
  have paired : (sixThenOnes.modifiedDice countedDice).Counts [.string "cs>=4", .string "cf1"]
      highAgainstOnes :=
    .paired counts (.compared rfl) deducts (.compared (by decide) rfl)
  have computed : (sixThenOnes.evaluateTerm (.dice countedDice) uncounted).succeedsWith
      (fun last => highAgainstOnes.score (last.ledger.outcomes countedDice.tag.id) == -2) = true := by
    decide +kernel
  rcases Step.exists_of_succeedsWith computed (Progress.Spares countedDice.tag.id) with
    ⟨last, run, reaches, scores⟩
  have score : highAgainstOnes.score (last.ledger.outcomes countedDice.tag.id) = -2 :=
    beq_iff_eq.1 scores
  have total := total_of_counted takes
    (List.forall_mem_singleton.2 ⟨_, _, explodes, rfl⟩) paired rfl reaches
  refine ⟨rfl, last, run, score, total.trans ?_⟩
  exact congrArg (fun n => Except.ok (Json.ofInt n)) score

end Context
end DiceNotation
