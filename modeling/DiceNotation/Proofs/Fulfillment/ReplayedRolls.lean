import DiceNotation.Proofs.Fulfillment.ReplayedDice

namespace DiceNotation
namespace Replay

open Evaluation

/-!
# Rolls that are replayed

Terms and rolls are evaluated in the same order in both evaluations, and what is read on the
way is the same.  So a replay mirrors the evaluation of every term of the roll, by induction
on the term, and the evaluation of the roll.
-/

variable {replay : Replay} {α : Type}

/-- Evaluations that keep both sides alike. -/
abbrev MirrorsAll (replay : Replay) (first second : Evaluation α) : Prop :=
  Mirrors replay.resolver replay.receipts replay.Alike replay.Alike replay.Alike first second

/-- Whether a term is part of the roll. -/
abbrev Among (replay : Replay) (term : Term) : Prop :=
  term ∈ Term.partsFrom replay.resolver.roll.terms

/-! ## Phases -/

theorem mirrors_enter (term : Term) {phase : Phase} (lasts : phase ≠ .evaluated) :
    replay.MirrorsAll (enter term phase) (enter term phase) :=
  .change fun _ _ _ alike => alike.entering term fun evaluated => absurd evaluated lasts

/-- A term is evaluated at the end, when both evaluations are level at it. -/
theorem mirrors_ofTerm {term : Term} {work workToo : Evaluation Unit}
    (mirrors : Mirrors replay.resolver replay.receipts replay.Alike (replay.AlikeAt term.id)
      replay.Alike work workToo) :
    replay.MirrorsAll (ofTerm term work) (ofTerm term workToo) := by
  have phases : replay.MirrorsAll (phaseOf term) (phaseOf term) :=
    .read fun _ _ _ alike => congrArg Except.ok (alike.pairs.phase term.id)
  have leaves : Mirrors replay.resolver replay.receipts (replay.AlikeAt term.id) replay.Alike
      replay.Alike (enter term .evaluated) (enter term .evaluated) :=
    .change fun _ _ _ alike => alike.alike.entering term fun _ => alike.level
  refine phases.bind fun phase => ?_
  cases phase with
  | unevaluated =>
    exact (mirrors_enter term (by decide)).bind fun _ => mirrors.bind fun _ => leaves
  | evaluating => exact .fail _
  | evaluated => exact .fail _

/-- A term that is no dice is level whatever is done inside it. -/
theorem mirrors_ofOther {term : Term} (among : replay.Among term) (noDice : term.dice? = none)
    {work workToo : Evaluation Unit} (mirrors : replay.MirrorsAll work workToo) :
    replay.MirrorsAll (ofTerm term work) (ofTerm term workToo) :=
  mirrors_ofTerm (mirrors.mono (fun _ _ _ alike => alike)
    (fun _ _ _ alike => alike.at (alike.level_of_term among noDice)) fun _ _ _ alike => alike)

theorem mirrors_unlessEvaluated (term : Term) {work workToo : Evaluation Unit}
    (mirrors : replay.MirrorsAll work workToo) :
    replay.MirrorsAll (unlessEvaluated term work) (unlessEvaluated term workToo) := by
  have evaluated : replay.MirrorsAll (read fun ledger => .ok (ledger.isEvaluated term))
      (read fun ledger => .ok (ledger.isEvaluated term)) :=
    .read fun _ _ _ alike => congrArg Except.ok (alike.agrees.isEvaluated term)
  exact evaluated.bind fun _ => .ite (.pure _) mirrors

theorem mirrors_unlessRollEvaluated (roll : Roll) {work workToo : Evaluation Unit}
    (mirrors : replay.MirrorsAll work workToo) :
    replay.MirrorsAll (unlessRollEvaluated roll work) (unlessRollEvaluated roll workToo) := by
  have evaluated : replay.MirrorsAll (read fun ledger => .ok (ledger.isRollEvaluated roll))
      (read fun ledger => .ok (ledger.isRollEvaluated roll)) :=
    .read fun _ _ _ alike => congrArg Except.ok (alike.agrees.isRollEvaluated roll)
  exact evaluated.bind fun _ => .ite (.pure _) mirrors

theorem mirrors_updateRoll (id : Identity) (f : RollState → RollState) :
    replay.MirrorsAll (change fun ledger => ledger.updateRoll id f)
      (change fun ledger => ledger.updateRoll id f) :=
  .change fun _ _ _ alike => alike.updateRoll id f

theorem mirrors_ofRoll (roll : Roll) {work workToo : Evaluation Unit}
    (mirrors : replay.MirrorsAll work workToo) :
    replay.MirrorsAll (ofRoll roll work) (ofRoll roll workToo) := by
  have phases : replay.MirrorsAll (read fun ledger => .ok (ledger.roll roll.id).phase)
      (read fun ledger => .ok (ledger.roll roll.id).phase) :=
    .read fun _ _ _ alike => congrArg (fun state => Except.ok (RollState.phase state))
      (alike.pairs.roll roll.id)
  have totals : replay.MirrorsAll (read (·.totalOfTerms roll.terms))
      (read (·.totalOfTerms roll.terms)) :=
    .read fun _ _ _ alike => alike.agrees.totalOfTerms roll.terms
  have reports (level : Level) (text : String) :
      replay.MirrorsAll (report level text) (report level text) :=
    .of_done fun _ _ _ alike => ⟨_, _, _, rfl, rfl, alike.of_beside ⟨rfl, rfl, rfl, rfl⟩ rfl rfl rfl⟩
  refine phases.bind fun phase => ?_
  cases phase with
  | unevaluated =>
    refine (mirrors_updateRoll _ _).bind fun _ => mirrors.bind fun _ => ?_
    exact totals.bind fun total => (mirrors_updateRoll _ _).bind fun _ => reports _ _
  | evaluating => exact .fail _
  | evaluated => exact .fail _

/-! ## What is done with rolls -/

theorem mirrors_totalButText (roll : Roll) (refusal : Fault) :
    replay.MirrorsAll (totalButText roll refusal) (totalButText roll refusal) := by
  have totals : replay.MirrorsAll (read fun ledger => .ok (ledger.rollTotal roll))
      (read fun ledger => .ok (ledger.rollTotal roll)) :=
    .read fun _ _ _ alike => congrArg Except.ok (alike.agrees.rollTotal roll)
  exact totals.bind fun _ => .ite (.fail _) (.pure _)

theorem mirrors_checkArgument (term : Term) (fn : Function) (roll : Roll) :
    replay.MirrorsAll (Context.checkArgument term fn roll) (Context.checkArgument term fn roll) :=
  (mirrors_totalButText roll _).bind fun _ => .pure _

theorem mirrors_collect {pool : Pool} (among : replay.Among (.pool pool)) (roll : Roll) :
    replay.MirrorsAll (Context.collect pool roll) (Context.collect pool roll) := by
  refine (mirrors_totalButText roll _).bind fun total => .change fun _ _ _ alike => ?_
  have level := alike.at (alike.level_of_term among rfl)
  exact (level.change (rewrites_outcomes (· ++ [{ value := total }]))).alike

theorem mirrors_compute (term : Term) (fn : Function) (rolls : List Roll) :
    replay.MirrorsAll (Context.compute term fn rolls) (Context.compute term fn rolls) := by
  refine .of_done fun taken progress other alike => ?_
  unfold Context.compute
  rw [alike.agrees.functionValue]
  split
  · exact ⟨_, _, _, rfl, rfl, alike⟩
  · exact ⟨_, _, _, rfl, rfl, alike⟩
  · exact ⟨_, _, _, rfl, rfl, alike⟩
  · exact ⟨_, _, _, rfl, rfl, alike⟩

/-! ## Terms and rolls -/

/-- A die is level once it has been rolled. -/
theorem mirrors_dice {d : Dice} (among : replay.Among (.dice d))
    (number : replay.MirrorsAll (replay.asking.evaluateAmount d.number)
      (replay.plain.evaluateAmount d.number))
    (faces : replay.MirrorsAll (replay.asking.evaluateAmount d.faces)
      (replay.plain.evaluateAmount d.faces)) :
    replay.MirrorsAll (replay.asking.evaluateTerm (.dice d)) (replay.plain.evaluateTerm (.dice d)) := by
  have member : d ∈ replay.resolver.roll.dice := by
    rw [RollOf.dice, Term.diceFrom_eq]
    exact List.mem_filterMap.2 ⟨_, among, rfl⟩
  unfold Context.evaluateTerm
  exact mirrors_ofTerm (number.bind fun _ => faces.bind fun _ => mirrors_rollDice member)

/-- The modifiers of a pool roll nothing. -/
theorem mirrors_pool {p : Pool} (among : replay.Among (.pool p))
    (rolls : replay.MirrorsAll (replay.asking.evaluateRolls (Context.collect p) p.rolls)
      (replay.plain.evaluateRolls (Context.collect p) p.rolls)) :
    replay.MirrorsAll (replay.asking.evaluateTerm (.pool p)) (replay.plain.evaluateTerm (.pool p)) := by
  have chains : replay.MirrorsChains p.tag.id (Context.modifiedPool p) fun _ _ _ => pure () :=
    ⟨rfl, fun _ _ _ => .pure _⟩
  have modifiers := mirrors_runModifiers chains p.modifiers
  unfold Context.evaluateTerm
  refine mirrors_ofTerm (rolls.bind fun _ => ?_)
  exact modifiers.mono (fun _ _ _ alike => alike.at (alike.level_of_term among rfl))
    (fun _ _ _ alike => alike) fun _ _ _ alike => alike.alike

mutual

/-- The evaluation of a term of the roll is mirrored. -/
theorem mirrors_evaluateTerm : (term : Term) → term.Throughout replay.Among (fun _ => True) →
    replay.MirrorsAll (replay.asking.evaluateTerm term) (replay.plain.evaluateTerm term)
  | .numeric tag value, among => by
    unfold Context.evaluateTerm
    exact mirrors_ofOther among rfl (.pure _)
  | .operator tag op, among => by
    unfold Context.evaluateTerm
    exact mirrors_ofOther among rfl (.pure _)
  | .text tag word, among => by
    unfold Context.evaluateTerm
    exact mirrors_ofOther among rfl (.ite (.pure _) (.fail _))
  | .group tag roll, ⟨among, _, inside⟩ => by
    unfold Context.evaluateTerm
    exact mirrors_ofOther among rfl (mirrors_unlessRollEvaluated roll
      (mirrors_ofRoll roll (mirrors_evaluateTerms roll.terms inside)))
  | .function tag fn rolls, ⟨among, parts⟩ => by
    unfold Context.evaluateTerm
    refine mirrors_ofOther among rfl ?_
    exact (mirrors_evaluateRolls rolls parts fun roll => mirrors_checkArgument _ fn roll).bind
      fun _ => mirrors_compute _ fn rolls
  | .dice d, ⟨among, number, faces⟩ =>
    mirrors_dice among (mirrors_evaluateAmount d.number number) (mirrors_evaluateAmount d.faces faces)
  | .pool p, ⟨among, parts⟩ =>
    mirrors_pool among (mirrors_evaluateRolls p.rolls parts fun roll => mirrors_collect among roll)

/-- The evaluation of a row is mirrored. -/
theorem mirrors_evaluateTerms : (terms : List Term) →
    RowThroughout replay.Among (fun _ => True) terms →
    replay.MirrorsAll (replay.asking.evaluateTerms terms) (replay.plain.evaluateTerms terms)
  | [], _ => by
    unfold Context.evaluateTerms
    exact .pure _
  | term :: rest, ⟨head, tail⟩ => by
    unfold Context.evaluateTerms
    exact (mirrors_unlessEvaluated term (mirrors_evaluateTerm term head)).bind
      fun _ => mirrors_evaluateTerms rest tail

/-- The evaluation of rolls is mirrored if that is what is done with each of them. -/
theorem mirrors_evaluateRolls : (rolls : List Roll) →
    RollsThroughout replay.Among (fun _ => True) rolls → {use : Roll → Evaluation Unit} →
    (∀ roll, replay.MirrorsAll (use roll) (use roll)) →
    replay.MirrorsAll (replay.asking.evaluateRolls use rolls) (replay.plain.evaluateRolls use rolls)
  | [], _, _, _ => by
    unfold Context.evaluateRolls
    exact .pure _
  | roll :: rest, ⟨_, inside, tail⟩, use, used => by
    unfold Context.evaluateRolls
    have evaluates := mirrors_unlessRollEvaluated roll
      (mirrors_ofRoll roll (mirrors_evaluateTerms roll.terms inside))
    exact evaluates.bind fun _ => (used roll).bind fun _ => mirrors_evaluateRolls rest tail used

/-- The evaluation of an amount is mirrored. -/
theorem mirrors_evaluateAmount : (amount : Operand Term) →
    AmountThroughout replay.Among (fun _ => True) amount →
    replay.MirrorsAll (replay.asking.evaluateAmount amount) (replay.plain.evaluateAmount amount)
  | .known _, _ => by
    unfold Context.evaluateAmount
    exact .pure _
  | .computed term, inside => by
    unfold Context.evaluateAmount
    exact mirrors_unlessEvaluated term (mirrors_evaluateTerm term inside)

end

/-- The evaluation of the roll is mirrored. -/
theorem mirrors_evaluateRoll (replay : Replay) :
    replay.MirrorsAll (replay.asking.evaluateRoll replay.resolver.roll)
      (replay.plain.evaluateRoll replay.resolver.roll) :=
  mirrors_ofRoll _ (mirrors_evaluateTerms _ (Term.rowThroughout_of_partsFrom fun _ member => member))

end Replay
end DiceNotation
