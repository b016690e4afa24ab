import DiceNotation.Dice.Command
import DiceNotation.Dice.Kind
import DiceNotation.Dice.Selection

namespace DiceNotation

/-!
# Counting and selecting by modifiers

Each modifier that rolls nothing turns a list of outcomes into another.  To
count successes gives every active outcome a count of one or zero.  Failures
are counted the same way, unless successes were counted before: then each
failure takes one away.
-/

/-- The outcomes of a term and whether successes have been counted. -/
structure Tally where
  outcomes : List Outcome
  counting : Bool := false

/-- A refusal of a modifier of the term with the given formula. -/
def Command.refuse {α : Type} (command : Command) (formula : String) (reason : ModifierReason) :
    Except Fault α :=
  .error (.modifier reason formula command.raw)

/-- How many outcomes a selecting modifier keeps or drops, one by default. -/
def Command.amount (command : Command) (formula : String) : Except Fault Int :=
  match command.comparator with
  | some _ => command.refuse formula .takesCount
  | none => .ok (command.target.getD 1)

/-- The comparison of a counting modifier, equality by default. -/
def Command.comparison (command : Command) (formula : String) : Except Fault (Comparator × Json) :=
  match command.target with
  | none => command.refuse formula .needsTarget
  | some target => .ok (command.comparator.getD .equal, .ofInt target)

namespace Outcome

/-- The count of an outcome that is worth one or nothing. -/
def oneIf (counted : Bool) : Json := .ofNat (if counted then 1 else 0)

/-- Counts an outcome as a success or not. -/
def markSuccess (test : Json → Except Fault Bool) (outcome : Outcome) : Except Fault Outcome :=
  (test outcome.value).map fun passed =>
    { outcome with success := .bool passed, count := oneIf passed }

/-- Counts an outcome as a failure or not. -/
def markFailure (test : Json → Except Fault Bool) (outcome : Outcome) : Except Fault Outcome :=
  (test outcome.value).map fun passed =>
    { outcome with failure := .bool passed, count := oneIf passed }

/-- Takes one away for a failure. -/
def deduct (outcome : Outcome) : Outcome :=
  { outcome with failure := .bool true, count := .ofInt (-1) }

/-- Takes one away if the value is a failure. -/
def deductIf (test : Json → Except Fault Bool) (outcome : Outcome) : Except Fault Outcome :=
  (test outcome.value).map fun passed => if passed then outcome.deduct else outcome

/-- Takes one away if the outcome was counted and is no success. -/
def deductUnsuccessful (outcome : Outcome) : Outcome :=
  if outcome.isCounted && !outcome.success.isSet then outcome.deduct else outcome

end Outcome

namespace Tally

/-- What a modifier leaves behind, and its fault if it was cut short. -/
abbrev Change := Tally × Except Fault Unit

/-- A modifier that is refused before it changes anything. -/
def unchanged (tally : Tally) (fault : Fault) : Change := (tally, .error fault)

/-- Changes the active outcomes as far as that is possible. -/
def mapActive (tally : Tally) (change : Outcome → Except Fault Outcome) : Change :=
  let (outcomes, result) := Outcome.mapActive change tally.outcomes
  ({ tally with outcomes := outcomes }, result)

/-- Counts the active outcomes that pass a test as successes. -/
def countSuccesses (tally : Tally) (test : Json → Except Fault Bool) : Change :=
  match tally.mapActive (Outcome.markSuccess test) with
  | (counted, .ok ()) => ({ counted with counting := true }, .ok ())
  | cutShort => cutShort

/-- Goes on with the comparison of a command. -/
def comparing (command : Command) (formula : String) (tally : Tally)
    (next : (Json → Except Fault Bool) → Change) : Change :=
  match command.comparison formula with
  | .error fault => tally.unchanged fault
  | .ok (comparator, target) => next (comparator.holds · target)

/-- Takes away failures: the outcomes that match, or without a target those
that were counted and are no success. -/
def deductFailures (command : Command) (formula : String) (tally : Tally) : Change :=
  match command.target with
  | none => tally.mapActive fun outcome => .ok outcome.deductUnsuccessful
  | some _ => tally.comparing command formula fun test => tally.mapActive (Outcome.deductIf test)

/-- Keeps or drops outcomes. -/
def select (command : Command) (formula : String) (keep highest : Bool) (tally : Tally) : Change :=
  match command.amount formula with
  | .error fault => tally.unchanged fault
  | .ok number =>
    match Selection.apply ⟨.int number, keep, highest⟩ tally.outcomes with
    | .error fault => tally.unchanged fault
    | .ok outcomes => ({ tally with outcomes := outcomes }, .ok ())

/-- A refusal of a command. -/
def refuse (command : Command) (formula : String) (tally : Tally) (reason : ModifierReason) :
    Change :=
  (tally, command.refuse formula reason)

/-- Counts the odd outcomes or the even ones. -/
def countParity (command : Command) (formula : String) (odd : Bool) (tally : Tally) : Change :=
  if command.comparator.isSome then tally.refuse command formula .takesCount
  else if command.target.isSome then tally.refuse command formula .takesNoValue
  else tally.countSuccesses (Json.leavesModTwo (if odd then 1 else 0))

/-- Counts the flips that land on the called side, heads by default. -/
def call (command : Command) (formula : String) (tally : Tally) : Change :=
  if command.comparator.isSome then tally.refuse command formula .callSide
  else
    let side := command.target.getD 1
    if side == 0 || side == 1 then
      tally.countSuccesses fun value => .ok (value.same (.ofInt side))
    else tally.refuse command formula .noSuchSide

/-- Carries out a modifier that rolls nothing.  The modifiers that roll leave
the tally as it is. -/
def carryOut (action : Action) (command : Command) (formula : String) (tally : Tally) : Change :=
  match action with
  | .keep => tally.select command formula true (command.name != "kl")
  | .drop => tally.select command formula false (command.name == "dh")
  | .countSuccesses => tally.comparing command formula tally.countSuccesses
  | .countFailures =>
    if tally.counting then tally.deductFailures command formula
    else
      tally.comparing command formula fun test => tally.mapActive (Outcome.markFailure test)
  | .deductFailures => tally.deductFailures command formula
  | .countParity odd => tally.countParity command formula odd
  | .call => tally.call command formula
  | .reroll _ => (tally, .ok ())
  | .explode _ => (tally, .ok ())

end Tally
end DiceNotation
