import DiceNotation.Dice.Counting
import DiceNotation.Evaluation.Draw

namespace DiceNotation
namespace Context

/-!
# Modifiers

## Rerolls and explosions

A chain goes through the outcomes and rolls once for each that matches.  A
recursive chain also checks the outcomes that it adds; one that happens once
stops after those that were there before.  The number of rolls that a chain
may add is limited, which bounds it.
-/

/-- How a chain goes on. -/
structure Chain where
  /-- Whether the outcomes that the chain adds are checked too. -/
  recursive : Bool
  /-- Whether matching outcomes stay, and are not rolled again. -/
  explode : Bool
  comparator : Comparator
  target : Json

namespace Chain

/-- Whether an outcome makes the chain roll. -/
def selects (chain : Chain) (outcome : Outcome) : Except Fault Bool :=
  if outcome.isActive then chain.comparator.holds outcome.value chain.target else .ok false

/-- Marks an outcome for which the chain rolls. -/
def mark (chain : Chain) (outcome : Outcome) : Outcome :=
  if chain.explode then { outcome with exploded := .bool true }
  else { outcome with rerolled := .bool true, active := .bool false }

/-- The position of the first outcome that makes the chain roll, counted from
the given position on. -/
def firstFrom (chain : Chain) (position : Nat) : List Outcome → Except Fault (Option Nat)
  | [] => .ok none
  | outcome :: rest =>
    match chain.selects outcome with
    | .error fault => .error fault
    | .ok true => .ok (some position)
    | .ok false => firstFrom chain (position + 1) rest

/-- The position of the first outcome from `checked` on that makes the chain
roll.  A chain that happens once looks only at the first `initial` outcomes. -/
def next? (chain : Chain) (initial checked : Nat) (outcomes : List Outcome) :
    Except Fault (Option Nat) :=
  let limited := if chain.recursive then outcomes else outcomes.take initial
  chain.firstFrom checked (limited.drop checked)

end Chain

variable (context : Context)

/-- Continues a chain from the outcome at `checked` on, with a number of rolls left. -/
def runChain (dice : Dice) (command : Command) (chain : Chain) (initial : Nat) :
    Nat → Nat → Evaluation Unit
  | rolls, checked => do
    match ← .read fun ledger => chain.next? initial checked (ledger.outcomes dice.tag.id) with
    | none => pure ()
    | some position =>
      match rolls with
      | 0 => .fail (.modifier (.tooManyRolls context.maxChainRolls) dice.formula command.raw)
      | rolls + 1 => do
        .change fun ledger => ledger.updateTerm dice.tag.id fun state =>
          { state with outcomes := state.outcomes.modify position chain.mark }
        let _ ← context.rollOne dice (!chain.explode) chain.explode
        runChain dice command chain initial rolls (position + 1)

/-- The target of a chain: as written, or the extreme result that the chain is
about. -/
def chainTarget (ledger : Ledger) (dice : Dice) (command : Command) (explode : Bool) :
    Except Fault Json :=
  match command.target with
  | some target => .ok (.ofInt target)
  | none => if explode then ledger.maximumValue dice else .ok (.ofInt dice.kind.minimum)

/-- Rolls again, or once more, for the outcomes that a command selects.  Where
chance plays no part nothing is rolled. -/
def chain (dice : Dice) (command : Command) (recursive explode : Bool) : Evaluation Unit := do
  let target ← .read fun ledger => chainTarget ledger dice command explode
  if context.isFixed then pure ()
  else
    let initial ← .read fun ledger => .ok (ledger.outcomes dice.tag.id).length
    context.runChain dice command
      ⟨recursive, explode, command.comparator.getD .equal, target⟩ initial
      context.maxChainRolls.toNat 0

/-!
## Carrying out modifiers

The modifiers of dice and pools are carried out in the order in which they are
written.  When failing modifiers are skipped, the outcomes become again what
they were before the modifier, and what was drawn for it is lost.
-/

/-- What modifiers work on: a term with outcomes, the modifiers it takes, and
how it rolls again. -/
structure Modified where
  term : Term
  table : ActionTable
  /-- Carries out a reroll or an explosion. -/
  chain : Command → Bool → Bool → Evaluation Unit

/-- The tally of a term. -/
def tallyOf (id : Identity) : Evaluation Tally :=
  .read fun ledger => .ok ⟨(ledger.term id).outcomes, (ledger.term id).counting⟩

/-- Carries out a modifier that rolls nothing.  What it did before it was cut
short stays done. -/
def tally (term : Term) (action : Action) (command : Command) : Evaluation Unit := do
  let before ← tallyOf term.id
  let (after, result) := before.carryOut action command term.formula
  .change fun ledger => ledger.updateTerm term.id fun state =>
    { state with outcomes := after.outcomes, counting := after.counting }
  .lift result

/-- Carries out one modifier. -/
def runModifier (modified : Modified) (raw : Json) : Evaluation Unit := do
  let term := modified.term
  let command ← .lift (Command.ofData raw term.formula)
  match modified.table.action? command.name with
  | none => .fail (.modifier .unknown term.formula command.raw)
  | some (.reroll once) => modified.chain command (!once) false
  | some (.explode once) => modified.chain command (!once) true
  | some action => tally term action command

/-- The message that a modifier is skipped. -/
def skipping (term : Term) (raw : Json) (message : String) : String :=
  "Skipping modifier '" ++ raw.plainText ++ "' on '" ++ term.formula ++ "': " ++ message

/-- Carries out one modifier, or skips it if it fails and that is allowed. -/
def tryModifier (modified : Modified) (raw : Json) : Evaluation Unit := fun progress =>
  let term := modified.term
  let outcomes := (progress.ledger.term term.id).outcomes
  (runModifier modified raw progress).andThen fun result later =>
    match result with
    | .error (.modifier reason formula command) =>
      let fault : Fault := .modifier reason formula command
      if context.lenient then
        let reported := later.report .warning (skipping term raw (fault.message?.getD ""))
        .done (.ok ()) (reported.updateLedger fun ledger =>
          ledger.updateTerm term.id fun state => { state with outcomes := outcomes })
      else .done (.error fault) later
    | other => .done other later

/-- Carries out modifiers in order.  A term without a formula has a modifier
that is no text; it gets no further than this. -/
def runModifiers (modified : Modified) : List Json → Evaluation Unit
  | [] => pure ()
  | raw :: rest =>
    if modified.term.hasFormula then do
      context.tryModifier modified raw
      runModifiers modified rest
    else .fail .wrongKind

/-- Dice as what modifiers work on. -/
def modifiedDice (dice : Dice) : Modified where
  term := .dice dice
  table := dice.kind.actions
  chain command recursive explode := context.chain dice command recursive explode

/-- A pool as what modifiers work on.  Nothing in it is rolled again. -/
def modifiedPool (pool : Pool) : Modified where
  term := .pool pool
  table := ActionTable.pool
  chain _ _ _ := pure ()

end Context
end DiceNotation
