import DiceNotation.Evaluation.Modifiers

namespace DiceNotation

/-!
# Evaluating terms and rolls

A term or roll is evaluated once.  Its phase says that it is being evaluated
before anything inside it is touched, and that it has been evaluated only when
all went well.  What is inside and has been evaluated already is left alone.
-/

namespace Evaluation

/-- The phase of a term. -/
def phaseOf (term : Term) : Evaluation Phase := .read fun ledger => .ok (ledger.term term.id).phase

/-- Moves a term to a phase. -/
def enter (term : Term) (phase : Phase) : Evaluation Unit :=
  .change fun ledger => ledger.updateTerm term.id fun state => { state with phase := phase }

/-- Evaluates a term by evaluating what is inside it. -/
def ofTerm (term : Term) (inside : Evaluation Unit) : Evaluation Unit := do
  match ← phaseOf term with
  | .unevaluated =>
    enter term .evaluating
    inside
    enter term .evaluated
  | _ => .fail (term.blame (.use (.termEvaluated term.formula)))

/-- Evaluates what is inside a term unless that has happened before. -/
def unlessEvaluated (term : Term) (evaluation : Evaluation Unit) : Evaluation Unit := do
  let evaluated ← .read fun ledger => .ok (ledger.isEvaluated term)
  if evaluated then pure () else evaluation

/-- Evaluates a roll by evaluating its terms, and keeps the total. -/
def ofRoll (roll : Roll) (inside : Evaluation Unit) : Evaluation Unit := do
  match ← .read fun ledger => .ok (ledger.roll roll.id).phase with
  | .unevaluated =>
    .change fun ledger => ledger.updateRoll roll.id fun state => { state with phase := .evaluating }
    inside
    let total ← .read (·.totalOfTerms roll.terms)
    .change fun ledger => ledger.updateRoll roll.id fun _ => ⟨.evaluated, total⟩
    .report .debug
      ("Rolled '" ++ roll.formula ++ "' = " ++ total.plainText)
  | _ => .fail (.use (.rollEvaluated roll.formula))

/-- Evaluates a roll unless that has happened before. -/
def unlessRollEvaluated (roll : Roll) (evaluation : Evaluation Unit) : Evaluation Unit := do
  let evaluated ← .read fun ledger => .ok (ledger.isRollEvaluated roll)
  if evaluated then pure () else evaluation

/-- The total of a roll, which must not be text. -/
def totalButText (roll : Roll) (refusal : Fault) : Evaluation Json := do
  let total ← .read fun ledger => .ok (ledger.rollTotal roll)
  if total.isText then .fail refusal else return total

end Evaluation

namespace Context

variable (context : Context)

/-- Rolls dice whose amounts are evaluated, and carries out their modifiers. -/
def rollDice (dice : Dice) : Evaluation Unit := do
  let number ← requireInteger dice .number 0 dice.number
  let _ ← requireInteger dice .faces 1 dice.faces
  context.rollUpTo dice number number
  context.runModifiers (context.modifiedDice dice) dice.modifiers
where
  /-- The value of an amount of dice, which must be an integer from `minimum` on. -/
  requireInteger (dice : Dice) (what : DiceAmount) (minimum : Nat) (amount : Operand Term) :
      Evaluation Nat := do
    let value ← .read (·.amount amount)
    match value with
    | .number (.int n) =>
      if (minimum : Int) ≤ n then return n.toNat else refuse dice what value minimum
    | _ => refuse dice what value minimum
  /-- The refusal of a value that is no such amount. -/
  refuse (dice : Dice) (what : DiceAmount) (value : Json) (minimum : Nat) : Evaluation Nat :=
    naming dice (.fail (.clause (.badTotal what value.quoted minimum) dice.formula))

/-- Computes a function, so that a failure shows at once. -/
def compute (term : Term) (fn : Function) (rolls : List Roll) : Evaluation Unit := fun progress =>
  match progress.ledger.functionValue fn rolls with
  | .ok _ => .done (.ok ()) progress
  | .error (.number .overflow) => .done (.error (.number .overflow)) progress
  | .error (.number failure) =>
    .done (.error (.use (.notComputable term.formula failure))) progress
  | .error fault => .done (.error fault) progress

/-- Takes the total of a roll as a result of a pool. -/
def collect (pool : Pool) (roll : Roll) : Evaluation Unit := do
  let total ← Evaluation.totalButText roll (.clause .textInPool roll.formula)
  .change fun ledger => ledger.updateTerm pool.tag.id fun state =>
    { state with outcomes := state.outcomes ++ [{ value := total }] }

/-- Refuses a roll with the total of a word as an argument of a function. -/
def checkArgument (term : Term) (fn : Function) (roll : Roll) : Evaluation Unit := do
  let _ ← Evaluation.totalButText roll (.clause (.textArgument fn.name) term.formula)

/-- Refuses words, unless they are allowed. -/
def allowWord (term : Term) : Evaluation Unit :=
  if context.allowStrings then pure ()
  else .fail (.clauseData .unrecognizedTerm term.formulaData)

mutual

/-- Evaluates a term. -/
def evaluateTerm : Term → Evaluation Unit
  | .numeric tag value => .ofTerm (.numeric tag value) (pure ())
  | .operator tag op => .ofTerm (.operator tag op) (pure ())
  | .text tag word => .ofTerm (.text tag word) (context.allowWord (.text tag word))
  | .group tag roll => .ofTerm (.group tag roll)
      (.unlessRollEvaluated roll (.ofRoll roll (evaluateTerms roll.terms)))
  | .function tag fn rolls => .ofTerm (.function tag fn rolls) do
      evaluateRolls (checkArgument (.function tag fn rolls) fn) rolls
      compute (.function tag fn rolls) fn rolls
  | .dice d => .ofTerm (.dice d) do
      evaluateAmount d.number
      evaluateAmount d.faces
      context.rollDice d
  | .pool p => .ofTerm (.pool p) do
      evaluateRolls (collect p) p.rolls
      context.runModifiers (modifiedPool p) p.modifiers

/-- Evaluates terms in order. -/
def evaluateTerms : List Term → Evaluation Unit
  | [] => pure ()
  | term :: rest => do
    .unlessEvaluated term (evaluateTerm term)
    evaluateTerms rest

/-- Evaluates rolls in order, and does something with each once it is evaluated. -/
def evaluateRolls (use : Roll → Evaluation Unit) : List (RollOf Term) → Evaluation Unit
  | [] => pure ()
  | roll :: rest => do
    .unlessRollEvaluated roll (.ofRoll roll (evaluateTerms roll.terms))
    use roll
    evaluateRolls use rest

/-- Evaluates the term that computes an amount. -/
def evaluateAmount : Operand Term → Evaluation Unit
  | .known _ => pure ()
  | .computed term => .unlessEvaluated term (evaluateTerm term)

end

/-- Evaluates a roll. -/
def evaluateRoll (roll : Roll) : Evaluation Unit :=
  .ofRoll roll (context.evaluateTerms roll.terms)

end Context

/-- Evaluates a single term.  Where nothing can be waited for, a fault may have
to name the formula, so there must be one. -/
def Term.evaluate (options : Options) (surroundings : Surroundings) (term : Term) :
    Evaluation Unit := do
  let context ← .lift (options.forTerm surroundings)
  if context.synchronous && !term.hasFormula then .fail .wrongKind
  else context.evaluateTerm term

/-- Evaluates a roll where nothing can be waited for. -/
def RollOf.evaluateNow (options : Options) (surroundings : Surroundings) (roll : Roll) :
    Evaluation Unit := do
  let context ← .lift (options.forRoll surroundings)
  context.evaluateRoll roll

/-- Evaluates a roll.  If there is a resolver, it asks for what can be known in
advance, and it is closed at the end, however the evaluation ends. -/
def RollOf.evaluate (options : Options) (surroundings : Surroundings) (roll : Roll) :
    Evaluation Unit := do
  match ← .read fun ledger => .ok (ledger.roll roll.id).phase with
  | .unevaluated =>
    let context ← .lift (options.forRoll surroundings)
    match surroundings.resolver with
    | none => context.evaluateRoll roll
    | some resolver =>
      Evaluation.ending (do
        resolver.firstPass context.methods
        context.evaluateRoll roll) resolver.close
  | _ => .fail (.use (.rollEvaluated roll.formula))

/-- Evaluates a roll in the way that its surroundings allow. -/
def RollOf.run (options : Options) (surroundings : Surroundings) (roll : Roll) :
    Progress → Except Fault Unit × Progress := fun progress =>
  let evaluation :=
    if surroundings.synchronous then roll.evaluateNow options surroundings
    else roll.evaluate options surroundings
  (evaluation progress).now roll.formula

/-- Evaluates a single term in the way that its surroundings allow. -/
def Term.run (options : Options) (surroundings : Surroundings) (term : Term) :
    Progress → Except Fault Unit × Progress := fun progress =>
  (term.evaluate options surroundings progress).now term.formula

end DiceNotation
