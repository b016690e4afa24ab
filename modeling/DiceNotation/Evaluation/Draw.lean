import DiceNotation.Evaluation.Context

namespace DiceNotation
namespace Context

/-!
# Rolling one die

A die takes its value from its method: from the outside through a resolver, or
from a handler.  Where neither gives a value, a uniform value picks the result.
Every result is added to the outcomes of the dice.
-/

variable (context : Context)

/-- A result picked by the next uniform value. -/
def drawUniform (dice : Dice) : Evaluation Json := fun progress =>
  let u := Json.number (.real (context.uniform progress.draws))
  .done (progress.ledger.mapUniform dice u) { progress with draws := progress.draws + 1 }

/-- Goes on if dice have a formula, which what follows makes known. -/
def naming {α : Type} (dice : Dice) (evaluation : Evaluation α) : Evaluation α :=
  if (Term.dice dice).hasFormula then evaluation else .fail .wrongKind

/-- The next answer of a prepared handler.  The answers repeat for ever. -/
def nextAnswer (method : String) (answers : List Json) (calls : List Call) : Json :=
  let earlier := calls.countP (·.method == method)
  (answers[earlier % answers.length]?).getD .null

/-- Calls a prepared handler. -/
def call (method : String) (answers : List Json) (dice : Dice) (reroll explode : Bool) :
    Evaluation Json :=
  naming dice fun progress =>
    .done (.ok (nextAnswer method answers progress.calls))
      { progress with calls := ⟨method, dice.formula, reroll, explode⟩ :: progress.calls }

/-- What is left of an answer that cannot be waited for. -/
def withoutWaiting (method : String) (dice : Dice) : Evaluation Json :=
  if context.strict then
    naming dice (.fail (.determinism (.asynchronousMethod method) dice.formula))
  else pure .null

/-- The answer of a handler, or null. -/
def askHandler (dice : Dice) (method : String) (reroll explode : Bool) : Handler → Evaluation Json
  | .lowest => pure (.ofInt dice.kind.minimum)
  | .highest => .read (·.maximumValue dice)
  | .prepared .direct answers => call method answers dice reroll explode
  | .prepared .deferred answers =>
    if context.synchronous then context.withoutWaiting method dice
    else call method answers dice reroll explode
  | .prepared .promised answers => do
    let answer ← call method answers dice reroll explode
    if context.synchronous then context.withoutWaiting method dice else pure answer

/-- Reports that dice are rolled here although their method is interactive. -/
def reportDigital (dice : Dice) (reason : String) : Evaluation Json :=
  naming dice do
    .report .warning ("Rolling '" ++ dice.formula ++ "' digitally: " ++ reason)
    return .null

/-- A value from the outside, or null if there is none to be had. -/
def askOutside (dice : Dice) (method : Json) (reroll explode : Bool) : Evaluation Json :=
  if context.synchronous then
    if context.strict then
      naming dice (.fail (.determinism (.externalResult method.plainText) dice.formula))
    else reportDigital dice "synchronous evaluation cannot wait for input"
  else if !context.allowInteractive then pure .null
  else
    match context.resolver with
    | none => reportDigital dice ("no resolver for method '" ++ method.plainText ++ "'")
    | some resolver => do
      return .number (← resolver.resolve dice method reroll explode)

/-- The value that the method of dice gives, or null. -/
def askMethod (dice : Dice) (name : Json) (reroll explode : Bool) : Evaluation Json := do
  let method ← .lift (context.methods.named name)
  if method.interactive then context.askOutside dice name reroll explode
  else
    match method.handler with
    | none => return .null
    | some handler => context.askHandler dice name.plainText reroll explode handler

/-- The method of dice. -/
def methodOf (dice : Dice) : Evaluation Json :=
  .read fun ledger => .ok (ledger.term dice.tag.id).method

/-- A result by the method of dice, or by chance. -/
def draw (dice : Dice) (reroll explode : Bool) : Evaluation Json := do
  let name ← methodOf dice
  let given ← context.askMethod dice name reroll explode
  match given with
  | .null => context.drawUniform dice
  | value => do
    if ← .read (·.accepts dice value) then return value
    else
      let method ← methodOf dice
      naming dice
        (.fail (.use (.impossibleResult value.quoted dice.formula method.plainText)))

/-- The next result of dice. -/
def nextResult (dice : Dice) (reroll explode : Bool) : Evaluation Json :=
  if context.minimize then pure (.ofInt dice.kind.minimum)
  else if context.maximize then .read (·.maximumValue dice)
  else context.draw dice reroll explode

/-- Rolls one die and adds its result to the outcomes. -/
def rollOne (dice : Dice) (reroll explode : Bool) : Evaluation Outcome := do
  let evaluated ← .read fun ledger => .ok (ledger.isEvaluated (.dice dice))
  if evaluated then naming dice (.fail (.use (.termNoLongerRolls dice.formula)))
  else
    let value ← context.nextResult dice reroll explode
    .change fun ledger => Resolver.addOutcome ledger dice value
    return { value := value }

/-- Rolls dice until they have a number of outcomes.  Each roll adds one, so no
more rolls than that number are needed. -/
def rollUpTo (dice : Dice) (number : Nat) : Nat → Evaluation Unit
  | 0 => pure ()
  | rolls + 1 => do
    let present ← .read fun ledger => .ok (ledger.outcomes dice.tag.id).length
    if present < number then
      let _ ← context.rollOne dice false false
      rollUpTo dice number rolls
    else pure ()

end Context
end DiceNotation
