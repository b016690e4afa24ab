import DiceNotation.Evaluation.Step
import DiceNotation.Fulfillment.Method

namespace DiceNotation
namespace Resolver

/-!
# Resolvers

A resolver asks the outside for the dice of a roll.  Before the evaluation it
asks for all dice whose amounts are known; rerolls and explosions ask for one
die at a time.  A value that is handed in goes to the earliest outstanding die
of its method and kind.  When the resolver is closed, all that is outstanding
is cancelled and nothing more can be asked for.
-/

/-- Asks for one die. -/
def add (resolver : Resolver) (dice : Dice) (method : Json) (isNew reroll explode : Bool)
    (progress : Progress) : Request × Progress :=
  let (request, asked) := progress.ask
  let descriptor : Descriptor := ⟨dice, method, isNew, reroll, explode, request⟩
  (request, asked.updateResolver resolver fun state =>
    { state with outstanding := state.outstanding ++ [descriptor] })

/-- Asks for a number of dice of the same kind. -/
def addMany (resolver : Resolver) (dice : Dice) (method : Json) :
    Nat → Progress → List Request × Progress
  | 0, progress => ([], progress)
  | count + 1, progress =>
    let (request, later) := resolver.add dice method false false false progress
    let (rest, last) := addMany resolver dice method count later
    (request :: rest, last)

/-- How many dice of a term have no result yet. -/
def missing (ledger : Ledger) (dice : Dice) : Except Fault Nat := do
  let present := (ledger.outcomes dice.tag.id).length
  let number ← ledger.amount dice.number
  match number.number? with
  | some (.int n) => return (n - present).toNat
  | some (.real x) =>
    if Number.below (.int present) (.real x) then .error .wrongKind else return 0
  | none => if number.isSet then .error .wrongKind else return 0

/-- Asks for all dice of a term that have no result yet. -/
def addTerm (resolver : Resolver) (dice : Dice) (progress : Progress) :
    Except Fault (List Request × Progress) :=
  if (progress.resolver resolver).closed then .error .cancelled
  else
    match missing progress.ledger dice with
    | .error fault => .error fault
    | .ok count =>
      .ok (resolver.addMany dice (progress.ledger.term dice.tag.id).method count progress)

/-- Whether nothing is outstanding.  If so, the first pass ends. -/
def checkDone (resolver : Resolver) (progress : Progress) : Bool × Progress :=
  let state := progress.resolver resolver
  if !state.outstanding.isEmpty then (false, progress)
  else
    match state.firstPass with
    | none => (true, progress)
    | some request =>
      match progress.answer? request with
      | some _ => (true, progress)
      | none => (true, progress.settle request .released)

/-- Whether a descriptor is of a method and a kind of dice. -/
def fits (ledger : Ledger) (method denomination : Json) (descriptor : Descriptor) :
    Except Fault Bool :=
  if descriptor.method.same method then
    (ledger.denomination descriptor.dice).map fun key => denomination.same (.string key)
  else .ok false

/-- The first descriptor of a method and a kind of dice, with those before it
and those behind it. -/
def findDescriptor (ledger : Ledger) (method denomination : Json) :
    List Descriptor → Except Fault (Option (List Descriptor × Descriptor × List Descriptor))
  | [] => .ok none
  | descriptor :: rest =>
    match fits ledger method denomination descriptor with
    | .error fault => .error fault
    | .ok true => .ok (some ([], descriptor, rest))
    | .ok false =>
      match findDescriptor ledger method denomination rest with
      | .error fault => .error fault
      | .ok none => .ok none
      | .ok (some (before, found, after)) => .ok (some (descriptor :: before, found, after))

/-- Adds an outcome to a term. -/
def addOutcome (ledger : Ledger) (dice : Dice) (value : Json) : Ledger :=
  ledger.updateTerm dice.tag.id fun state =>
    { state with outcomes := state.outcomes ++ [{ value := value }] }

/-- Gives a value to a descriptor, which is not outstanding any more. -/
def deliver (resolver : Resolver) (remaining : List Descriptor) (descriptor : Descriptor)
    (value : Number) (progress : Progress) : Progress :=
  let recorded :=
    if descriptor.isNew then progress
    else progress.updateLedger fun ledger => addOutcome ledger descriptor.dice (.number value)
  let removed := recorded.updateResolver resolver fun state =>
    { state with outstanding := remaining }
  (resolver.checkDone (removed.settle descriptor.request (.delivered value))).2

/-- Hands in a value, and tells whether a descriptor took it.  A value that the
die cannot show is rejected and leaves the die outstanding. -/
def register (resolver : Resolver) (method denomination : Json) (value : Json)
    (progress : Progress) : Except Fault (Bool × Progress) :=
  let state := progress.resolver resolver
  if state.closed then .ok (false, progress)
  else do
    match ← findDescriptor progress.ledger method denomination state.outstanding with
    | none => return (false, progress)
    | some (before, descriptor, after) =>
      let accepted ← progress.ledger.accepts descriptor.dice value
      match accepted, value with
      | true, .number n => return (true, resolver.deliver (before ++ after) descriptor n progress)
      | _, _ =>
        return (false, progress.report .warning
          ("Rejected " ++ value.plainText ++ " for " ++ denomination.plainText ++ " '" ++
            descriptor.dice.formula ++ "'"))

/-- Cancels what is still unanswered among requests. -/
def cancel (progress : Progress) (requests : List Request) : Progress :=
  requests.foldl (fun progress request =>
    match progress.answer? request with
    | some _ => progress
    | none => progress.settle request .cancelled) progress

/-- Cancels all that is outstanding.  A resolver is closed only once. -/
def close (resolver : Resolver) (progress : Progress) : Progress :=
  let state := progress.resolver resolver
  if state.closed then progress
  else
    let emptied := progress.updateResolver resolver fun state =>
      { state with outstanding := [], closed := true }
    let cancelled := cancel emptied (state.outstanding.map (·.request) ++ state.firstPass.toList)
    if state.outstanding.isEmpty then cancelled
    else
      cancelled.report .info ("Resolver for '" ++ resolver.roll.formula ++ "' closed with " ++
        toString state.outstanding.length ++ " unfulfilled dice")

/-- Waits for one more value of dice. -/
def resolve (resolver : Resolver) (dice : Dice) (method : Json) (reroll explode : Bool) :
    Evaluation Number := fun progress =>
  if (progress.resolver resolver).closed then .done (.error .cancelled) progress
  else
    let (request, asked) := resolver.add dice method true reroll explode progress
    .wait request asked fun answer later =>
      match answer with
      | .delivered value => .done (.ok value) later
      | _ => .done (.error .cancelled) later

/-- Asks for the dice among `dice` that can be fulfilled before evaluation. -/
def addAll (resolver : Resolver) (methods : MethodTable) :
    List Dice → Progress → Except Fault Unit × Progress
  | [], progress => (.ok (), progress)
  | dice :: rest, progress =>
    let state := progress.ledger.term dice.tag.id
    if dice.isReady && state.phase != .evaluated then
      match methods.named state.method with
      | .error fault => (.error fault, progress)
      | .ok method =>
        if method.interactive then
          match resolver.addTerm dice progress with
          | .error fault => (.error fault, progress)
          | .ok (_, later) => addAll resolver methods rest later
        else addAll resolver methods rest progress
    else addAll resolver methods rest progress

/-- Asks for every die that can be fulfilled before the evaluation starts, and
waits until nothing is outstanding. -/
def firstPass (resolver : Resolver) (methods : MethodTable) : Evaluation Unit := fun progress =>
  if (progress.resolver resolver).closed then .done (.error .cancelled) progress
  else
    match resolver.addAll methods resolver.roll.dice progress with
    | (.error fault, later) => .done (.error fault) later
    | (.ok (), later) =>
      match resolver.checkDone later with
      | (true, last) => .done (.ok ()) last
      | (false, last) =>
        let (request, asked) := last.ask
        .wait request (asked.updateResolver resolver fun state =>
            { state with firstPass := some request }) fun answer resumed =>
          match answer with
          | .cancelled => .done (.error .cancelled) resumed
          | _ => .done (.ok ()) resumed

end Resolver
end DiceNotation
