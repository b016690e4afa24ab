import DiceNotation.Journal
import DiceNotation.Roll.Total
import DiceNotation.Roll.Walk

namespace DiceNotation

/-!
# Evaluation that may wait

An evaluation runs from one progress to the next until it is done or has to
wait for the answer to a request.  When it goes on, it does so from the
progress of that moment, which others may have moved on.  Work that was done
before a fault stays done.
-/

/-!
## The progress of evaluation

Besides the ledger, an evaluation counts the uniform values that it takes,
records the calls of prepared handlers and the messages of the journal, and
makes requests to the outside.  A request is answered at most once.  The
resolvers that pass requests on keep the outstanding ones in order.
-/

/-- A recorded call of a prepared handler. -/
structure Call where
  method : String
  formula : String
  reroll : Bool
  explode : Bool
  deriving DecidableEq, Repr

/-- The answer to a request. -/
inductive Answer where
  /-- A value rolled outside. -/
  | delivered (value : Number)
  /-- Nothing is outstanding any more. -/
  | released
  /-- There will be no answer. -/
  | cancelled

/-- What tells a request apart from all others. -/
abbrev Request := Nat

/-- One die that the outside is asked for. -/
structure Descriptor where
  dice : Dice
  method : Json
  /-- Whether the die was asked for during the evaluation. -/
  isNew : Bool
  reroll : Bool
  explode : Bool
  request : Request

/-- Something that passes requests for the dice of a roll on to the outside. -/
structure Resolver where
  id : Nat
  roll : Roll

/-- What changes about a resolver. -/
structure ResolverState where
  outstanding : List Descriptor := []
  closed : Bool := false
  /-- The request that ends when the first pass has nothing outstanding. -/
  firstPass : Option Request := none

instance : Inhabited ResolverState := ⟨{}⟩

/-- How far things have come. -/
structure Progress where
  ledger : Ledger
  /-- How many uniform values have been taken. -/
  draws : Nat
  /-- The recorded calls, the latest one first. -/
  calls : List Call
  /-- The messages, the latest one first. -/
  journal : List Message
  answers : Table (Option Answer)
  /-- How many requests have been made. -/
  requests : Nat
  /-- The answered requests, the latest one first. -/
  answered : List Request
  resolvers : Table ResolverState

namespace Progress

/-- The progress before anything has happened, from a ledger on. -/
def ofLedger (ledger : Ledger) : Progress where
  ledger := ledger
  draws := 0
  calls := []
  journal := []
  answers := Table.empty
  requests := 0
  answered := []
  resolvers := Table.empty

/-- Adds a message to the journal. -/
def report (progress : Progress) (level : Level) (text : String) : Progress :=
  { progress with journal := ⟨level, text⟩ :: progress.journal }

/-- The answer to a request, if there is one. -/
def answer? (progress : Progress) (request : Request) : Option Answer :=
  progress.answers.get request

/-- Makes a request. -/
def ask (progress : Progress) : Request × Progress :=
  (progress.requests, { progress with requests := progress.requests + 1 })

/-- Answers a request. -/
def settle (progress : Progress) (request : Request) (answer : Answer) : Progress :=
  { progress with
    answers := progress.answers.set request (some answer)
    answered := request :: progress.answered }

/-- The state of a resolver. -/
def resolver (progress : Progress) (resolver : Resolver) : ResolverState :=
  progress.resolvers.get resolver.id

/-- Changes the state of a resolver. -/
def updateResolver (progress : Progress) (resolver : Resolver)
    (change : ResolverState → ResolverState) : Progress :=
  { progress with resolvers := progress.resolvers.modify resolver.id change }

/-- Changes the ledger. -/
def updateLedger (progress : Progress) (change : Ledger → Ledger) : Progress :=
  { progress with ledger := change progress.ledger }

end Progress

/-! ## Steps -/

/-- Where a run stands: it is done, or it waits for an answer. -/
inductive Step (α : Type) where
  | done (result : Except Fault α) (progress : Progress)
  | wait (request : Request) (progress : Progress) (resume : Answer → Progress → Step α)

namespace Step

variable {α β : Type}

/-- Goes on with the result of a run, be it a value or a fault. -/
def andThen (step : Step α) (next : Except Fault α → Progress → Step β) : Step β :=
  match step with
  | done result progress => next result progress
  | wait request progress resume =>
    wait request progress fun answer later => andThen (resume answer later) next

@[simp] theorem andThen_done (result : Except Fault α) (progress : Progress)
    (next : Except Fault α → Progress → Step β) :
    (done result progress).andThen next = next result progress := rfl

@[simp] theorem andThen_wait (request : Request) (progress : Progress)
    (resume : Answer → Progress → Step α) (next : Except Fault α → Progress → Step β) :
    (wait request progress resume).andThen next =
      wait request progress fun answer later => (resume answer later).andThen next := rfl

/-- Going on with nothing changes nothing. -/
@[simp] theorem andThen_done_self (step : Step α) : step.andThen done = step := by
  induction step with
  | done result progress => rfl
  | wait request progress resume ih => simp only [andThen_wait, ih]

/-- Going on twice is going on once with both in a row. -/
theorem andThen_assoc {γ : Type} (step : Step α) (next : Except Fault α → Progress → Step β)
    (last : Except Fault β → Progress → Step γ) :
    (step.andThen next).andThen last =
      step.andThen fun result later => (next result later).andThen last := by
  induction step with
  | done result progress => rfl
  | wait request progress resume ih => simp only [andThen_wait, ih]

/-- The progress at which a run stands. -/
def progress : Step α → Progress
  | done _ progress => progress
  | wait _ progress _ => progress

/-- What a run gives that must not wait. -/
def now (formula : String) : Step α → Except Fault α × Progress
  | done result progress => (result, progress)
  | wait _ progress _ => (.error (.determinism .hadToWait formula), progress)

end Step

/-- An evaluation. -/
def Evaluation (α : Type) : Type := Progress → Step α

namespace Evaluation

variable {α β : Type}

/-- Goes on with the value of an evaluation, or ends with its fault. -/
def bind (first : Evaluation α) (next : α → Evaluation β) : Evaluation β := fun progress =>
  (first progress).andThen fun result later =>
    match result with
    | .ok a => next a later
    | .error fault => .done (.error fault) later

instance : Monad Evaluation where
  pure a := fun progress => .done (.ok a) progress
  bind := bind

/-- To give back the value of an evaluation changes nothing. -/
theorem bind_pure_self (evaluation : Evaluation α) : bind evaluation pure = evaluation := by
  funext progress
  have same : (fun (result : Except Fault α) (later : Progress) =>
      match result with
      | .ok a => (pure a : Evaluation α) later
      | .error fault => Step.done (.error fault) later) = Step.done := by
    funext result later
    cases result <;> rfl
  simp only [bind, same, Step.andThen_done_self]

/-- Evaluations in sequence are associative. -/
theorem bind_assoc {γ : Type} (first : Evaluation α) (next : α → Evaluation β)
    (last : β → Evaluation γ) :
    bind (bind first next) last = bind first fun a => bind (next a) last := by
  funext progress
  simp only [bind, Step.andThen_assoc]
  congr
  funext result later
  cases result <;> rfl

instance : LawfulMonad Evaluation :=
  LawfulMonad.mk' Evaluation bind_pure_self (fun _ _ => rfl) bind_assoc

/-- Ends with a fault. -/
def fail (fault : Fault) : Evaluation α := fun progress => .done (.error fault) progress

/-- The result of a computation. -/
def lift (result : Except Fault α) : Evaluation α := fun progress => .done result progress

/-- Reads the ledger. -/
def read (f : Ledger → Except Fault α) : Evaluation α := fun progress =>
  .done (f progress.ledger) progress

/-- Changes the ledger. -/
def change (f : Ledger → Ledger) : Evaluation Unit := fun progress =>
  .done (.ok ()) (progress.updateLedger f)

/-- Adds a message to the journal. -/
def report (level : Level) (text : String) : Evaluation Unit := fun progress =>
  .done (.ok ()) (progress.report level text)

/-- Does something to the progress after an evaluation, however it ends. -/
def ending (evaluation : Evaluation α) (last : Progress → Progress) : Evaluation α :=
  fun progress => (evaluation progress).andThen fun result later => .done result (last later)

end Evaluation
end DiceNotation
