import DiceNotation.Evaluation.Run

namespace DiceNotation

/-!
# Several evaluations at once

While an evaluation waits for the outside, others go on.  Those that wait are
woken in the order in which their requests were answered.  Each counts the
uniform values that it takes for itself.
-/

/-- What a task is for. -/
inductive TaskKind where
  | evaluation
  | firstPass
  | addition
  | resolution
  deriving DecidableEq, Repr

/-- How a task stands. -/
inductive TaskStatus where
  /-- It waits for the answer to a request. -/
  | waiting (request : Request) (resume : Answer → Progress → Step Json)
  /-- It is done once all requests are answered. -/
  | gathering (requests : List Request)
  | finished (result : Except Fault Json)

/-- A task that was started. -/
structure Task where
  kind : TaskKind
  draws : Nat
  status : TaskStatus

/-- The tasks in the order in which they were started, and how far things have
come. -/
structure Schedule where
  tasks : List Task
  progress : Progress

namespace Task

/-- Whether a task waits for a request. -/
def awaits (request : Request) (task : Task) : Bool :=
  match task.status with
  | .waiting other _ => other == request
  | _ => false

/-- A task as it stands after a step, and the progress then. -/
def ofStep (kind : TaskKind) : Step Json → Task × Progress
  | .done result progress => (⟨kind, progress.draws, .finished result⟩, progress)
  | .wait request progress resume => (⟨kind, progress.draws, .waiting request resume⟩, progress)

/-- Goes on with an answer. -/
def wake (answer : Answer) (progress : Progress) (task : Task) : Task × Progress :=
  match task.status with
  | .waiting _ resume => ofStep task.kind (resume answer { progress with draws := task.draws })
  | _ => (task, progress)

/-- The result of a task, if there is one: for gathered requests their values,
or the fault that one of them was cancelled. -/
def result? (progress : Progress) (task : Task) : Option (Except Fault Json) :=
  match task.status with
  | .waiting _ _ => none
  | .finished result => some result
  | .gathering requests =>
    let answers := requests.map progress.answer?
    let isCancelled : Option Answer → Bool
      | some .cancelled => true
      | _ => false
    if answers.any isCancelled then some (.error .cancelled)
    else
      let value? : Option Answer → Option Json
        | some (.delivered value) => some (.number value)
        | _ => none
      (answers.mapM value?).map fun values => .ok (.array values)

end Task

namespace Schedule

/-- Nothing started yet. -/
def ofProgress (progress : Progress) : Schedule := ⟨[], progress⟩

/-- Starts an evaluation. -/
def start (schedule : Schedule) (kind : TaskKind) (evaluation : Evaluation Json) : Schedule :=
  let (task, later) := Task.ofStep kind (evaluation { schedule.progress with draws := 0 })
  ⟨schedule.tasks ++ [task], later⟩

/-- Starts to gather the answers to requests. -/
def gather (schedule : Schedule) (kind : TaskKind) (requests : List Request) : Schedule :=
  { schedule with tasks := schedule.tasks ++ [⟨kind, 0, .gathering requests⟩] }

/-- Wakes the first task that waits for a request. -/
def wakeFirst (request : Request) (answer : Answer) (progress : Progress) :
    List Task → List Task × Progress
  | [] => ([], progress)
  | task :: rest =>
    if task.awaits request then
      let (woken, later) := task.wake answer progress
      (woken :: rest, later)
    else
      let (others, later) := wakeFirst request answer progress rest
      (task :: others, later)

/-- The earliest answered request for which a task waits, with its answer. -/
def ready? (schedule : Schedule) : Option (Request × Answer) := do
  let request ← schedule.progress.answered.reverse.find? fun request =>
    schedule.tasks.any (Task.awaits request)
  return (request, ← schedule.progress.answer? request)

/-- Wakes tasks until none is ready, at most a number of times. -/
def settleWithin : Nat → Schedule → Schedule
  | 0, schedule => schedule
  | wakings + 1, schedule =>
    match schedule.ready? with
    | none => schedule
    | some (request, answer) =>
      let (tasks, later) := wakeFirst request answer schedule.progress schedule.tasks
      settleWithin wakings ⟨tasks, later⟩

/-- Wakes tasks until none is ready.  A task that was woken can be ready once
more only because its resolver was closed, and then it does not wait again. -/
def settle (schedule : Schedule) : Schedule :=
  settleWithin (2 * schedule.tasks.length) schedule

/-- Starts the evaluation of a roll with a resolver. -/
def evaluate (schedule : Schedule) (options : Options) (surroundings : Surroundings) (roll : Roll) :
    Schedule :=
  schedule.start .evaluation do
    roll.evaluate options surroundings
    .read fun ledger => .ok (ledger.rollTotal roll)

/-- Starts a first pass. -/
def firstPass (schedule : Schedule) (resolver : Resolver) (methods : MethodTable) : Schedule :=
  schedule.start .firstPass do
    resolver.firstPass methods
    return .null

/-- Starts to wait for one more value of dice. -/
def resolve (schedule : Schedule) (resolver : Resolver) (dice : Dice) (method : Json)
    (reroll explode : Bool) : Schedule :=
  schedule.start .resolution do
    return .number (← resolver.resolve dice method reroll explode)

/-- Asks for the missing dice of a term. -/
def addTerm (schedule : Schedule) (resolver : Resolver) (dice : Dice) : Except Fault Schedule :=
  match resolver.addTerm dice schedule.progress with
  | .error fault => .error fault
  | .ok (requests, later) => .ok (({ schedule with progress := later }).gather .addition requests)

/-- Hands in values one after another, without waking anyone in between. -/
def register (resolver : Resolver) :
    List (Json × Json × Json) → Progress → Except Fault (List Bool) × Progress
  | [], progress => (.ok [], progress)
  | (method, denomination, value) :: rest, progress =>
    match resolver.register method denomination value progress with
    | .error fault => (.error fault, progress)
    | .ok (accepted, later) =>
      let (others, last) := register resolver rest later
      (others.map (accepted :: ·), last)

end Schedule
end DiceNotation
