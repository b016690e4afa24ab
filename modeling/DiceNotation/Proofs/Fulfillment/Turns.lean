import Mathlib.Data.List.Forall2
import DiceNotation.Proofs.Fulfillment.Boards
import DiceNotation.Proofs.Fulfillment.Schedules

namespace DiceNotation

/-!
# Turns of a schedule

In one turn a task is started, or goes on because its request was answered, or something
happens for which no task waits.  Every turn is a row of moves on a board that shows what
the tasks are in the middle of.  So what all moves keep, schedules keep as well.
-/

namespace Schedule

/-- Starts the evaluation of a roll in the way that its surroundings allow. -/
def attempt (schedule : Schedule) (options : Options) (surroundings : Surroundings) (roll : Roll) :
    Schedule :=
  schedule.start .evaluation do
    roll.attempt options surroundings
    .read fun ledger => .ok (ledger.rollTotal roll)

/-- Starts the evaluation of a single term. -/
def evaluateTerm (schedule : Schedule) (options : Options) (surroundings : Surroundings)
    (term : Term) : Schedule :=
  schedule.start .evaluation do
    term.evaluate options surroundings
    return .null

/-- Starts to roll dice once, by themselves. -/
def rollOnce (schedule : Schedule) (context : Context) (dice : Dice) (reroll explode : Bool) :
    Schedule :=
  schedule.start .evaluation do
    let outcome ← context.rollOne dice reroll explode
    return outcome.value

/-- What can happen next to a schedule: the evaluation of a roll, of a term or of a single
die is started, a resolver is told to ask for dice, a value is handed in, a resolver is
closed, or a task goes on whose request was answered. -/
inductive Turn (scope : Scope) : Schedule → Schedule → Prop
  | attempt {options : Options} {surroundings : Surroundings} {roll : Roll}
    (allowed : ∀ context, options.forRoll surroundings = .ok context → scope.context context)
    (known : scope.roll roll) (row : RowThroughout scope.term scope.roll roll.terms)
    (asks : ∀ resolver, surroundings.resolver = some resolver → scope.resolver resolver)
    (schedule : Schedule) : Turn scope schedule (schedule.attempt options surroundings roll)
  | evaluateTerm {options : Options} {surroundings : Surroundings} {term : Term}
    (allowed : ∀ context, options.forTerm surroundings = .ok context → scope.context context)
    (parts : term.Throughout scope.term scope.roll) (schedule : Schedule) :
    Turn scope schedule (schedule.evaluateTerm options surroundings term)
  | rollOnce {context : Context} (allowed : scope.context context) {dice : Dice}
    (known : scope.term (.dice dice)) (may : scope.single dice) (reroll explode : Bool)
    (schedule : Schedule) : Turn scope schedule (schedule.rollOnce context dice reroll explode)
  | firstPass {resolver : Resolver} (known : scope.resolver resolver) (methods : MethodTable)
    (schedule : Schedule) : Turn scope schedule (schedule.firstPass resolver methods)
  | resolve {resolver : Resolver} (known : scope.resolver resolver) (dice : Dice) (method : Json)
    (reroll explode : Bool) (schedule : Schedule) :
    Turn scope schedule (schedule.resolve resolver dice method reroll explode)
  | addTerm {schedule later : Schedule} {resolver : Resolver} {dice : Dice}
    (known : scope.resolver resolver) (member : dice ∈ resolver.roll.dice)
    (asked : schedule.addTerm resolver dice = .ok later) : Turn scope schedule later
  | register {schedule : Schedule} {later : Progress} {resolver : Resolver}
    {method denomination value : Json} {accepted : Bool} (known : scope.resolver resolver)
    (handed : resolver.register method denomination value schedule.progress =
      .ok (accepted, later)) : Turn scope schedule { schedule with progress := later }
  | close {resolver : Resolver} (known : scope.resolver resolver) (schedule : Schedule) :
    Turn scope schedule { schedule with progress := resolver.close schedule.progress }
  | wake {schedule : Schedule} {request : Request} {answer : Answer}
    (answered : schedule.progress.answer? request = some answer) :
    Turn scope schedule ⟨(wakeFirst request answer schedule.progress schedule.tasks).1,
      (wakeFirst request answer schedule.progress schedule.tasks).2⟩

/-- What a schedule can come to. -/
abbrev Turns (scope : Scope) : Schedule → Schedule → Prop :=
  Relation.ReflTransGen (Turn scope)

section

variable {scope : Scope}

/-- To evaluate a roll with a resolver is one attempt to evaluate it. -/
theorem Turn.evaluate {options : Options} {surroundings : Surroundings} {roll : Roll}
    (waits : surroundings.synchronous = false)
    (allowed : ∀ context, options.forRoll surroundings = .ok context → scope.context context)
    (known : scope.roll roll) (row : RowThroughout scope.term scope.roll roll.terms)
    (asks : ∀ resolver, surroundings.resolver = some resolver → scope.resolver resolver)
    (schedule : Schedule) : Turn scope schedule (schedule.evaluate options surroundings roll) := by
  have same : roll.attempt options surroundings = roll.evaluate options surroundings := by
    unfold RollOf.attempt
    rw [waits, if_neg Bool.false_ne_true]
  have turn := Turn.attempt allowed known row asks schedule
  unfold Schedule.attempt at turn
  rw [same] at turn
  exact turn

/-- Whoever can go on goes on. -/
theorem Turns.settle (schedule : Schedule) : Turns scope schedule schedule.settle := by
  unfold Schedule.settle
  generalize 2 * schedule.tasks.length = wakings
  induction wakings generalizing schedule with
  | zero => exact .refl
  | succ wakings ih =>
    unfold settleWithin
    split
    · exact .refl
    · rename_i request answer ready
      unfold ready? at ready
      rcases Option.bind_eq_some_iff.1 ready with ⟨first, _, chosen⟩
      rcases Option.bind_eq_some_iff.1 chosen with ⟨given, answered, same⟩
      cases same
      exact (ih _).head (.wake answered)

/-- Hands in a value, after which whoever can go on goes on. -/
def handIn (schedule : Schedule) (resolver : Resolver) (method denomination value : Json) :
    Except Fault Schedule :=
  (resolver.register method denomination value schedule.progress).map fun (_, later) =>
    ({ schedule with progress := later } : Schedule).settle

theorem Turns.handIn {schedule later : Schedule} {resolver : Resolver}
    {method denomination value : Json} (known : scope.resolver resolver)
    (handed : schedule.handIn resolver method denomination value = .ok later) :
    Turns scope schedule later := by
  unfold Schedule.handIn at handed
  cases registered : resolver.register method denomination value schedule.progress with
  | error fault =>
    rw [registered] at handed
    cases handed
  | ok pair =>
    rw [registered] at handed
    cases handed
    exact (Turns.settle _).head (.register known registered)

end

end Schedule

/-! ## Boards of schedules -/

/-- A run that waits goes on with the rest. -/
theorem Evaluation.bind_wait {α β : Type} {first : Evaluation α} {progress asked : Progress}
    {request : Request} {resume : Answer → Progress → Step α} (next : α → Evaluation β)
    (waits : first progress = .wait request asked resume) :
    (first >>= next) progress = .wait request asked fun answer later =>
      ((fun _ => resume answer later : Evaluation α) >>= next) later := by
  change (first progress).andThen _ = _
  rw [waits]
  rfl

/-- What a resolver gives whose request was answered. -/
def Resolver.given : Answer → Except Fault Number
  | .delivered value => .ok value
  | _ => .error .cancelled

theorem Resolver.resolve_of_open {resolver : Resolver} {progress : Progress}
    (isOpen : (progress.resolver resolver).closed = false) (dice : Dice) (method : Json)
    (reroll explode : Bool) :
    resolver.resolve dice method reroll explode progress =
      .wait progress.requests (resolver.add dice method true reroll explode progress).2
        fun answer later => .done (given answer) later := by
  unfold Resolver.resolve
  rw [isOpen, if_neg Bool.false_ne_true]
  refine congrArg (Step.wait _ _) ?_
  funext answer later
  cases answer <;> rfl

section

variable {scope : Scope}

/-- Whether a stack says what a task is in the middle of. -/
def Task.Stands (scope : Scope) (task : Task) (stack : List Pending) : Prop :=
  match task.status with
  | .waiting request resume => ∃ rest, stack = .request request :: rest ∧
      ∀ answer later, (resume answer later).Acts scope (fun _ _ => True) ⟨rest, later⟩
  | _ => stack = []

/-- Whether a board says what the tasks of a schedule are in the middle of. -/
structure Schedule.On (scope : Scope) (schedule : Schedule) (board : Board) : Prop where
  progress : board.progress = schedule.progress
  tasks : List.Forall₂ (Task.Stands scope) schedule.tasks board.lanes

namespace Board

theorem Moves.of_leads {moment last : Moment} (leads : Leads scope moment last)
    (front back : List (List Pending)) :
    Moves scope ⟨front ++ moment.stack :: back, moment.progress⟩
      ⟨front ++ last.stack :: back, last.progress⟩ := by
  induction leads with
  | refl => exact .refl
  | tail _ act ih => exact ih.tail (.act act)

/-- A step of a task is a row of moves after which the task stands somewhere. -/
theorem Moves.of_step {stack : List Pending} {progress : Progress} {step : Step Json}
    (acts : step.Acts scope (fun _ _ => True) ⟨stack, progress⟩) (kind : TaskKind)
    (front back : List (List Pending)) :
    ∃ later, Moves scope ⟨front ++ stack :: back, progress⟩
        ⟨front ++ later :: back, (Task.ofStep kind step).2⟩ ∧
      (Task.ofStep kind step).1.Stands scope later := by
  cases step with
  | done result last =>
    rcases acts with ⟨reached, leads, _⟩
    exact ⟨[], (Moves.of_leads leads front back).tail (.drop front back reached last), rfl⟩
  | wait request asked resume =>
    rcases acts with ⟨rest, leads, resumes⟩
    exact ⟨_, Moves.of_leads leads front back, rest, rfl, resumes⟩

end Board

namespace Schedule

variable {schedule : Schedule} {board : Board}

/-- A task may be started with something on its stack. -/
theorem On.start (on : schedule.On scope board) (kind : TaskKind) {evaluation : Evaluation Json}
    {stack : List Pending}
    (begins : ∀ progress, Board.Moves scope ⟨board.lanes, progress⟩
      ⟨board.lanes ++ [stack], progress⟩)
    (acts : evaluation.Acts scope stack fun _ _ => True) :
    ∃ later, Board.Moves scope board later ∧ (schedule.start kind evaluation).On scope later := by
  rcases board with ⟨lanes, progress⟩
  obtain rfl : progress = schedule.progress := on.progress
  let start : Progress := { schedule.progress with draws := 0 }
  have resets : Board.Moves scope ⟨lanes, schedule.progress⟩ ⟨lanes, start⟩ :=
    .single (.aside ⟨rfl, rfl, rfl, rfl, rfl⟩ (List.suffix_refl _))
  rcases Board.Moves.of_step (acts start) kind lanes [] with ⟨later, moves, stands⟩
  exact ⟨⟨lanes ++ [later], _⟩, resets.trans ((begins start).trans moves), rfl,
    List.rel_append on.tasks (.cons stands .nil)⟩

/-- Nothing need be pending when a task is started. -/
theorem On.start_empty (on : schedule.On scope board) (kind : TaskKind)
    {evaluation : Evaluation Json} (acts : evaluation.Acts scope [] fun _ _ => True) :
    ∃ later, Board.Moves scope board later ∧ (schedule.start kind evaluation).On scope later :=
  on.start kind (fun progress => .single (.begin board.lanes progress)) acts

/-- What happens while no task goes on. -/
theorem On.beside (on : schedule.On scope board) {later : Progress}
    (move : Board.Move scope ⟨board.lanes, schedule.progress⟩ ⟨board.lanes, later⟩) :
    ∃ last, Board.Moves scope board last ∧
      ({ schedule with progress := later } : Schedule).On scope last := by
  rcases board with ⟨lanes, progress⟩
  obtain rfl : progress = schedule.progress := on.progress
  exact ⟨⟨lanes, later⟩, .single move, rfl, on.tasks⟩

/-- What stands for a list stands part by part for its parts. -/
theorem forall₂_middle {α β : Type} {stands : α → β → Prop} {front back : List α} {a : α}
    {all : List β} (each : List.Forall₂ stands (front ++ a :: back) all) :
    ∃ first b rest, all = first ++ b :: rest ∧ List.Forall₂ stands front first ∧ stands a b ∧
      List.Forall₂ stands back rest := by
  induction front generalizing all with
  | nil =>
    rcases List.forall₂_cons_left_iff.1 each with ⟨b, rest, here, later, rfl⟩
    exact ⟨[], b, rest, rfl, .nil, here, later⟩
  | cons head front ih =>
    rcases List.forall₂_cons_left_iff.1 each with ⟨one, others, here, later, rfl⟩
    rcases ih later with ⟨first, b, rest, rfl, before, at_, behind⟩
    exact ⟨one :: first, b, rest, rfl, .cons here before, at_, behind⟩

theorem On.wake (on : schedule.On scope board) {request : Request} {answer : Answer}
    (answered : schedule.progress.answer? request = some answer) :
    ∃ later, Board.Moves scope board later ∧
      (⟨(wakeFirst request answer schedule.progress schedule.tasks).1,
        (wakeFirst request answer schedule.progress schedule.tasks).2⟩ : Schedule).On scope
          later := by
  rcases schedule with ⟨tasks, progress⟩
  rcases board with ⟨lanes, reached⟩
  obtain rfl : reached = progress := on.progress
  rcases wakeFirst_cases request answer reached tasks with
    same | ⟨front, task, back, resume, rfl, waits, woken⟩
  · rw [same]
    exact ⟨_, .refl, on⟩
  · rw [woken]
    rcases forall₂_middle on.tasks with ⟨first, stack, rest, rfl, before, stands, behind⟩
    unfold Task.Stands at stands
    rw [waits] at stands
    rcases stands with ⟨below, rfl, resumes⟩
    let between : Progress := { reached with draws := task.draws }
    have goes : Board.Moves scope ⟨first ++ (.request request :: below) :: rest, reached⟩
        ⟨first ++ below :: rest, between⟩ :=
      .tail (.single (.resume answered first rest below)) (.aside ⟨rfl, rfl, rfl, rfl, rfl⟩ (List.suffix_refl _))
    rcases Board.Moves.of_step (resumes answer between) task.kind first rest with
      ⟨later, moves, stands⟩
    exact ⟨_, goes.trans moves, rfl, List.rel_append before (.cons stands behind)⟩

/-- One more value of dice is waited for, or the resolver is closed and the task fails. -/
theorem On.resolve (on : schedule.On scope board) {resolver : Resolver}
    (known : scope.resolver resolver) (dice : Dice) (method : Json) (reroll explode : Bool) :
    ∃ later, Board.Moves scope board later ∧
      (schedule.resolve resolver dice method reroll explode).On scope later := by
  rcases board with ⟨lanes, progress⟩
  obtain rfl : progress = schedule.progress := on.progress
  let start : Progress := { schedule.progress with draws := 0 }
  have resets : Board.Moves scope ⟨lanes, schedule.progress⟩ ⟨lanes, start⟩ :=
    .single (.aside ⟨rfl, rfl, rfl, rfl, rfl⟩ (List.suffix_refl _))
  cases state : (start.resolver resolver).closed with
  | true =>
    have failed : resolver.resolve dice method reroll explode start =
        .done (.error .cancelled) start := if_pos state
    have last : schedule.resolve resolver dice method reroll explode =
        ⟨schedule.tasks ++ [⟨.resolution, 0, .finished (.error .cancelled)⟩], start⟩ := by
      unfold Schedule.resolve Schedule.start
      simp only
      rw [Evaluation.bind_failed failed]
      rfl
    rw [last]
    exact ⟨⟨lanes ++ [[]], start⟩, resets.tail (.begin lanes start), rfl,
      List.rel_append on.tasks (.cons rfl .nil)⟩
  | false =>
    have step := Evaluation.bind_wait (fun value => pure (Json.number value))
      (resolver.resolve_of_open state dice method reroll explode)
    refine ⟨_, resets.tail (.resolve known state dice method reroll explode lanes), ?_, ?_⟩
    · change _ = (Task.ofStep .resolution ((resolver.resolve dice method reroll explode >>=
        fun value => pure (Json.number value)) start)).2
      rw [step]
      rfl
    · refine List.rel_append on.tasks (.cons ?_ .nil)
      change Task.Stands scope (Task.ofStep .resolution
        ((resolver.resolve dice method reroll explode >>= fun value => pure (Json.number value))
          start)).1 _
      rw [step]
      refine ⟨[], rfl, fun answer later => ?_⟩
      cases answer <;> exact Step.acts_done trivial

theorem acts_weakest {α : Type} {stack : List Pending} {ends : Except Fault α → Moment → Prop}
    {evaluation : Evaluation α} (acts : evaluation.Acts scope stack ends) :
    evaluation.Acts scope stack fun _ _ => True :=
  acts.imp fun _ _ _ => trivial

/-- Every turn is a row of moves. -/
theorem Turn.moves {later : Schedule} (turn : Turn scope schedule later)
    (on : schedule.On scope board) :
    ∃ last, Board.Moves scope board last ∧ later.On scope last := by
  cases turn with
  | @attempt options surroundings roll allowed known row asks =>
    have acts : (roll.attempt options surroundings).Acts scope [] (Stays []) :=
      RollOf.acts_attempt allowed known row asks
    exact on.start_empty .evaluation (acts_weakest (acts.andThen fun _ => Evaluation.acts_read _))
  | @evaluateTerm options surroundings term allowed parts =>
    have acts : (term.evaluate options surroundings).Acts scope [] (Stays []) :=
      Term.acts_evaluate allowed parts
    have nothing : Evaluation.Acts scope [] (Stays []) (pure Json.null) :=
      Evaluation.acts_pure fun _ => trivial
    exact on.start_empty .evaluation (acts_weakest (acts.andThen fun _ => nothing))
  | @rollOnce context allowed dice known may reroll explode =>
    have acts : (context.rollOne dice reroll explode).Acts scope [.single dice]
        (Stays [.single dice]) := Context.acts_rollOnce allowed dice reroll explode
    have shown (outcome : Outcome) : Evaluation.Acts scope [.single dice] (Stays [.single dice])
        (pure outcome.value) := Evaluation.acts_pure fun _ => trivial
    exact on.start .evaluation (fun progress => .single (.single known may board.lanes progress))
      (acts_weakest (acts.andThen shown))
  | @firstPass resolver known methods =>
    have acts : (resolver.firstPass methods).Acts scope [] (Stays []) :=
      Evaluation.acts_firstPass known methods
    have nothing : Evaluation.Acts scope [] (Stays []) (pure Json.null) :=
      Evaluation.acts_pure fun _ => trivial
    exact on.start_empty .firstPass (acts_weakest (acts.andThen fun _ => nothing))
  | resolve known dice method reroll explode => exact on.resolve known dice method reroll explode
  | addTerm known member asked =>
    unfold Schedule.addTerm at asked
    split at asked
    · cases asked
    · rename_i requests later given
      cases asked
      rcases on.beside (.addTerm known member given board.lanes) with ⟨last, moves, there⟩
      refine ⟨_, moves.tail (.begin last.lanes last.progress), there.progress, ?_⟩
      exact List.rel_append there.tasks (.cons rfl .nil)
  | register known handed => exact on.beside (.register known handed _)
  | close known => exact on.beside (.close known _ _)
  | wake answered => exact on.wake answered

/-- Whatever a schedule comes to, a board has come to by moves. -/
theorem Turns.moves {later : Schedule} (turns : Turns scope schedule later)
    (on : schedule.On scope board) :
    ∃ last, Board.Moves scope board last ∧ later.On scope last := by
  induction turns with
  | refl => exact ⟨board, .refl, on⟩
  | tail _ turn ih =>
    rcases ih with ⟨between, moves, there⟩
    rcases turn.moves there with ⟨last, further, done⟩
    exact ⟨last, moves.trans further, done⟩

/-- Nothing is pending as long as no task was started. -/
theorem On.ofProgress (progress : Progress) :
    (Schedule.ofProgress progress).On scope ⟨[], progress⟩ := ⟨rfl, .nil⟩

end Schedule

end

end DiceNotation
