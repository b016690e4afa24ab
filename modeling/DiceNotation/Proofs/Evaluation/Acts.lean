import Mathlib.Logic.Relation
import DiceNotation.Evaluation.Run
import DiceNotation.Proofs.Evaluation.Rolling
import DiceNotation.Proofs.Evaluation.Touched
import DiceNotation.Proofs.Fulfillment.FirstPass

namespace DiceNotation

/-!
# Acts of an evaluation

An evaluation is a row of acts.  Each act changes one thing: the phase of a term or of a
roll, the outcomes of one term, or what a resolver has outstanding.  Which act can come
next depends on what the evaluation is in the middle of, the innermost first.  That is all
that has to be remembered while it waits, so the acts say what an evaluation can do
whatever others do in between.
-/

/-- Something that an evaluation is in the middle of. -/
inductive Pending where
  /-- A term that is being evaluated. -/
  | term (term : Term)
  /-- A roll that is being evaluated. -/
  | roll (roll : Roll)
  /-- Dice with known amounts that are rolled until there are enough of them, and how
  often they may still be rolled. -/
  | dice (dice : Dice) (number faces left : Nat)
  /-- Dice of which there are enough, whose modifiers are carried out. -/
  | modified (dice : Dice) (number faces : Nat)
  /-- A modifier of a term, with the outcomes that the term had before. -/
  | modifier (term : Term) (outcomes : List Outcome)
  /-- One die that is rolled. -/
  | result (dice : Dice)
  /-- Dice of which one is rolled by itself, and not in an evaluation. -/
  | single (dice : Dice)
  /-- An answer that is waited for. -/
  | request (request : Request)

/-- A moment of an evaluation: what it is in the middle of, and how far things have come. -/
structure Moment where
  stack : List Pending
  progress : Progress

/-- Whether something pending waits for an answer. -/
def Pending.isRequest : Pending → Bool
  | request _ => true
  | _ => false

/-- Whether a term can have modifiers carried out while something is pending. -/
inductive Pending.Modifies : Pending → Term → Prop
  | dice {dice : Dice} (number faces : Nat) (some : dice.modifiers ≠ []) :
    Modifies (.modified dice number faces) (.dice dice)
  | pool (pool : Pool) : Modifies (.term (.pool pool)) (.pool pool)

/-- In which contexts which terms and rolls are evaluated, which resolvers ask for dice in
advance, and which dice are also rolled by themselves. -/
structure Scope where
  context : Context → Prop
  term : Term → Prop
  roll : Roll → Prop
  resolver : Resolver → Prop
  single : Dice → Prop

/-- Where the results of dice come from. -/
inductive Scope.Gives (scope : Scope) (ledger : Ledger) (dice : Dice) : Json → Prop
  | lowest : Gives scope ledger dice (.ofInt dice.kind.minimum)
  | highest {value : Json} (greatest : ledger.maximumValue dice = .ok value) :
    Gives scope ledger dice value
  | uniform {context : Context} {value : Json} (allowed : scope.context context) (k : Nat)
    (picked : ledger.mapUniform dice (.number (.real (context.uniform k))) = .ok value) :
    Gives scope ledger dice value
  | accepted {value : Json} (can : ledger.accepts dice value = .ok true) :
    Gives scope ledger dice value

section

variable (scope : Scope)

/-- One act of an evaluation. -/
inductive Act : Moment → Moment → Prop
  /-- Messages, calls and uniform values. -/
  | aside {stack : List Pending} {progress later : Progress} (only : progress.Aside later)
    (told : progress.journal <:+ later.journal) : Act ⟨stack, progress⟩ ⟨stack, later⟩
  | enter {stack : List Pending} {term : Term} {progress : Progress} (known : scope.term term)
    (untouched : (progress.ledger.term term.id).phase = .unevaluated) :
    Act ⟨stack, progress⟩ ⟨.term term :: stack, progress.entering term .evaluating⟩
  | leave {stack : List Pending} {term : Term} (other : term.dice? = none) (progress : Progress) :
    Act ⟨.term term :: stack, progress⟩ ⟨stack, progress.entering term .evaluated⟩
  | start {stack : List Pending} {roll : Roll} {progress : Progress} (known : scope.roll roll)
    (untouched : (progress.ledger.roll roll.id).phase = .unevaluated) :
    Act ⟨stack, progress⟩ ⟨.roll roll :: stack, progress.starting roll⟩
  | finish {stack : List Pending} {roll : Roll} {progress : Progress} {total : Json}
    (sum : progress.ledger.totalOfTerms roll.terms = .ok total) :
    Act ⟨.roll roll :: stack, progress⟩ ⟨stack, progress.finishing roll total⟩
  /-- The amounts of dice are known. -/
  | count {stack : List Pending} {dice : Dice} {progress : Progress} {number faces : Nat}
    (numbered : progress.ledger.amount dice.number = .ok (.ofInt number))
    (sided : progress.ledger.amount dice.faces = .ok (.ofInt faces)) (some : 1 ≤ faces) :
    Act ⟨.term (.dice dice) :: stack, progress⟩
      ⟨.dice dice number faces number :: stack, progress⟩
  /-- There are enough dice, or each of them was rolled. -/
  | fill {stack : List Pending} {dice : Dice} {number faces left : Nat} {progress : Progress}
    (enough : number ≤ (progress.ledger.outcomes dice.tag.id).length ∨ left = 0) :
    Act ⟨.dice dice number faces left :: stack, progress⟩
      ⟨.modified dice number faces :: stack, progress⟩
  | leaveDice {stack : List Pending} {dice : Dice} {number faces : Nat} (progress : Progress) :
    Act ⟨.modified dice number faces :: stack, progress⟩
      ⟨stack, progress.entering (.dice dice) .evaluated⟩
  /-- There are not enough dice yet. -/
  | lack {stack : List Pending} {dice : Dice} {number faces left : Nat} {progress : Progress}
    (short : (progress.ledger.outcomes dice.tag.id).length < number) :
    Act ⟨.dice dice number faces (left + 1) :: stack, progress⟩
      ⟨.result dice :: .dice dice number faces (left + 1) :: stack, progress⟩
  /-- A modifier rolls once more. -/
  | again {stack : List Pending} {dice : Dice} {number faces : Nat} {outcomes : List Outcome}
    (progress : Progress) :
    Act ⟨.modifier (.dice dice) outcomes :: .modified dice number faces :: stack, progress⟩
      ⟨.result dice :: .modifier (.dice dice) outcomes :: .modified dice number faces :: stack,
        progress⟩
  /-- Dice are rolled by themselves. -/
  | once {stack : List Pending} {dice : Dice} {progress : Progress}
    (unfinished : progress.ledger.isEvaluated (.dice dice) = false) :
    Act ⟨.single dice :: stack, progress⟩ ⟨.result dice :: .single dice :: stack, progress⟩
  /-- The outside is asked for a die. -/
  | ask {stack : List Pending} {dice : Dice} {resolver : Resolver} {progress : Progress}
    (isOpen : (progress.resolver resolver).closed = false) (method : Json)
    (reroll explode : Bool) :
    Act ⟨.result dice :: stack, progress⟩
      ⟨.request progress.requests :: .result dice :: stack,
        (resolver.add dice method true reroll explode progress).2⟩
  /-- A die has its value. -/
  | take {stack : List Pending} {dice : Dice} {progress : Progress} {value : Json}
    (gives : scope.Gives progress.ledger dice value) :
    Act ⟨.result dice :: stack, progress⟩
      ⟨stack, progress.updateLedger fun ledger => Resolver.addOutcome ledger dice value⟩
  /-- One of the dice that are not enough yet has its value. -/
  | takeMissing {stack : List Pending} {dice : Dice} {number faces left : Nat}
    {progress : Progress} {value : Json} (gives : scope.Gives progress.ledger dice value) :
    Act ⟨.result dice :: .dice dice number faces (left + 1) :: stack, progress⟩
      ⟨.dice dice number faces left :: stack,
        progress.updateLedger fun ledger => Resolver.addOutcome ledger dice value⟩
  | begin {stack : List Pending} {pending : Pending} {term : Term}
    (modifies : pending.Modifies term) (progress : Progress) :
    Act ⟨pending :: stack, progress⟩
      ⟨.modifier term (progress.ledger.term term.id).outcomes :: pending :: stack, progress⟩
  /-- A chain goes on from an outcome that still counts. -/
  | mark {stack : List Pending} {dice : Dice} {outcomes : List Outcome} {progress : Progress}
    (chain : Context.Chain) {position : Nat} {outcome : Outcome}
    (found : (progress.ledger.outcomes dice.tag.id)[position]? = some outcome)
    (active : outcome.isActive = true) :
    Act ⟨.modifier (.dice dice) outcomes :: stack, progress⟩
      ⟨.modifier (.dice dice) outcomes :: stack,
        progress.updateLedger fun ledger => ledger.updateTerm dice.tag.id fun state =>
          { state with outcomes := state.outcomes.modify position chain.mark }⟩
  | tally {stack : List Pending} {term : Term} {outcomes : List Outcome} (progress : Progress)
    (action : Action) (command : Command) :
    Act ⟨.modifier term outcomes :: stack, progress⟩
      ⟨.modifier term outcomes :: stack, progress.tallying term action command⟩
  | done {stack : List Pending} {term : Term} {outcomes : List Outcome} (progress : Progress) :
    Act ⟨.modifier term outcomes :: stack, progress⟩ ⟨stack, progress⟩
  /-- A modifier that failed is skipped, whatever it was in the middle of. -/
  | undo {upper stack : List Pending} {term : Term} {outcomes : List Outcome}
    {context : Context} (allowed : scope.context context) (lenient : context.lenient = true)
    (idle : ∀ pending ∈ upper, pending.isRequest = false)
    (progress : Progress) (raw : Json) (message : String) :
    Act ⟨upper ++ .modifier term outcomes :: stack, progress⟩
      ⟨stack, progress.undoing term outcomes raw message⟩
  /-- The total of a roll is a result of a pool. -/
  | collect {stack : List Pending} {pool : Pool} (progress : Progress) (total : Json) :
    Act ⟨.term (.pool pool) :: stack, progress⟩
      ⟨.term (.pool pool) :: stack, progress.updateLedger fun ledger =>
        ledger.updateTerm pool.tag.id fun state =>
          { state with outcomes := state.outcomes ++ [{ value := total }] }⟩
  /-- A resolver asks for dice in advance. -/
  | book {stack : List Pending} {resolver : Resolver} {dice : Dice} {progress later : Progress}
    {requests : List Request} (known : scope.resolver resolver) (member : dice ∈ resolver.roll.dice)
    (ready : dice.isReady = true)
    (unfinished : progress.ledger.isEvaluated (.dice dice) = false)
    (asked : resolver.addTerm dice progress = .ok (requests, later)) :
    Act ⟨stack, progress⟩ ⟨stack, later⟩
  | release {stack : List Pending} {resolver : Resolver} (known : scope.resolver resolver)
    (progress : Progress) : Act ⟨stack, progress⟩ ⟨stack, (resolver.checkDone progress).2⟩
  | expect {stack : List Pending} {resolver : Resolver} {progress : Progress}
    (known : scope.resolver resolver) (filled : (progress.resolver resolver).outstanding ≠ []) :
    Act ⟨stack, progress⟩ ⟨.request progress.requests :: stack, resolver.expecting progress⟩
  | close {stack : List Pending} {resolver : Resolver} (known : scope.resolver resolver)
    (progress : Progress) : Act ⟨stack, progress⟩ ⟨stack, resolver.close progress⟩

/-- What acts in a row lead to. -/
abbrev Leads : Moment → Moment → Prop := Relation.ReflTransGen (Act scope)

variable {α β : Type}

/-- A run is a row of acts, up to where it waits, and again from there on.  How it ends
is told by a condition on its result and on the moment then. -/
def Step.Acts (ends : Except Fault α → Moment → Prop) : Step α → Moment → Prop
  | .done result last, start =>
    ∃ stack, Leads scope start ⟨stack, last⟩ ∧ ends result ⟨stack, last⟩
  | .wait request asked resume, start =>
    ∃ stack, Leads scope start ⟨.request request :: stack, asked⟩ ∧
      ∀ answer later, (resume answer later).Acts ends ⟨stack, later⟩

/-- An evaluation acts, wherever it starts, while certain things are pending. -/
def Evaluation.Acts (stack : List Pending) (ends : Except Fault α → Moment → Prop)
    (evaluation : Evaluation α) : Prop :=
  ∀ progress, (evaluation progress).Acts scope ends ⟨stack, progress⟩

end

/-- More is pending than before, but nothing is waited for. -/
def Above (base stack : List Pending) : Prop :=
  ∃ upper, (∀ pending ∈ upper, pending.isRequest = false) ∧ upper ++ base = stack

namespace Above

variable {base between stack : List Pending}

theorem refl (stack : List Pending) : Above stack stack :=
  ⟨[], fun _ member => (List.not_mem_nil member).elim, rfl⟩

theorem push {pending : Pending} (idle : pending.isRequest = false) (stack : List Pending) :
    Above stack (pending :: stack) :=
  ⟨[pending], fun _ member => List.mem_singleton.1 member ▸ idle, rfl⟩

theorem trans (above : Above base between) (further : Above between stack) :
    Above base stack := by
  rcases above with ⟨upper, idle, rfl⟩
  rcases further with ⟨more, idleToo, rfl⟩
  exact ⟨more ++ upper, List.forall_mem_append.2 ⟨idleToo, idle⟩, List.append_assoc ..⟩

end Above

/-- What is pending at the end, and what is known of the value then.  After a fault it is
only known what is pending at least. -/
def Ends {α : Type} (base stack : List Pending) (holds : α → Progress → Prop) :
    Except Fault α → Moment → Prop
  | .ok a, moment => moment.stack = stack ∧ holds a moment.progress
  | .error _, moment => Above base moment.stack

/-- The same is pending at the end as before, and the value is known to have a property. -/
abbrev EndsWith {α : Type} (stack : List Pending) (holds : α → Progress → Prop) :
    Except Fault α → Moment → Prop := Ends stack stack holds

/-- The same is pending at the end as before. -/
abbrev Stays {α : Type} (stack : List Pending) : Except Fault α → Moment → Prop :=
  EndsWith stack fun _ _ => True

variable {scope : Scope} {α β : Type}
  {stack : List Pending} {start later : Moment}

namespace Step

theorem Acts.from {ends : Except Fault α → Moment → Prop} {step : Step α}
    (acts : step.Acts scope ends later) (before : Leads scope start later) :
    step.Acts scope ends start := by
  cases step with
  | done result last =>
    rcases acts with ⟨stack, leads, ended⟩
    exact ⟨stack, before.trans leads, ended⟩
  | wait request asked resume =>
    rcases acts with ⟨stack, leads, resumes⟩
    exact ⟨stack, before.trans leads, resumes⟩

theorem Acts.imp {ends weaker : Except Fault α → Moment → Prop} {step : Step α}
    (acts : step.Acts scope ends start)
    (follows : ∀ result moment, ends result moment → weaker result moment) :
    step.Acts scope weaker start := by
  induction step generalizing start with
  | done result last =>
    rcases acts with ⟨stack, leads, ended⟩
    exact ⟨stack, leads, follows _ _ ended⟩
  | wait request asked resume ih =>
    rcases acts with ⟨stack, leads, resumes⟩
    exact ⟨stack, leads, fun answer later => ih answer later (resumes answer later)⟩

theorem Acts.andThen {mid : Except Fault α → Moment → Prop} {ends : Except Fault β → Moment → Prop}
    {step : Step α} {next : Except Fault α → Progress → Step β}
    (acts : step.Acts scope mid start)
    (more : ∀ result moment, mid result moment →
      (next result moment.progress).Acts scope ends moment) :
    (step.andThen next).Acts scope ends start := by
  induction step generalizing start with
  | done result last =>
    rcases acts with ⟨stack, leads, ended⟩
    exact (more result _ ended).from leads
  | wait request asked resume ih =>
    rcases acts with ⟨stack, leads, resumes⟩
    exact ⟨stack, leads, fun answer later => ih answer later (resumes answer later)⟩

theorem acts_done {ends : Except Fault α → Moment → Prop} {result : Except Fault α}
    {progress : Progress} (ended : ends result ⟨stack, progress⟩) :
    (Step.done result progress).Acts scope ends ⟨stack, progress⟩ :=
  ⟨stack, .refl, ended⟩

end Step

namespace Evaluation

theorem Acts.imp {ends weaker : Except Fault α → Moment → Prop} {evaluation : Evaluation α}
    (acts : evaluation.Acts scope stack ends)
    (follows : ∀ result moment, ends result moment → weaker result moment) :
    evaluation.Acts scope stack weaker :=
  fun progress => (acts progress).imp follows

/-- Less may be known of the value at the end. -/
theorem Acts.weaken {base last : List Pending} {holds weaker : α → Progress → Prop}
    {evaluation : Evaluation α} (acts : evaluation.Acts scope stack (Ends base last holds))
    (follows : ∀ a later, holds a later → weaker a later) :
    evaluation.Acts scope stack (Ends base last weaker) :=
  acts.imp fun result moment ended => by
    cases result with
    | error fault => exact ended
    | ok a => exact ⟨ended.1, follows a _ ended.2⟩

/-- What follows an evaluation acts, whatever value it goes on with. -/
theorem Acts.bind_from {base between : List Pending} {holds : α → Progress → Prop}
    {last : Except Fault β → Moment → Prop} {first : Evaluation α} {next : α → Evaluation β}
    {progress : Progress}
    (acts : (first progress).Acts scope (Ends base between holds) start)
    (more : ∀ a later, holds a later → (next a later).Acts scope last ⟨between, later⟩)
    (fails : ∀ fault moment, Above base moment.stack → last (.error fault) moment) :
    ((first >>= next) progress).Acts scope last start := by
  refine Step.Acts.andThen acts fun result moment ended => ?_
  cases result with
  | error fault => exact Step.acts_done (fails fault moment ended)
  | ok a =>
    rcases moment with ⟨_, later⟩
    rcases ended with ⟨rfl, known⟩
    exact more a later known

/-- The same if at least as much is pending after a fault as at the end. -/
theorem Acts.bind_ends {low base between final : List Pending} {holds : α → Progress → Prop}
    {last : β → Progress → Prop} {first : Evaluation α} {next : α → Evaluation β}
    {progress : Progress}
    (acts : (first progress).Acts scope (Ends base between holds) start)
    (within : Above low base)
    (more : ∀ a later, holds a later →
      (next a later).Acts scope (Ends low final last) ⟨between, later⟩) :
    ((first >>= next) progress).Acts scope (Ends low final last) start :=
  Acts.bind_from acts more fun _ _ above => within.trans above

theorem Acts.bind {holds : α → Progress → Prop} {last : β → Progress → Prop}
    {first : Evaluation α} {next : α → Evaluation β}
    (acts : first.Acts scope stack (EndsWith stack holds))
    (more : ∀ a later, holds a later →
      (next a later).Acts scope (EndsWith stack last) ⟨stack, later⟩) :
    (first >>= next).Acts scope stack (EndsWith stack last) :=
  fun progress => Acts.bind_ends (acts progress) (.refl stack) more

/-- What comes second acts wherever the first ends. -/
theorem Acts.andThen {holds : α → Progress → Prop} {last : β → Progress → Prop}
    {first : Evaluation α} {next : α → Evaluation β}
    (acts : first.Acts scope stack (EndsWith stack holds))
    (more : ∀ a, (next a).Acts scope stack (EndsWith stack last)) :
    (first >>= next).Acts scope stack (EndsWith stack last) :=
  acts.bind fun a later _ => more a later

theorem acts_pure {holds : α → Progress → Prop} {a : α} (known : ∀ progress, holds a progress) :
    (pure a : Evaluation α).Acts scope stack (EndsWith stack holds) :=
  fun progress => Step.acts_done ⟨rfl, known progress⟩

theorem acts_fail (fault : Fault) {holds : α → Progress → Prop} :
    (fail fault : Evaluation α).Acts scope stack (EndsWith stack holds) :=
  fun _ => Step.acts_done (.refl stack)

theorem acts_lift (result : Except Fault α) :
    (lift result).Acts scope stack (EndsWith stack fun a _ => result = .ok a) := by
  intro progress
  cases result with
  | error fault => exact Step.acts_done (.refl stack)
  | ok a => exact Step.acts_done ⟨rfl, rfl⟩

theorem acts_read (f : Ledger → Except Fault α) :
    (read f).Acts scope stack (EndsWith stack fun a progress => f progress.ledger = .ok a) := by
  intro progress
  change (Step.done (f progress.ledger) progress).Acts _ _ _
  cases found : f progress.ledger with
  | error fault => exact Step.acts_done (.refl stack)
  | ok a => exact Step.acts_done ⟨rfl, found⟩

theorem acts_report (level : Level) (text : String) :
    (report level text).Acts scope stack (Stays stack) :=
  fun _ => ⟨stack, .single (.aside ⟨rfl, rfl, rfl, rfl, rfl⟩ (List.suffix_cons _ _)), rfl, trivial⟩

theorem Acts.ite {p : Prop} [Decidable p] {ends : Except Fault α → Moment → Prop}
    {yes no : Evaluation α} (first : yes.Acts scope stack ends)
    (second : no.Acts scope stack ends) :
    (if p then yes else no).Acts scope stack ends := by
  split
  · exact first
  · exact second

end Evaluation
end DiceNotation
