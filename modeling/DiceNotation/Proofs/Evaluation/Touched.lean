import DiceNotation.Fulfillment.Resolver
import DiceNotation.Proofs.Roll.Ledgers

namespace DiceNotation

/-!
# What an evaluation may touch

An evaluation changes what is known about the terms and rolls that it evaluates,
and nothing else.  It gives back no identity and never changes the method of a
die.  While it waits, others may change the ledger too.  As long as they keep to
what a rule allows them, the evaluation keeps to the rule from its start to its end.
-/

/-! ## Rules -/

/-- From one progress to the next, only what is inside was touched. -/
def Progress.Touched (inside : Identity → Prop) (before after : Progress) : Prop :=
  Ledger.Touched inside before.ledger after.ledger

/-- A progress with the same ledger was touched nowhere. -/
theorem Progress.Touched.of_ledger {inside : Identity → Prop} {progress later : Progress}
    (same : later.ledger = progress.ledger) : progress.Touched inside later := by
  unfold Progress.Touched
  rw [same]
  exact Ledger.Touched.refl progress.ledger

/-- Nothing has happened but messages, calls and uniform values. -/
structure Progress.Aside (before after : Progress) : Prop where
  ledger : after.ledger = before.ledger
  resolvers : after.resolvers = before.resolvers
  answers : after.answers = before.answers
  answered : after.answered = before.answered
  requests : after.requests = before.requests

/-- The progress in which a term has moved to a phase. -/
def Progress.entering (progress : Progress) (term : Term) (phase : Phase) : Progress :=
  progress.updateLedger fun ledger =>
    ledger.updateTerm term.id fun state => { state with phase := phase }

/-- The progress in which the evaluation of a roll has started. -/
def Progress.starting (progress : Progress) (roll : Roll) : Progress :=
  progress.updateLedger fun ledger =>
    ledger.updateRoll roll.id fun state => { state with phase := .evaluating }

/-- The progress in which a roll has its total. -/
def Progress.finishing (progress : Progress) (roll : Roll) (total : Json) : Progress :=
  (progress.updateLedger fun ledger => ledger.updateRoll roll.id fun _ => ⟨.evaluated, total⟩).report
    .debug ("Rolled '" ++ roll.formula ++ "' = " ++ total.plainText)

theorem Progress.isEvaluated_entering (progress : Progress) (term : Term) :
    (progress.entering term .evaluated).ledger.isEvaluated term = true := by
  change ((progress.ledger.updateTerm term.id _).term term.id).phase == _
  rw [Ledger.term_updateTerm, if_pos rfl]
  rfl

theorem Progress.rollPhase_starting (progress : Progress) (roll : Roll) :
    ((progress.starting roll).ledger.roll roll.id).phase = .evaluating := by
  change ((progress.ledger.updateRoll roll.id _).roll roll.id).phase = _
  rw [Ledger.roll_updateRoll, if_pos rfl]

theorem Progress.roll_finishing (progress : Progress) (roll : Roll) (total : Json) :
    (progress.finishing roll total).ledger.roll roll.id = ⟨.evaluated, total⟩ := by
  change (progress.ledger.updateRoll roll.id _).roll roll.id = _
  rw [Ledger.roll_updateRoll, if_pos rfl]

/-- A rule about what happens to progress, to which everything keeps that the
evaluation of what is inside does step by step. -/
structure FrameRule (inside : Identity → Prop) where
  holds : Progress → Progress → Prop
  refl : ∀ progress, holds progress progress
  trans : ∀ {start middle last}, holds start middle → holds middle last → holds start last
  /-- What is inside may change, but not its phase and not its method. -/
  term : ∀ {id : Identity} (change : TermState → TermState), inside id →
    (∀ state, (change state).method = state.method ∧ (change state).phase = state.phase) →
    ∀ progress, holds progress (progress.updateLedger (·.updateTerm id change))
  enter : ∀ {term : Term} {progress : Progress}, inside term.id →
    (progress.ledger.term term.id).phase = .unevaluated →
    holds progress (progress.entering term .evaluating)
  leave : ∀ {term : Term}, inside term.id →
    ∀ progress, holds progress (progress.entering term .evaluated)
  start : ∀ {roll : Roll} {progress : Progress}, inside roll.id →
    (progress.ledger.roll roll.id).phase = .unevaluated → holds progress (progress.starting roll)
  /-- A roll has its total after it was started and its terms were evaluated. -/
  finish : ∀ {roll : Roll} {progress later : Progress}, inside roll.id →
    (progress.ledger.roll roll.id).phase = .unevaluated → holds (progress.starting roll) later →
    ∀ total, holds progress (later.finishing roll total)
  aside : ∀ {progress later : Progress}, progress.Aside later → holds progress later
  /-- Which dice a resolver may be asked for. -/
  asks : Resolver → Dice → Prop
  /-- What holds from the start to where the run waits for a request. -/
  waits : Request → Progress → Progress → Prop
  /-- How a run may go on that waits. -/
  resumes : Request → Progress → Answer → Progress → Prop
  waits_trans : ∀ {request start middle asked}, holds start middle → waits request middle asked →
    waits request start asked
  resume : ∀ {request start asked answer later}, waits request start asked →
    resumes request asked answer later → holds start later
  /-- The outside may be asked for one more die. -/
  ask : ∀ {resolver : Resolver} {dice : Dice}, asks resolver dice →
    ∀ {progress : Progress}, (progress.resolver resolver).closed = false →
    ∀ (method : Json) (reroll explode : Bool),
      waits progress.requests progress (resolver.add dice method true reroll explode progress).2

/-- The rule that only what is inside is touched, if others touch nothing else while
the evaluation waits. -/
def FrameRule.touched (inside : Identity → Prop) : FrameRule inside where
  holds := Progress.Touched inside
  refl progress := Ledger.Touched.refl progress.ledger
  trans := Ledger.Touched.trans
  term _ here kept _ := Ledger.Touched.updateTerm here fun state => (kept state).1
  enter here _ := Ledger.Touched.updateTerm here fun _ => rfl
  leave here _ := Ledger.Touched.updateTerm here fun _ => rfl
  start here _ := Ledger.Touched.updateRoll here _
  finish here _ since _ := Ledger.Touched.trans (Ledger.Touched.updateRoll here _)
    (Ledger.Touched.trans since (Ledger.Touched.updateRoll here _))
  aside only := Progress.Touched.of_ledger only.ledger
  asks _ _ := True
  waits _ := Progress.Touched inside
  resumes _ asked _ later := asked.Touched inside later
  waits_trans := Ledger.Touched.trans
  resume := Ledger.Touched.trans
  ask _ _ _ _ _ _ := Progress.Touched.of_ledger rfl

variable {α β : Type} {inside : Identity → Prop} {rule : FrameRule inside}

/-- Wherever a run stands, the rule was kept since the start, if it goes on as the rule
allows. -/
def Step.Keeps (rule : FrameRule inside) (start : Progress) : Step α → Prop
  | .done _ last => rule.holds start last
  | .wait request asked resume => rule.waits request start asked ∧
      ∀ answer later, rule.resumes request asked answer later →
        (resume answer later).Keeps rule start

/-- An evaluation keeps to a rule, wherever it starts. -/
def Evaluation.Keeps (rule : FrameRule inside) (evaluation : Evaluation α) : Prop :=
  ∀ progress, (evaluation progress).Keeps rule progress

namespace Step

/-- A run that starts later may be counted from an earlier start. -/
theorem Keeps.from {start later : Progress} (before : rule.holds start later) {step : Step α}
    (keeps : step.Keeps rule later) : step.Keeps rule start := by
  induction step with
  | done result last => exact rule.trans before keeps
  | wait request asked resume ih =>
    refine ⟨rule.waits_trans before keeps.1, ?_⟩
    intro answer next meanwhile
    exact ih answer next (keeps.2 answer next meanwhile)

/-- What follows a run may keep to the rule because the run did, and only if it is
counted from an earlier start. -/
theorem Keeps.andThen_from {start middle : Progress} {step : Step α}
    {next : Except Fault α → Progress → Step β} (keeps : step.Keeps rule middle)
    (before : rule.holds start middle)
    (more : ∀ result later, rule.holds middle later → (next result later).Keeps rule start) :
    (step.andThen next).Keeps rule start := by
  induction step with
  | done result last => exact more result last keeps
  | wait request asked resume ih =>
    refine ⟨rule.waits_trans before keeps.1, ?_⟩
    intro answer later meanwhile
    exact ih answer later (keeps.2 answer later meanwhile)

theorem Keeps.andThen {start : Progress} {step : Step α}
    {next : Except Fault α → Progress → Step β} (keeps : step.Keeps rule start)
    (more : ∀ result later, (next result later).Keeps rule later) :
    (step.andThen next).Keeps rule start :=
  keeps.andThen_from (rule.refl start) fun result later since => (more result later).from since

end Step

namespace Evaluation

theorem Keeps.pure (a : α) : Keeps rule (pure a : Evaluation α) := fun progress => rule.refl progress

theorem Keeps.fail (fault : Fault) : Keeps rule (fail fault : Evaluation α) :=
  fun progress => rule.refl progress

theorem Keeps.lift (result : Except Fault α) : Keeps rule (lift result) :=
  fun progress => rule.refl progress

theorem Keeps.read (f : Ledger → Except Fault α) : Keeps rule (read f) :=
  fun progress => rule.refl progress

theorem Keeps.report (level : Level) (text : String) : Keeps rule (report level text) :=
  fun _ => rule.aside ⟨rfl, rfl, rfl, rfl, rfl⟩

theorem Keeps.updateTerm {id : Identity} (here : inside id) {change : TermState → TermState}
    (kept : ∀ state, (change state).method = state.method ∧ (change state).phase = state.phase) :
    Keeps rule (Evaluation.change fun ledger => ledger.updateTerm id change) :=
  fun progress => rule.term change here kept progress

theorem Keeps.bind {first : Evaluation α} {next : α → Evaluation β} (keeps : first.Keeps rule)
    (more : ∀ a, (next a).Keeps rule) : (first >>= next).Keeps rule := by
  intro progress
  apply (keeps progress).andThen
  intro result later
  cases result with
  | error fault => exact rule.refl later
  | ok a => exact more a later

theorem Keeps.ending {evaluation : Evaluation α} (keeps : evaluation.Keeps rule)
    {last : Progress → Progress} (kept : ∀ progress, rule.holds progress (last progress)) :
    (evaluation.ending last).Keeps rule := by
  intro progress
  exact (keeps progress).andThen fun result later => kept later

theorem Keeps.ite {p : Prop} [Decidable p] {yes no : Evaluation α} (first : yes.Keeps rule)
    (second : no.Keeps rule) : (if p then yes else no).Keeps rule := by
  split
  · exact first
  · exact second

end Evaluation
end DiceNotation
